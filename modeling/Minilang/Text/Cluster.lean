import Minilang.Text.ClusterData
import Minilang.Text.Utf8

/-! Grapheme clusters: the maximal runs of code points that show as one character. -/

namespace Minilang.Text.Cluster

/-- The part a code point plays in a cluster. -/
inductive Role where
  | other
  | control
  | carriageReturn
  | lineFeed
  | extend
  | joiner
  | regional
  | prepended
  | spacing
  | leadJamo
  | vowelJamo
  | tailJamo
  | openSyllable
  | closedSyllable
  | pictograph
  deriving DecidableEq

def roleOf (code : Nat) : Role :=
  if code == 13 then .carriageReturn
  else if code == 10 then .lineFeed
  else if code < 0x20 then .control
  else if code < 0x7F then .other
  else if code == 0x200D then .joiner
  else if 0x1F1E6 ≤ code && code ≤ 0x1F1FF then .regional
  else if (0x1100 ≤ code && code ≤ 0x115F) || (0xA960 ≤ code && code ≤ 0xA97C) then .leadJamo
  else if (0x1160 ≤ code && code ≤ 0x11A7) || (0xD7B0 ≤ code && code ≤ 0xD7C6) then .vowelJamo
  else if (0x11A8 ≤ code && code ≤ 0x11FF) || (0xD7CB ≤ code && code ≤ 0xD7FB) then .tailJamo
  else if 0xAC00 ≤ code && code ≤ 0xD7A3 then
    if (code - 0xAC00) % 28 = 0 then .openSyllable else .closedSyllable
  else if controls.contains code then .control
  else if extenders.contains code then .extend
  else if prepended.contains code then .prepended
  else if spacingMarks.contains code then .spacing
  else if pictographs.contains code then .pictograph
  else .other

/-- What the boundary rules remember of the text before: the last role, whether it ends a
pictograph with its extenders (and a joiner behind them), and whether a regional indicator is
still unpaired. -/
structure Context where
  last : Role
  picture : Bool := false
  joined : Bool := false
  unpaired : Bool := false

def Context.start (role : Role) : Context :=
  { last := role, picture := role == .pictograph, unpaired := role == .regional }

def Context.extend (context : Context) (role : Role) : Context :=
  { last := role
    picture := role == .pictograph || (role == .extend && context.picture)
    joined := role == .joiner && context.picture
    unpaired := role == .regional && !context.unpaired }

/-- Whether the next code point stays in the cluster. -/
def joins (context : Context) (role : Role) : Bool :=
  match context.last, role with
  | .carriageReturn, .lineFeed => true
  | .control, _ | .carriageReturn, _ | .lineFeed, _ => false
  | _, .control | _, .carriageReturn | _, .lineFeed => false
  | .leadJamo, .leadJamo | .leadJamo, .vowelJamo | .leadJamo, .openSyllable
  | .leadJamo, .closedSyllable => true
  | .openSyllable, .vowelJamo | .vowelJamo, .vowelJamo | .openSyllable, .tailJamo
  | .vowelJamo, .tailJamo => true
  | .closedSyllable, .tailJamo | .tailJamo, .tailJamo => true
  | _, .extend | _, .joiner | _, .spacing => true
  | .prepended, _ => true
  | .joiner, .pictograph => context.joined
  | .regional, .regional => context.unpaired
  | _, _ => false

private def clustersLoop :
    List Utf8.Rune → Context → List Utf8.Rune → List (List Utf8.Rune) → List (List Utf8.Rune)
  | [], _, current, done => (current.reverse :: done).reverse
  | rune :: rest, context, current, done =>
      let role := roleOf rune.code
      if joins context role then clustersLoop rest (context.extend role) (rune :: current) done
      else clustersLoop rest (Context.start role) [rune] (current.reverse :: done)

/-- The clusters of a text; their runes in order are the runes of the text. -/
def clusters (text : Bytes) : List (List Utf8.Rune) :=
  match Utf8.runes text with
  | [] => []
  | first :: rest => clustersLoop rest (Context.start (roleOf first.code)) [first] []

end Minilang.Text.Cluster
