import Minilang.Semver.Version

/-! Conditions on versions: alternatives, between double bars, of conditions that all hold. A
condition compares with a version that may leave its last numbers open, by a wild card or by not
writing them; two versions with a hyphen between are a range. Every text that is a version makes a
condition behind a sign (`WellFormed.condition`, `Constraint.parse_atLeast`). -/

namespace Minilang.Semver

inductive Relation where
  | equal
  | notEqual
  | above
  | below
  | atLeast
  | atMost
  | tilde
  | caret
  deriving DecidableEq, Repr

/-- How much of a version is left open. -/
inductive Openness where
  | none
  | patch
  | minor
  | all
  deriving DecidableEq, Repr

structure Condition where
  relation : Relation
  version : Version
  openness : Openness := .none
  deriving Repr

inductive ConstraintFault where
  | improper (text : Bytes)
  /-- A number of the version cannot be read. -/
  | badVersion
  deriving DecidableEq, Repr

def ConstraintFault.message : ConstraintFault → Bytes
  | improper text => "improper constraint: " ++ text
  | badVersion => "constraint Parser Error"

namespace Condition

private def isOpen (condition : Condition) : Bool := condition.openness != .none

private def equals (v w : Version) : Bool := v.compare w = .eq

private def tilde (condition : Condition) (v : Version) : Bool :=
  let w := condition.version
  let anything := w.major = 0 && w.minor = 0 && w.patch = 0 &&
    condition.openness != .minor && condition.openness != .patch
  !v.isBelow w && (anything ||
    (v.major = w.major && (v.minor = w.minor || condition.openness = .minor)))

private def caret (condition : Condition) (v : Version) : Bool :=
  let w := condition.version
  if v.isBelow w then false
  else if 0 < w.major || condition.openness = .minor then v.major = w.major
  else if 0 < v.major then false
  else if 0 < w.minor || condition.openness = .patch then v.minor = w.minor
  else if 0 < v.minor then false
  else v.patch = w.patch

private def differs (condition : Condition) (v : Version) : Bool :=
  let w := condition.version
  match condition.openness with
  | .none => !equals v w
  | .minor => w.major != v.major
  | .patch =>
      w.major != v.major || w.minor != v.minor ||
        ((!v.isRelease || !w.isRelease) && Version.comparePre v.pre w.pre != .eq)
  | .all => w.major != v.major || w.minor != v.minor || w.patch != v.patch || !equals v w

private def above (condition : Condition) (v : Version) : Bool :=
  let w := condition.version
  match condition.openness with
  | .minor => w.major < v.major
  | .patch => w.major < v.major || (w.major = v.major && w.minor < v.minor)
  | _ => v.compare w = .gt

private def atMost (condition : Condition) (v : Version) : Bool :=
  let w := condition.version
  match condition.openness with
  | .none => v.compare w != .gt
  | openness =>
      v.major ≤ w.major && !(v.major = w.major && w.minor < v.minor && openness != .minor)

/-- Whether a version meets a condition. A pre-release meets only conditions that name one;
of the conditions with every number fixed, inequality does not ask for that. -/
def holds (condition : Condition) (v : Version) : Bool :=
  let admits := v.isRelease || !condition.version.isRelease
  match condition.relation with
  | .notEqual =>
      if condition.isOpen then admits && condition.differs v else condition.differs v
  | .equal =>
      admits && if condition.isOpen then condition.tilde v else equals v condition.version
  | .above => admits && condition.above v
  | .below => admits && v.isBelow condition.version
  | .atLeast => admits && !v.isBelow condition.version
  | .atMost => admits && condition.atMost v
  | .tilde => admits && condition.tilde v
  | .caret => admits && condition.caret v

end Condition

/-- Alternatives, each a list of conditions. -/
structure Constraint where
  alternatives : List (List Condition)
  deriving Repr

namespace Constraint

def holds (constraint : Constraint) (version : Version) : Bool :=
  constraint.alternatives.any fun conditions => conditions.all (·.holds version)

def isSpace (b : UInt8) : Bool := b == 32 || (9 ≤ b && b ≤ 13 && b != 11)

def skipSpaces (text : Bytes) : Bytes := text.dropWhile isSpace

/-- Digits, the wild cards, and the bar. -/
def isOpenDigit (b : UInt8) : Bool := Bytes.isDigit b || [124, 120, 88, 42].contains b

def isWildcard (part : Bytes) : Bool := part = "x" || part = "X" || part = "*"

def relations : List (Bytes × Relation) :=
  [("!=", .notEqual), (">=", .atLeast), ("=>", .atLeast), ("<=", .atMost), ("=<", .atMost),
    ("~>", .tilde), ("=", .equal), (">", .above), ("<", .below), ("~", .tilde), ("^", .caret)]

/-- The relation at the start of a text; none is equality. -/
def relation (text : Bytes) : Relation × Bytes :=
  (relations.findSome? fun (sign, relation) =>
    (Bytes.after? sign text).map fun rest => (relation, rest)).getD (.equal, text)

/-- Numbers from the first open one on count as zero. -/
def condition (relation : Relation) (spelling : Spelling) :
    Except ConstraintFault Condition :=
  let isLeftOpen := fun (part : Option Bytes) => (part.map isWildcard).getD true
  let (openness, numbers) : Openness × List Bytes :=
    if isWildcard spelling.major then (.all, ["0", "0", "0"])
    else if isLeftOpen spelling.minor then (.minor, [spelling.major, "0", "0"])
    else if isLeftOpen spelling.patch then
      (.patch, [spelling.major, spelling.minor.getD [], "0"])
    else (.none, [spelling.major, spelling.minor.getD [], spelling.patch.getD []])
  let behind := fun (sign : Bytes) (part : Option Bytes) => (part.map (sign ++ ·)).getD []
  let suffix := behind "-" spelling.pre ++
    if openness = .none then behind "+" spelling.metadata else []
  match Version.parse (Bytes.join "." numbers ++ suffix) with
  | .ok version => .ok { relation, version, openness }
  | .error _ => .error .badVersion

/-- The conditions of one alternative as relations and versions: at least one, separated by
white space or a comma. -/
def spellings? : Nat → Bytes → Option (List (Relation × Spelling))
  | 0, _ => none
  | fuel + 1, text => do
      let (relation, rest) := relation (skipSpaces text)
      let (spelling, rest) ← Spelling.read? isOpenDigit (skipSpaces rest)
      match skipSpaces rest with
      | [] => return [(relation, spelling)]
      | 44 :: tail => return (relation, spelling) :: (← spellings? fuel tail)
      | tail =>
          if tail.length < rest.length then
            return (relation, spelling) :: (← spellings? fuel tail)
          else none

def alternative (text : Bytes) : Except ConstraintFault (List Condition) :=
  match spellings? (text.length + 1) text with
  | none => .error (.improper text)
  | some pairs => pairs.mapM fun (relation, spelling) => condition relation spelling

def splitAlternatives : Bytes → Bytes → List Bytes
  | [], piece => [piece.reverse]
  | 124 :: 124 :: rest, piece => piece.reverse :: splitAlternatives rest []
  | b :: rest, piece => splitAlternatives rest (b :: piece)

/-- A version at the start of a text as it is written, and what follows. -/
def written? (text : Bytes) : Option (Bytes × Bytes) :=
  (Spelling.read? isOpenDigit text).map fun (_, rest) =>
    (text.take (text.length - rest.length), rest)

/-- A range of two versions with a hyphen between, at the start of a text. -/
def range? (text : Bytes) : Option (Bytes × Bytes × Bytes) := do
  let (low, rest) ← written? (skipSpaces text)
  let tail ← Bytes.after? "-" (skipSpaces rest)
  if (skipSpaces rest).length = rest.length || (skipSpaces tail).length = tail.length then none
  let (high, rest) ← written? (skipSpaces tail)
  return (low, high, skipSpaces rest)

/-- Every range with the text it was read from. -/
def ranges : Nat → Bytes → List (Bytes × Bytes × Bytes)
  | 0, _ => []
  | _ + 1, [] => []
  | fuel + 1, b :: text =>
      match range? (b :: text) with
      | some (low, high, rest) =>
          ((b :: text).take (text.length + 1 - rest.length), low, high) :: ranges fuel rest
      | none => ranges fuel text

private def replaceFirst (pattern replacement text : Bytes) : Bytes :=
  match Bytes.find? pattern text with
  | some at_ => text.take at_ ++ replacement ++ text.drop (at_ + pattern.length)
  | none => text

/-- Writes ranges as two comparisons. -/
def expandRanges (text : Bytes) : Bytes :=
  (ranges (text.length + 1) text).foldl (fun text (found, low, high) =>
    replaceFirst found (">= " ++ low ++ ", <= " ++ high ++ " ") text) text

def parse (text : Bytes) : Except ConstraintFault Constraint := do
  let alternatives ← (splitAlternatives (expandRanges text) []).mapM alternative
  return { alternatives }

end Constraint

end Minilang.Semver
