import Std.Data.HashMap
import Std.Data.HashSet
import Minilang.Text.ComposedData
import Minilang.Text.Utf8

/-! Normalisation to composed form (NFC) of stream-safe text. A text splits into segments: a
starter and the non-starters behind it. Each segment is decomposed, ordered by combining class
and composed again. A run of more than thirty non-starters is broken by a grapheme joiner. Bytes
that are not well-formed pass through as starters. -/

namespace Minilang.Text.Composed

/-- A character of the scan: its code point, or nothing where the bytes are inert. -/
structure Unit where
  code : Option Nat
  bytes : Bytes

private def combiningClass (code : Nat) : Nat :=
  if code < 0x300 then 0
  else
    match Ranges.search code (fun i => let (a, b, _) := classes.getD i (0, 0, 0); (a, b)) 64 0
        classes.size with
    | some i => (classes.getD i (0, 0, 0)).2.2
    | none => 0

private def mapping? (code : Nat) : Option (List Nat × Bool) :=
  if code < 0xC0 then none
  else
    (Ranges.search code (fun i => let a := (mappings.getD i (0, [], false)).1; (a, a)) 64 0
      mappings.size).map fun i => (mappings.getD i (0, [], false)).2

private def pairs : Std.HashMap (Nat × Nat) Nat :=
  mappings.foldl (fun table entry =>
    match entry with
    | (code, [first, second], true) => table.insert (first, second) code
    | _ => table) {}

private def backward : Std.HashSet Nat :=
  mappings.foldl (fun table entry =>
    match entry with
    | (_, [_, second], true) => table.insert second
    | _ => table) {}

private def isHangul (code : Nat) : Bool := 0xAC00 ≤ code && code < 0xD7A4

private def isVowelJamo (code : Nat) : Bool := 0x1161 ≤ code && code < 0x1176

private def isTailJamo (code : Nat) : Bool := 0x11A8 ≤ code && code < 0x11C3

/-- Whether the code point can compose with one before it. -/
private def combinesBackward (code : Nat) : Bool :=
  isVowelJamo code || isTailJamo code || (0x300 ≤ code && backward.contains code)

/-- Full canonical decomposition; mappings nest at most a few levels. -/
private def decompose : Nat → Nat → List Nat
  | 0, code => [code]
  | fuel + 1, code =>
      if isHangul code then
        let index := code - 0xAC00
        let tail := index % 28
        [0x1100 + index / 588, 0x1161 + index % 588 / 28] ++
          (if tail = 0 then [] else [0x11A7 + tail])
      else
        match mapping? code with
        | some (parts, _) => parts.flatMap (decompose fuel)
        | none => [code]

private def isNonStarter (code : Nat) : Bool := combiningClass code != 0 || combinesBackward code

/-- How many non-starters the code point begins and ends with. -/
private def nonStarters (code : Nat) : Nat × Nat :=
  if isHangul code then (0, if (code - 0xAC00) % 28 = 0 then 1 else 2)
  else
    match Ranges.search code
        (fun i => let (a, b, _, _) := counts.getD i (0, 0, 0, 0); (a, b)) 64 0 counts.size with
    | some i => (counts.getD i (0, 0, 0, 0)).2.2
    | none =>
        let parts := decompose 8 code
        ((parts.takeWhile isNonStarter).length, (parts.reverse.takeWhile isNonStarter).length)

private def compose? (first second : Nat) : Option Nat :=
  if 0x1100 ≤ first && first < 0x1113 && isVowelJamo second then
    some (0xAC00 + (first - 0x1100) * 588 + (second - 0x1161) * 28)
  else if isHangul first && (first - 0xAC00) % 28 = 0 && isTailJamo second then
    some (first + (second - 0x11A7))
  else pairs[(first, second)]?

/-- Keeps a segment ordered by combining class; equal classes keep their order. -/
private def insertOrdered (segment : Array Nat) (code : Nat) : Array Nat :=
  let level := combiningClass code
  if level = 0 then segment.push code
  else
    let later := (segment.toList.reverse.takeWhile fun other => level < combiningClass other)
    let keep := segment.size - later.length
    (segment.take keep).push code ++ later.reverse.toArray

/-- Composes the segment's characters into its first one unless something blocks them. -/
private def composeSegment : List Nat → List Nat
  | [] => []
  | first :: rest =>
      let (starter, kept) := rest.foldl (fun (state : Nat × Array Nat) code =>
        let (starter, kept) := state
        let blocked :=
          match kept.back? with
          | none => false
          | some last => combiningClass last == 0 || combiningClass code ≤ combiningClass last
        if blocked then (starter, kept.push code)
        else
          match compose? starter code with
          | some combined => (combined, kept)
          | none => (starter, kept.push code)) (first, #[])
      starter :: kept.toList

/-- The pending segment, how many non-starters count against the limit, and the output. -/
private structure Scan where
  segment : Array Nat := #[]
  inert : Bytes := []
  count : Nat := 0
  output : Array Bytes := #[]

private def Scan.flush (scan : Scan) : Scan :=
  let text := scan.inert ++ Utf8.ofCodes (composeSegment scan.segment.toList)
  { scan with segment := #[], inert := [], output := scan.output.push text }

private def limit : Nat := 30

private def joiner : Nat := 0x34F

private def Scan.add (scan : Scan) (code : Nat) : Scan :=
  { scan with segment := (decompose 8 code).foldl insertOrdered scan.segment }

private def Scan.step (scan : Scan) (unit : Unit) : Scan :=
  match unit.code with
  | none => { scan.flush with inert := unit.bytes, count := 0 }
  | some code =>
      let (leading, trailing) := nonStarters code
      if leading = 0 then ({ scan.flush with count := trailing }).add code
      else if limit < scan.count + leading then
        let joined := { scan with segment := scan.segment.push joiner }
        ({ joined.flush with count := leading }).add code
      else ({ scan with count := scan.count + leading }).add code

/-- Splits bytes into units by their lead byte alone, so that overlong forms and surrogates are
inert units of several bytes. The bytes of an incomplete last sequence are returned apart. -/
private def unitAt : Bytes → Option (Unit × Bytes)
  | [] => none
  | a :: rest =>
      let inert := fun (count : Nat) => some (⟨none, (a :: rest).take count⟩, rest.drop (count - 1))
      let whole := fun (count : Nat) =>
        match Utf8.next? (a :: rest) with
        | some (rune, tail) =>
            if rune.isBad then inert count else some (⟨some rune.code, rune.bytes⟩, tail)
        | none => none
      if a < 0x80 then some (⟨some a.toNat, [a]⟩, rest)
      else if a < 0xC2 then inert 1
      else if a < 0xE0 then
        match rest with
        | b :: _ => if Utf8.isTail b then whole 2 else inert 1
        | _ => none
      else if a < 0xF0 then
        match rest with
        | b :: c :: _ =>
            if !Utf8.isTail b then inert 1 else if !Utf8.isTail c then inert 2 else whole 3
        | _ => none
      else if a < 0xF8 then
        match rest with
        | b :: c :: d :: _ =>
            if !Utf8.isTail b then inert 1 else if !Utf8.isTail c then inert 2
            else if !Utf8.isTail d then inert 3 else whole 4
        | _ => none
      else inert 1

private def scanLoop : Nat → Bytes → Scan → Scan × Bytes
  | 0, text, scan => (scan, text)
  | fuel + 1, text, scan =>
      match unitAt text with
      | none => (scan, text)
      | some (unit, rest) => scanLoop fuel rest (scan.step unit)

/-- The composed form of a text. -/
def compose (text : Bytes) : Bytes :=
  if text.all (· < 0x80) then text
  else
    let (scan, rest) := scanLoop text.length text {}
    scan.flush.output.toList.flatten ++ rest

end Minilang.Text.Composed
