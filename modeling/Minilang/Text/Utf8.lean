import Minilang.Bytes

/-! Reading UTF-8 out of arbitrary bytes. An ill-formed start counts as the replacement
character over a single byte, so every byte string splits into code points. -/

namespace Minilang.Utf8

/-- A code point together with the bytes it was read from. -/
structure Rune where
  code : Nat
  bytes : Bytes
  deriving DecidableEq, Repr

def replacement : Nat := 0xFFFD

/-- A continuation byte. -/
def isTail (b : UInt8) : Bool := 0x80 ≤ b && b ≤ 0xBF

/-- The first code point and the rest, or nothing at the end. Overlong forms, surrogates and
values past U+10FFFF are ill-formed. -/
def next? : Bytes → Option (Rune × Bytes)
  | [] => none
  | a :: rest =>
      let bad := some (⟨replacement, [a]⟩, rest)
      if a < 0x80 then some (⟨a.toNat, [a]⟩, rest)
      else if a < 0xC2 then bad
      else if a < 0xE0 then
        match rest with
        | b :: tail =>
            if isTail b then some (⟨(a.toNat - 0xC0) * 0x40 + (b.toNat - 0x80), [a, b]⟩, tail)
            else bad
        | _ => bad
      else if a < 0xF0 then
        match rest with
        | b :: c :: tail =>
            let low : UInt8 := if a = 0xE0 then 0xA0 else 0x80
            let high : UInt8 := if a = 0xED then 0x9F else 0xBF
            if low ≤ b && b ≤ high && isTail c then
              some (⟨(a.toNat - 0xE0) * 0x1000 + (b.toNat - 0x80) * 0x40 + (c.toNat - 0x80),
                [a, b, c]⟩, tail)
            else bad
        | _ => bad
      else if a < 0xF5 then
        match rest with
        | b :: c :: d :: tail =>
            let low : UInt8 := if a = 0xF0 then 0x90 else 0x80
            let high : UInt8 := if a = 0xF4 then 0x8F else 0xBF
            if low ≤ b && b ≤ high && isTail c && isTail d then
              some (⟨(a.toNat - 0xF0) * 0x40000 + (b.toNat - 0x80) * 0x1000
                + (c.toNat - 0x80) * 0x40 + (d.toNat - 0x80), [a, b, c, d]⟩, tail)
            else bad
        | _ => bad
      else bad

theorem next?_shorter {text rest : Bytes} {rune : Rune} (step : next? text = some (rune, rest)) :
    rest.length < text.length := by
  unfold next? at step
  grind

def runesLoop (text : Bytes) (done : Array Rune) : Array Rune :=
  match step : next? text with
  | none => done
  | some (rune, rest) =>
      have := next?_shorter step
      runesLoop rest (done.push rune)
termination_by text.length

/-- The code points of a text in order; their bytes concatenate to the text. -/
def runes (text : Bytes) : List Rune := (runesLoop text #[]).toList

def codes (text : Bytes) : List Nat := (runes text).map Rune.code

/-- A rune that was read from an ill-formed byte. -/
def Rune.isBad (rune : Rune) : Bool := rune.code == replacement && rune.bytes.length == 1

/-- Whether the text is well-formed throughout. -/
def isValid (text : Bytes) : Bool := (runes text).all (!·.isBad)

def ofCodes (codes : List Nat) : Bytes := codes.flatMap encodeScalar

end Minilang.Utf8
