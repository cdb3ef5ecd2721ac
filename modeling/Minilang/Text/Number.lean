import Minilang.Text.Quoted

/-! Decimal integers as people write them: an optional sign and digits. Reading stops at the first
reason for refusal, so a number that is already too large wins over a bad character behind it. -/

namespace Minilang.Text

inductive NumberFault where
  | malformed
  | range
  deriving DecidableEq, Repr

namespace NumberFault

def reason : NumberFault → Bytes
  | malformed => "invalid syntax"
  | range => "value out of range"

/-- The fault of reading `text` as a signed integer. -/
def message (fault : NumberFault) (text : Bytes) : Bytes :=
  "strconv.ParseInt: parsing " ++ quoted text ++ ": " ++ fault.reason

end NumberFault

/-- The value of digits in a base, at most `2 ^ bits - 1`. -/
def digits? (base bits : Nat) : Bytes → Nat → Except NumberFault Nat
  | [], value => .ok value
  | b :: rest, value =>
      let digit :=
        if Bytes.isDigit b then b.toNat - 48
        else if Bytes.isLower b then b.toNat - 87
        else if Bytes.isUpper b then b.toNat - 55
        else base
      if base ≤ digit then .error .malformed
      else if Nat.pow 2 bits ≤ value * base + digit then .error .range
      else digits? base bits rest (value * base + digit)

/-- Splits off a sign; true for minus. -/
def signed (text : Bytes) : Bool × Bytes :=
  match text with
  | 43 :: rest => (false, rest)
  | 45 :: rest => (true, rest)
  | _ => (false, text)

/-- A signed integer of `bits` bits in two's complement. -/
def integer? (base bits : Nat) (text : Bytes) : Except NumberFault Int :=
  let (negative, digits) := signed text
  if digits.isEmpty then .error .malformed
  else
    match digits? base bits digits 0 with
    | .error fault => .error fault
    | .ok magnitude =>
        if negative then
          if Nat.pow 2 (bits - 1) < magnitude then .error .range else .ok (-magnitude)
        else if Nat.pow 2 (bits - 1) ≤ magnitude then .error .range
        else .ok magnitude

/-- The base that a prefix announces, and the digits behind it. -/
private def based (digits : Bytes) : Nat × Bytes :=
  match digits with
  | 48 :: mark :: rest =>
      let mark := if Bytes.isUpper mark then mark + 32 else mark
      if rest.isEmpty then (8, digits.drop 1)
      else if mark == 98 then (2, rest)
      else if mark == 111 then (8, rest)
      else if mark == 120 then (16, rest)
      else (8, digits.drop 1)
  | [48] => (8, [])
  | _ => (10, digits)

/-- Whether each underscore stands between two digits. -/
private def underscoresFit : (afterDigit afterUnderscore : Bool) → Bytes → Bool
  | _, afterUnderscore, [] => !afterUnderscore
  | afterDigit, afterUnderscore, b :: rest =>
      if b == 95 then afterDigit && underscoresFit false true rest
      else if (Bytes.hexValue? b).isSome then underscoresFit true false rest
      else !afterUnderscore && underscoresFit false false rest

/-- A signed integer of `bits` bits in the base its prefix announces: `0b`, `0o` or `0`, `0x`, or
none for decimal. Underscores may stand between digits. -/
def literal? (bits : Nat) (text : Bytes) : Except NumberFault Int :=
  let (negative, unsigned) := signed text
  if unsigned.isEmpty then .error .malformed
  else
    let (base, digits) := based unsigned
    match digits? base 64 (digits.filter (· != 95)) 0 with
    | .error fault => .error fault
    | .ok magnitude =>
        if !underscoresFit (digits.length < unsigned.length) false digits then .error .malformed
        else if negative then
          if Nat.pow 2 (bits - 1) < magnitude then .error .range else .ok (-magnitude)
        else if Nat.pow 2 (bits - 1) ≤ magnitude then .error .range
        else .ok magnitude

/-- A 32-bit integer in decimal. -/
def int32? (text : Bytes) : Except NumberFault Int32 := (integer? 10 32 text).map Int32.ofInt

end Minilang.Text
