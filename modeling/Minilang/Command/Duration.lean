import Minilang.Bytes

/-! Durations as people write them: an optional sign, then numbers with units, as in `1h30m` or
`1.5s`. -/

namespace Minilang.Command

inductive DurationFault where
  | invalid
  | missingUnit
  | unknownUnit (unit : Bytes)
  deriving DecidableEq, Repr

namespace DurationFault

private def quotedByte (b : UInt8) : Bytes :=
  if b == 34 || b == 92 then [92, b]
  else if b < 32 || 128 ≤ b then "\\x" ++ Bytes.hexPadded 2 b.toNat
  else [b]

private def quoted (text : Bytes) : Bytes := "\"" ++ text.flatMap quotedByte ++ "\""

/-- The fault of reading `text`. -/
def message (fault : DurationFault) (text : Bytes) : Bytes :=
  match fault with
  | invalid => "time: invalid duration " ++ quoted text
  | missingUnit => "time: missing unit in duration " ++ quoted text
  | unknownUnit unit => "time: unknown unit " ++ quoted unit ++ " in duration " ++ quoted text

end DurationFault

/-- The nanoseconds of a unit. -/
def unitOf? (name : Bytes) : Option Nat :=
  (([("ns", 1), ("us", 1000), ("µs", 1000), ("μs", 1000), ("ms", 1000000), ("s", 1000000000),
    ("m", 60000000000), ("h", 3600000000000)] : List (Bytes × Nat))).lookup name

/-- The most nanoseconds a duration can have. -/
def longest : Nat := 0x7FFFFFFFFFFFFFFF

private def isNumberByte (b : UInt8) : Bool := Bytes.isDigit b || b == 46

/-- The sum of numbers with units. -/
private def sum : Nat → Bytes → Nat → Except DurationFault Nat
  | 0, _, total => .ok total
  | _ + 1, [], total => .ok total
  | fuel + 1, text@(_ :: _), total =>
      let whole := text.takeWhile Bytes.isDigit
      let rest := text.drop whole.length
      let fraction := match rest with
        | 46 :: tail => some (tail.takeWhile Bytes.isDigit)
        | _ => none
      let rest := match fraction with
        | some digits => rest.drop (digits.length + 1)
        | none => rest
      let digits := fraction.getD []
      if whole.isEmpty && digits.isEmpty then .error .invalid
      else
        let name := rest.takeWhile (!isNumberByte ·)
        if name.isEmpty then .error .missingUnit
        else
          match unitOf? name with
          | none => .error (.unknownUnit name)
          | some unit =>
              let value := Bytes.digitsValue whole * unit +
                Bytes.digitsValue digits * unit / Nat.pow 10 digits.length
              if longest + 1 < total + value then .error .invalid
              else sum fuel (rest.drop name.length) (total + value)

/-- The nanoseconds of a duration. -/
def duration? (text : Bytes) : Except DurationFault Int :=
  let (negative, rest) := match text with
    | 43 :: rest => (false, rest)
    | 45 :: rest => (true, rest)
    | _ => (false, text)
  if rest = "0" then .ok 0
  else if rest.isEmpty then .error .invalid
  else
    match sum rest.length rest 0 with
    | .error fault => .error fault
    | .ok total =>
        if negative then .ok (-total) else if longest < total then .error .invalid else .ok total

end Minilang.Command
