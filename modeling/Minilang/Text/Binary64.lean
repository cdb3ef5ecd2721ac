import Minilang.Bytes

/-! Double-precision numbers as decimal text, with a fixed number of places or with the fewest
digits that read back. All arithmetic on the digits is exact. -/

namespace Minilang

/-- A finite number `± mantissa · 2 ^ exponent`. -/
structure Binary64 where
  negative : Bool
  mantissa : Nat
  exponent : Int
  /-- Whether the gap to the next smaller magnitude is half the gap to the next larger one. -/
  lowest : Bool
  deriving DecidableEq, Repr

namespace Binary64

/-- The parts of a finite double. -/
def ofFloat (value : Float) : Binary64 :=
  let bits := value.toBits.toNat
  let biased : Nat := bits / Nat.pow 2 52 % 0x800
  let fraction : Nat := bits % Nat.pow 2 52
  { negative := bits / Nat.pow 2 63 = 1
    mantissa := if biased = 0 then fraction else fraction + Nat.pow 2 52
    exponent := if biased = 0 then -1074 else (biased : Int) - 1075
    lowest := fraction = 0 && 1 < biased }

/-- The quotient rounded to the nearest integer, a half to the even one. -/
def roundDiv (num den : Nat) : Nat :=
  let down := num / den
  let twice := 2 * (num % den)
  if den < twice || (twice = den && down % 2 = 1) then down + 1 else down

private def powers (base : Nat) (exponent : Int) : Nat × Nat :=
  (Nat.pow base exponent.toNat, Nat.pow base (-exponent).toNat)

/-- Digits with a point in front of the last `places` of them. -/
private def placed (digits places : Nat) : Bytes :=
  if places = 0 then Bytes.dec digits
  else
    let unit := Nat.pow 10 places
    Bytes.dec (digits / unit) ++ "." ++ Bytes.decPadded places (digits % unit)

/-- The text with a fixed number of places. -/
def fixed (value : Binary64) (places : Nat) : Bytes :=
  let (up, down) := powers 2 value.exponent
  let digits := roundDiv (value.mantissa * up * Nat.pow 10 places) down
  Bytes.onlyIf value.negative "-" ++ placed digits places

/-- The multiple of `10 ^ scale` that reads back as the number, if there is one: of the two
around the number the nearer. -/
private def onGrid? (value : Binary64) (scale : Int) : Option Nat :=
  let (up, down) := powers 2 (value.exponent - 2)
  let (tenUp, tenDown) := powers 10 scale
  let den := down * tenUp
  let at_ := fun (quarters : Nat) => quarters * up * tenDown
  let exact := at_ (4 * value.mantissa)
  let low := at_ (4 * value.mantissa - if value.lowest then 1 else 2)
  let high := at_ (4 * value.mantissa + 2)
  let inside := fun (candidate : Nat) =>
    let point := candidate * den
    if value.mantissa % 2 = 0 then decide (low ≤ point ∧ point ≤ high)
    else decide (low < point ∧ point < high)
  let below := exact / den
  match inside below, inside (below + 1) with
  | true, true =>
      some (if exact - below * den ≤ (below + 1) * den - exact then below else below + 1)
  | true, false => some below
  | false, true => some (below + 1)
  | false, false => none

private def shortestLoop (value : Binary64) : Nat → Int → Nat × Int
  | 0, scale => (0, scale)
  | fuel + 1, scale =>
      match onGrid? value scale with
      | some digits => (digits, scale)
      | none => shortestLoop value fuel (scale - 1)

/-- The fewest digits that read back, written without an exponent. -/
def shortest (value : Binary64) : Bytes :=
  let (digits, scale) :=
    if value.mantissa = 0 then (0, 0) else shortestLoop value 640 309
  Bytes.onlyIf value.negative "-" ++ placed (digits * Nat.pow 10 scale.toNat) (-scale).toNat

end Binary64

end Minilang
