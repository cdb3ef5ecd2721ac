import Minilang.Tree.Basic
import Minilang.Text.Quoted

/-! Arithmetic on 32-bit integers in two's complement. Division truncates toward zero; the least
integer divided by minus one is itself, with remainder zero. -/

namespace Minilang.Arith

def ofBool (b : Bool) : Int32 := if b then 1 else 0

/-- The quotient, unless the divisor is zero. -/
def div? (l r : Int32) : Option Int32 := if r = 0 then none else some (l / r)

/-- The remainder, with the sign of the dividend, unless the divisor is zero. -/
def rem? (l r : Int32) : Option Int32 := if r = 0 then none else some (l % r)

inductive Fault where
  | divByZero
  | unknownOp (op : Op)
  deriving DecidableEq, Repr

namespace Fault

def message : Fault → Bytes
  | divByZero => "division by zero"
  | unknownOp op => "eval: unknown operator " ++ Text.quoted op.text

end Fault

/-- Applies a binary operator; comparisons give one or zero. -/
def apply (op : Op) (l r : Int32) : Except Fault Int32 :=
  match op with
  | .add => .ok (l + r)
  | .sub => .ok (l - r)
  | .mul => .ok (l * r)
  | .div => (div? l r).elim (.error .divByZero) .ok
  | .rem => (rem? l r).elim (.error .divByZero) .ok
  | .eq => .ok (ofBool (l == r))
  | .ne => .ok (ofBool (l != r))
  | .lt => .ok (ofBool (l < r))
  | .le => .ok (ofBool (l ≤ r))
  | .gt => .ok (ofBool (r < l))
  | .ge => .ok (ofBool (r ≤ l))
  | _ => .error (.unknownOp op)

end Minilang.Arith
