import Minilang.Arith
import Std.Data.HashMap

/-! What a program means: direct evaluation of its tree. Variables that were never set are zero.
A run consumes integers and prints integers; it ends normally, stops with a cause, or needs more
fuel. Fuel is spent by nested statements and by loop iterations, so a run that ends does so with
some amount of it. -/

namespace Minilang

/-- The values of the variables. -/
structure Store where
  cells : Std.HashMap Bytes Int32 := {}

namespace Store

def get (store : Store) (name : Bytes) : Int32 := store.cells.getD name 0

def set (store : Store) (name : Bytes) (value : Int32) : Store :=
  ⟨store.cells.insert name value⟩

end Store

/-- Why an evaluation stops before its end. -/
inductive EvalStop where
  | arith (fault : Arith.Fault)
  | inputExhausted
  | stepLimit
  | unexpectedExpr (kind : ExprKind)
  /-- The tree lacks a node or its contents. -/
  | brokenTree
  | outOfFuel
  deriving DecidableEq, Repr

namespace EvalStop

def message : EvalStop → Bytes
  | arith fault => fault.message
  | inputExhausted => "input exhausted"
  | stepLimit => "step limit exceeded"
  | unexpectedExpr kind => "eval: unexpected expression kind " ++ kind.name
  | brokenTree | outOfFuel => []

end EvalStop

structure EvalState where
  store : Store := {}
  inputs : List Int32 := []
  /-- Latest first. -/
  printed : List Int32 := []
  /-- The most loop iterations; no limit when zero. -/
  budget : Nat := 0
  spent : Nat := 0

abbrev Eval := ExceptT EvalStop (StateM EvalState)

namespace Eval

/-- Counts a loop iteration. -/
def tick : Eval Unit := do
  modify fun state => { state with spent := state.spent + 1 }
  let state ← get
  if 0 < state.budget && state.budget < state.spent then throw .stepLimit

/-- Takes the next input. -/
def read : Eval Int32 := do
  match (← get).inputs with
  | [] => throw .inputExhausted
  | value :: rest =>
      modify fun state => { state with inputs := rest }
      return value

def assign (name : Bytes) (value : Int32) : Eval Unit :=
  modify fun state => { state with store := state.store.set name value }

def print (value : Int32) : Eval Unit :=
  modify fun state => { state with printed := value :: state.printed }

def lookup (name : Bytes) : Eval Int32 := return (← get).store.get name

def apply (op : Op) (l r : Int32) : Eval Int32 :=
  match Arith.apply op l r with
  | .ok value => return value
  | .error fault => throw (.arith fault)

end Eval

def Expr.eval : Expr → Eval Int32
  | .absent => throw .brokenTree
  | .hollow .. => throw .brokenTree
  | .unknown _ => throw (.unexpectedExpr .unknown)
  | .intLit _ _ value => return value
  | .varRef _ name => Eval.lookup name
  | .read _ => Eval.read
  | .paren _ inner => inner.eval
  | .unary _ op operand => do
      let value ← operand.eval
      match op with
      | .neg => return -value
      | .not => return Arith.ofBool (value == 0)
      | _ => return value
  | .binary _ .logicalAnd _ left right => do
      let value ← left.eval
      if value = 0 then return value else right.eval
  | .binary _ .logicalOr _ left right => do
      let value ← left.eval
      if value = 0 then right.eval else return value
  | .binary _ _ op left right => do
      let l ← left.eval
      let r ← right.eval
      Eval.apply op l r

mutual

def Stmt.exec (fuel : Nat) (s : Stmt) : Eval Unit :=
  match fuel with
  | 0 => throw .outOfFuel
  | fuel + 1 =>
      match s with
      | .absent => throw .brokenTree
      | .hollow .. => throw .brokenTree
      | .unknown _ => return
      | .assign _ name _ value => do Eval.assign name (← value.eval)
      | .read _ name _ => do Eval.assign name (← Eval.read)
      | .print _ value => do Eval.print (← value.eval)
      | .ifElse _ cond thenBody elseBody _ => do
          let value ← cond.eval
          if value = 0 then Stmt.execAll fuel elseBody else Stmt.execAll fuel thenBody
      | .whileLoop _ cond body => Stmt.execWhile fuel cond body
      | .forLoop _ name _ start stop step body => do
          Eval.assign name (← start.eval)
          let last ← stop.eval
          let increment ← if step.isAbsent then pure 1 else step.eval
          Stmt.execFor fuel name last increment body

def Stmt.execAll (fuel : Nat) (body : List Stmt) : Eval Unit :=
  match fuel with
  | 0 => throw .outOfFuel
  | fuel + 1 =>
      match body with
      | [] => return
      | s :: rest => do
          Stmt.exec fuel s
          Stmt.execAll fuel rest

/-- Iterates as long as the condition is not zero. -/
def Stmt.execWhile (fuel : Nat) (cond : Expr) (body : List Stmt) : Eval Unit :=
  match fuel with
  | 0 => throw .outOfFuel
  | fuel + 1 => do
      let value ← cond.eval
      if value = 0 then return
      else
        Eval.tick
        Stmt.execAll fuel body
        Stmt.execWhile fuel cond body

/-- Iterates as long as the counter has not passed `last`. The body may change the counter. -/
def Stmt.execFor (fuel : Nat) (name : Bytes) (last increment : Int32) (body : List Stmt) :
    Eval Unit :=
  match fuel with
  | 0 => throw .outOfFuel
  | fuel + 1 => do
      if last < (← Eval.lookup name) then return
      else
        Eval.tick
        Stmt.execAll fuel body
        Eval.assign name ((← Eval.lookup name) + increment)
        Stmt.execFor fuel name last increment body

end

/-- What a run printed and left unread, and why it stopped if it did not end normally. -/
structure Evaluation where
  printed : List Int32
  unread : List Int32
  stop : Option EvalStop
  deriving Repr

/-- Runs a program on a list of inputs with a limit on loop iterations (none when zero). -/
def Program.eval (program : Program) (fuel budget : Nat) (inputs : List Int32) : Evaluation :=
  let (result, state) := (Stmt.execAll fuel program.stmts).run.run { inputs, budget }
  { printed := state.printed.reverse, unread := state.inputs
    stop := match result with
      | .ok _ => none
      | .error stop => some stop }

end Minilang
