import Minilang.Ir.Basic
import Minilang.Target
import Minilang.Variables

/-! Lowering of programs to intermediate code. Every variable has a cell, set to zero at the
start; expressions leave fresh values; control flow is spelt out with labels. Values and labels
share one counter and are named `$N`, which no identifier can be. A reference to an undefined
variable is reported and lowering goes on, so code made alongside a report must be discarded. -/

namespace Minilang

namespace Ir

structure LowerState where
  /-- How many names were made. -/
  made : Nat := 0
  /-- Cells of the entry block. -/
  entry : Array Item := #[]
  /-- What follows the cells. -/
  body : Array Item := #[]
  reports : Array Diagnostic := #[]

abbrev Lower := ExceptT LoweringFault (StateM LowerState)

namespace Lower

/-- A name that was not made before. -/
def fresh : Lower Bytes := do
  modify fun state => { state with made := state.made + 1 }
  return "$" ++ Bytes.dec (← get).made

def emitItem (item : Item) : Lower Unit :=
  modify fun state => { state with body := state.body.push item }

def emit (action : Action) : Lower Unit := emitItem (.insn { action })

/-- Emits an instruction with a fresh result. -/
def value (action : Action) : Lower Operand := do
  let name ← fresh
  emitItem (.insn { result := some name, action })
  return .reg name

def label (name : Bytes) : Lower Unit := emitItem (.label name)

def declare (items : List Item) : Lower Unit :=
  modify fun state => { state with entry := state.entry ++ items }

/-- A fresh cell in the entry block, so that loops reuse it. -/
def scratch : Lower Bytes := do
  let cell ← fresh
  declare [.insn { result := some cell, action := .alloca }]
  return cell

def report (diagnostic : Diagnostic) : Lower Unit :=
  modify fun state => { state with reports := state.reports.push diagnostic }

/-- Whether an integer is not zero, as a truth value. -/
def truth (operand : Operand) : Lower Operand := value (.compare .ne operand (.imm 0))

/-- A comparison widened to an integer. -/
def compared (test : Test) (left right : Operand) : Lower Operand := do
  value (.widen (← value (.compare test left right)))

end Lower

/-- The instruction for a binary operator: a calculation or a comparison. -/
def opcode? : Op → Option (Calc ⊕ Test)
  | .add => some (.inl .add)
  | .sub => some (.inl .sub)
  | .mul => some (.inl .mul)
  | .div => some (.inl .sdiv)
  | .rem => some (.inl .srem)
  | .eq => some (.inr .eq)
  | .ne => some (.inr .ne)
  | .lt => some (.inr .slt)
  | .le => some (.inr .sle)
  | .gt => some (.inr .sgt)
  | .ge => some (.inr .sge)
  | _ => none

/-- The plain instruction for an operator. -/
def Lower.binary (op : Op) (left right : Operand) : Lower Operand := do
  match opcode? op with
  | some (.inl op) => value (.compute op left right)
  | some (.inr test) => value (.compare test left right)
  | none => throw (.noOpcode op)

end Ir

open Ir

/-- Lowers an expression; the operand holds its value. -/
def Expr.toIr (vars : Variables) : Expr → Lower Operand
  | .absent | .hollow .. => throw .brokenTree
  | .unknown _ => throw .unknownExpr
  | .intLit _ _ value => return .imm value
  | .varRef site name => do
      unless vars.has name do Lower.report (undefinedReport site.span name)
      Lower.value (.load name)
  | .paren _ inner => inner.toIr vars
  | .read _ => do
      let cell ← Lower.scratch
      Lower.emit (.store (.imm 0) cell)
      Lower.emit (.scan inFormat.name cell)
      Lower.value (.load cell)
  | .unary _ op operand => do
      let value ← operand.toIr vars
      match op with
      | .plus => return value
      | .neg => Lower.value (.compute .sub (.imm 0) value)
      | .not => Lower.compared .eq value (.imm 0)
      | _ => throw (.unknownUnary op)
  | .binary _ form op left right =>
      match form with
      | .additive | .multiplicative => do
          let l ← left.toIr vars
          let r ← right.toIr vars
          Lower.binary op l r
      | .comparison => do
          let l ← left.toIr vars
          let r ← right.toIr vars
          Lower.value (.widen (← Lower.binary op l r))
      | .logicalAnd | .logicalOr => do
          let cell ← Lower.scratch
          let value ← left.toIr vars
          Lower.emit (.store value cell)
          let flag ← Lower.truth value
          let more ← Lower.fresh
          let done ← Lower.fresh
          Lower.emit (if form = .logicalAnd then .branch flag more done else .branch flag done more)
          Lower.label more
          Lower.emit (.store (← right.toIr vars) cell)
          Lower.emit (.jump done)
          Lower.label done
          Lower.value (.load cell)

mutual

def Stmt.toIr (vars : Variables) : Stmt → Lower Unit
  | .absent | .hollow .. => throw .brokenTree
  | .unknown _ => throw .unknownStmt
  | .assign _ name _ value => do Lower.emit (.store (← value.toIr vars) name)
  | .read _ name _ => Lower.emit (.scan inFormat.name name)
  | .print _ value => do Lower.emit (.print outFormat.name (← value.toIr vars))
  | .ifElse _ cond thenBody elseBody hasElse => do
      let flag ← Lower.truth (← cond.toIr vars)
      let yes ← Lower.fresh
      let done ← Lower.fresh
      let no ← if hasElse then Lower.fresh else pure done
      Lower.emit (.branch flag yes no)
      Lower.label yes
      Stmt.allToIr vars thenBody
      Lower.emit (.jump done)
      if hasElse then
        Lower.label no
        Stmt.allToIr vars elseBody
        Lower.emit (.jump done)
      Lower.label done
  | .whileLoop _ cond body => do
      let again ← Lower.fresh
      let inside ← Lower.fresh
      let done ← Lower.fresh
      Lower.emit (.jump again)
      Lower.label again
      let flag ← Lower.truth (← cond.toIr vars)
      Lower.emit (.branch flag inside done)
      Lower.label inside
      Stmt.allToIr vars body
      Lower.emit (.jump again)
      Lower.label done
  -- The bounds are evaluated once; the counter is loaded anew, since the body may change it.
  | .forLoop _ name _ start stop step body => do
      Lower.emit (.store (← start.toIr vars) name)
      let last ← stop.toIr vars
      let increment ← if step.isAbsent then pure (.imm 1) else step.toIr vars
      let again ← Lower.fresh
      let inside ← Lower.fresh
      let done ← Lower.fresh
      Lower.emit (.jump again)
      Lower.label again
      let current ← Lower.value (.load name)
      let flag ← Lower.value (.compare .sle current last)
      Lower.emit (.branch flag inside done)
      Lower.label inside
      Stmt.allToIr vars body
      let current ← Lower.value (.load name)
      let next ← Lower.value (.compute .add current increment)
      Lower.emit (.store next name)
      Lower.emit (.jump again)
      Lower.label done

def Stmt.allToIr (vars : Variables) : List Stmt → Lower Unit
  | [] => return
  | s :: rest => do
      Stmt.toIr vars s
      Stmt.allToIr vars rest

end

/-- The cell of a variable, set to zero. -/
def variableCell (name : Bytes) : List Item :=
  [.insn { result := some name, action := .alloca },
    .insn { action := .store (.imm 0) name }]

/-- The body of the function for a program, and the reports made on the way. -/
def Program.toIr (program : Program) (vars : Variables) :
    Except LoweringFault (List Item) × List Diagnostic :=
  let (result, state) := (Stmt.allToIr vars program.stmts).run.run
    { entry := (vars.names.toList.flatMap variableCell).toArray }
  (result.map fun _ => (state.entry ++ state.body).toList ++ [.insn { action := .ret (.imm 0) }],
    state.reports.toList)

end Minilang
