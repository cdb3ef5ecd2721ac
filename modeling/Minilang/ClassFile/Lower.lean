import Minilang.ClassFile.Machine
import Minilang.ClassFile.Name
import Minilang.ClassFile.Writer
import Minilang.Target
import Minilang.Variables

/-! Lowering of programs to class files. Slot 0 holds a scanner over the standard input, built on
entry; the variables follow from slot 1, set to zero. An expression leaves its value on the stack.
A counting loop keeps its step and its limit there while its body runs: before each test the stack
holds step, limit and counter. -/

namespace Minilang

namespace ClassFile

structure LowerState where
  /-- How many labels were made. -/
  made : Nat := 0
  steps : Array Step := #[]
  reports : Array Diagnostic := #[]

abbrev Lower := ExceptT LoweringFault (StateM LowerState)

namespace Lower

def fresh : Lower Nat := do
  let label := (← get).made
  modify fun state => { state with made := label + 1 }
  return label

def emit (step : Step) : Lower Unit :=
  modify fun state => { state with steps := state.steps.push step }

def insn (op : Opcode) : Lower Unit := emit (.insn op)

def push (value : Int32) : Lower Unit := emit (.push value)

def jump (op : Opcode) (label : Nat) : Lower Unit := emit (.jump op label)

def mark (label : Nat) : Lower Unit := emit (.mark label)

def report (diagnostic : Diagnostic) : Lower Unit :=
  modify fun state => { state with reports := state.reports.push diagnostic }

/-- The slot of a variable. -/
def slot (vars : Variables) (name : Bytes) : Lower Int :=
  match vars.index? name with
  | some i => return (i : Int) + 1
  | none => throw (.missingVariable name)

/-- Reads an integer onto the stack. -/
def read : Lower Unit := do
  emit (.localVar .aload 0)
  emit (.methodOperand .invokeVirtual nextInt)

/-- Pushes one when the branch is taken and zero otherwise; the branch consumes its operands. -/
def truth (branch : Opcode) : Lower Unit := do
  let yes ← fresh
  let done ← fresh
  jump branch yes
  push 0
  jump .goto done
  mark yes
  push 1
  mark done

end Lower

def arithmetic? : Op → Option Opcode
  | .add => some .iadd
  | .sub => some .isub
  | .mul => some .imul
  | .div => some .idiv
  | .rem => some .irem
  | _ => none

/-- The condition under which a comparison holds. -/
def condition? : Op → Option Cond
  | .eq => some .eq
  | .ne => some .ne
  | .lt => some .lt
  | .le => some .le
  | .gt => some .gt
  | .ge => some .ge
  | _ => none

end ClassFile

open ClassFile

/-- Code that leaves the value of an expression on the stack. -/
def Expr.toSteps (vars : Variables) : Expr → Lower Unit
  | .absent | .hollow .. => throw .brokenTree
  | .unknown _ => throw .unknownExpr
  | .intLit _ _ value => Lower.push value
  | .varRef site name => do
      if vars.has name then Lower.emit (.localVar .iload (← Lower.slot vars name))
      else
        -- A value takes the place of the load, so that the stack stays in step.
        Lower.report (undefinedReport site.span name)
        Lower.push 0
  | .paren _ inner => inner.toSteps vars
  | .read _ => Lower.read
  | .unary _ op operand => do
      operand.toSteps vars
      match op with
      | .plus => return
      | .neg => Lower.insn .ineg
      | .not => Lower.truth (.ifZero .eq)
      | _ => throw (.unknownUnary op)
  | .binary _ form op left right =>
      match form with
      | .additive | .multiplicative => do
          left.toSteps vars
          right.toSteps vars
          match arithmetic? op with
          | some code => Lower.insn code
          | none => throw (.noOpcode op)
      | .comparison => do
          left.toSteps vars
          right.toSteps vars
          match condition? op with
          | some cond => Lower.truth (.ifInts cond)
          | none => throw (.noOpcode op)
      | .logicalAnd | .logicalOr => do
          let done ← Lower.fresh
          left.toSteps vars
          Lower.insn .dup
          Lower.jump (.ifZero (if form = .logicalAnd then .eq else .ne)) done
          Lower.insn .pop
          right.toSteps vars
          Lower.mark done

mutual

/-- Code of a statement; `lineOf` gives the source line of a span when lines are wanted. -/
def Stmt.toSteps (vars : Variables) (lineOf : Option (Span → Nat)) : Stmt → Lower Unit
  | .absent | .hollow .. => throw .brokenTree
  | .unknown _ => throw .unknownStmt
  | .assign site name _ value => do
      emitLine site
      value.toSteps vars
      Lower.emit (.localVar .istore (← Lower.slot vars name))
  | .read site name _ => do
      emitLine site
      Lower.read
      Lower.emit (.localVar .istore (← Lower.slot vars name))
  | .print site value => do
      emitLine site
      Lower.emit (.fieldOperand .getStatic systemOut)
      value.toSteps vars
      Lower.emit (.methodOperand .invokeVirtual println)
  | .ifElse site cond thenBody elseBody hasElse => do
      emitLine site
      let done ← Lower.fresh
      let no ← if hasElse then Lower.fresh else pure done
      cond.toSteps vars
      Lower.jump (.ifZero .eq) no
      Stmt.allToSteps vars lineOf thenBody
      if hasElse then
        Lower.jump .goto done
        Lower.mark no
        Stmt.allToSteps vars lineOf elseBody
      Lower.mark done
  | .whileLoop site cond body => do
      emitLine site
      let again ← Lower.fresh
      let done ← Lower.fresh
      Lower.mark again
      cond.toSteps vars
      Lower.jump (.ifZero .eq) done
      Stmt.allToSteps vars lineOf body
      Lower.jump .goto again
      Lower.mark done
  | .forLoop site name _ start stop step body => do
      emitLine site
      let slot ← Lower.slot vars name
      let again ← Lower.fresh
      let done ← Lower.fresh
      start.toSteps vars
      Lower.insn .dup
      Lower.emit (.localVar .istore slot)
      stop.toSteps vars
      if step.isAbsent then Lower.push 1 else step.toSteps vars
      -- start limit step, to be turned into step limit start
      Lower.insn .swap
      Lower.insn .dup2X1
      Lower.insn .pop2
      Lower.mark again
      Lower.insn .swap
      Lower.insn .dupX1
      Lower.jump (.ifInts .gt) done
      Stmt.allToSteps vars lineOf body
      -- step limit, to which the next counter is added
      Lower.insn .swap
      Lower.insn .dupX1
      Lower.emit (.localVar .iload slot)
      Lower.insn .iadd
      Lower.insn .dup
      Lower.emit (.localVar .istore slot)
      Lower.jump .goto again
      Lower.mark done
      Lower.insn .pop2
where
  emitLine (site : Site) : Lower Unit :=
    match lineOf with
    | none => return
    | some line => Lower.emit (.line (line site.span))

def Stmt.allToSteps (vars : Variables) (lineOf : Option (Span → Nat)) : List Stmt → Lower Unit
  | [] => return
  | s :: rest => do
      Stmt.toSteps vars lineOf s
      Stmt.allToSteps vars lineOf rest

end

/-- Builds the scanner and sets every variable to zero. -/
def prologue (vars : Variables) : Lower Unit := do
  Lower.emit (.classOperand .new scannerClass)
  Lower.insn .dup
  Lower.emit (.fieldOperand .getStatic systemIn)
  Lower.emit (.methodOperand .invokeSpecial scannerInit)
  Lower.emit (.localVar .astore 0)
  if 65535 < vars.size then throw (.slotRange 65536)
  for i in [0:vars.size] do
    Lower.push 0
    Lower.emit (.localVar .istore (i + 1))

/-- The steps of a program's main method, and the reports made on the way. -/
def Program.toSteps (program : Program) (vars : Variables) (lineOf : Option (Span → Nat)) :
    Except LoweringFault (List Step) × List Diagnostic :=
  let lowering : Lower Unit := do
    prologue vars
    Stmt.allToSteps vars lineOf program.stmts
    Lower.insn .ret
  let (result, state) := lowering.run.run {}
  (result.map fun _ => state.steps.toList, state.reports.toList)

/-- Why a program has no class file. -/
inductive EmitFault where
  | lowering (fault : LoweringFault)
  | assembly (fault : AssemblyFault)
  | write (className : Bytes) (fault : WriteFault)

namespace EmitFault

/-- The message of a fault that is not a mistake of the tree's builder. -/
def message : EmitFault → Bytes
  | lowering fault => (fault.message? .jvm).getD []
  | assembly fault => fault.message
  | write name fault => "jvm: class " ++ name ++ ": " ++ fault.message

end EmitFault

structure ClassOptions where
  /-- The empty name means `Main`. -/
  className : Bytes := []
  sourceFile : Bytes := []
  lineOf : Option (Span → Nat) := none

def ClassOptions.name (options : ClassOptions) : Bytes :=
  ClassFile.generatedName options.className

/-- The class file of a program. Exceeding a limit of the format is reported too. -/
def Program.toClass (program : Program) (vars : Variables) (options : ClassOptions) :
    Except EmitFault Bytes × List Diagnostic :=
  let (steps, reports) := program.toSteps vars options.lineOf
  match steps with
  | .error fault => (.error (.lowering fault), reports)
  | .ok steps =>
      let main := Method.make 0x9 "main" mainDescriptor [mainArgument]
      match main.steps {} steps with
      | .error fault => (.error (.assembly fault), reports)
      | .ok (main, pool) =>
          let draft : Draft :=
            { name := options.name, sourceFile := options.sourceFile, pool, methods := #[main] }
          match draft.bytes with
          | .ok bytes => (.ok bytes, reports)
          | .error fault =>
              (.error (.write options.name fault),
                if fault.limit?.isSome then
                  reports ++ [.error .codeTooLarge program.span fault.message]
                else reports)

end Minilang
