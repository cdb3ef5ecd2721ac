import Minilang.Ir.Read
import Minilang.Machine.Console

/-! Running intermediate code. Reading past the end of the input leaves the cell as it is, as does
a word that is not an integer. -/

namespace Minilang.Ir

open Machine (Console Fault Run)

structure MachineState where
  pc : Nat := 0
  cells : Std.HashMap Bytes Int32 := {}
  values : Std.HashMap Bytes Int32 := {}
  console : Console

/-- What a step leads to. -/
inductive Outcome where
  | next (state : MachineState)
  | ended (run : Run)

namespace MachineState

def operand (state : MachineState) : Operand → Except Flaw Int32
  | .imm value => .ok value
  | .reg name =>
      match state.values[name]? with
      | some value => .ok value
      | none => .error (.usedTooEarly name)

def cell (state : MachineState) (name : Bytes) : Except Flaw Int32 :=
  match state.cells[name]? with
  | some value => .ok value
  | none => .error (.notCell name)

def setCell (state : MachineState) (name : Bytes) (value : Int32) : MachineState :=
  { state with cells := state.cells.insert name value }

/-- Gives the result a value, when it has a name. -/
def define (state : MachineState) (result : Option Bytes) (value : Int32) : MachineState :=
  match result with
  | none => state
  | some name => { state with values := state.values.insert name value }

def goto (state : MachineState) (code : Code) (label : Bytes) : MachineState :=
  { state with pc := code.labels.getD label 0 }

/-- Why an instruction cannot be executed. -/
inductive Trouble where
  | flaw (flaw : Flaw)
  | cause (cause : Machine.Cause)

instance : Coe Flaw Trouble := ⟨.flaw⟩

private def lift {α : Type} : Except Flaw α → Except Trouble α
  | .ok value => .ok value
  | .error flaw => .error (.flaw flaw)

/-- Executes an instruction other than a return; the state already points behind it. -/
def execute (state : MachineState) (code : Code) (insn : Insn) : Except Trouble MachineState := do
  let result := insn.result
  match insn.action with
  | .alloca => return state.setCell (result.getD []) 0
  | .store value cell =>
      let _ ← lift (state.cell cell)
      return state.setCell cell (← lift (state.operand value))
  | .load cell => return state.define result (← lift (state.cell cell))
  | .compute op left right =>
      let l ← lift (state.operand left)
      let r ← lift (state.operand right)
      match op.eval? l r with
      | some value => return state.define result value
      | none => throw (.cause (.divByZero "integer division by zero"))
  | .compare test left right =>
      let l ← lift (state.operand left)
      let r ← lift (state.operand right)
      return state.define result (Arith.ofBool (test.holds l r))
  | .widen flag => return state.define result ((← lift (state.operand flag)) &&& 1)
  | .jump label => return state.goto code label
  | .branch flag yes no =>
      return state.goto code (if (← lift (state.operand flag)) &&& 1 ≠ 0 then yes else no)
  | .print format value =>
      let text := code.globals.getD format []
      if text ≠ outFormat.text then throw (.flaw (.printFormat text))
      let value ← lift (state.operand value)
      match state.console.print value with
      | .error text => throw (.cause (.output text))
      | .ok console =>
          return { state with console }.define result
            (Int32.ofNat ((Bytes.int value.toInt).length + 1))
  | .scan format cell =>
      let text := code.globals.getD format []
      if text ≠ inFormat.text then throw (.flaw (.scanFormat text))
      let _ ← lift (state.cell cell)
      let (read, console) := state.console.read
      let state := { state with console }
      match read with
      | .ok value => return (state.setCell cell value).define result 1
      | .error .exhausted => return state.define result (-1)
      | .error _ => return state.define result 0
  | .ret value =>
      let _ ← lift (state.operand value)
      return state

end MachineState

/-- Executes the instruction at the program counter. -/
def step (code : Code) (placed : Placed) (state : MachineState) : Outcome :=
  let console := state.console
  match ({ state with pc := state.pc + 1 } : MachineState).execute code placed.insn with
  | .error (.flaw flaw) => .ended { console, ending := .fault (flaw.faultAt placed.line) }
  | .error (.cause cause) =>
      .ended { console, ending := .fault { cause, place := .irLine placed.line } }
  | .ok next =>
      match placed.insn.action with
      | .ret _ => .ended { console, ending := .done }
      | _ => .next next

/-- Runs for at most `fuel` steps, none of them beyond the limit (no limit when zero). -/
def runFrom (code : Code) (limit : Nat) : (fuel spent : Nat) → MachineState → Option Run
  | 0, _, _ => none
  | fuel + 1, spent, state =>
      match code.insns[state.pc]? with
      | none => some { console := state.console, ending := .fault Flaw.fellOff.fault }
      | some placed =>
          if 0 < limit && limit ≤ spent then
            some
              { console := state.console
                ending := .fault { cause := .stepLimit limit, place := .irLine placed.line } }
          else
            match step code placed state with
            | .next state => runFrom code limit fuel (spent + 1) state
            | .ended run => some run

/-- Reads a module and runs it; nothing when the fuel does not suffice. -/
def run (text : Bytes) (limit fuel : Nat) (console : Console) : Option Run :=
  match Code.read text with
  | .error fault => some { console, ending := .fault fault }
  | .ok code => runFrom code limit fuel 0 { console }

end Minilang.Ir
