import Minilang.Ir.Machine
import Minilang.Proofs.Imitation
import Minilang.Proofs.IrText

/-! Steps of the machine for intermediate code on a body that it was read from. Positions count
instructions, so labels take no room; a branch goes to the position of its label. -/

namespace Minilang.Ir

open Machine (Console Cause Run)

def Item.size : Item → Nat
  | .label _ => 0
  | .insn _ => 1

/-- How many instructions there are among items. -/
def size (items : List Item) : Nat := (insnsOf items).length

@[simp] theorem size_nil : size [] = 0 := rfl

@[simp] theorem size_append (first second : List Item) :
    size (first ++ second) = size first + size second := by
  simp [size, insnsOf]

@[simp] theorem size_cons (item : Item) (rest : List Item) :
    size (item :: rest) = item.size + size rest := by
  cases item with
  | label => simp [size, insnsOf, Item.size]
  | insn => simp [size, insnsOf, Item.size, Nat.add_comm]

@[simp] theorem plain_size (action : Action) : (plain action).size = 1 := rfl

@[simp] theorem result_size (n : Nat) (action : Action) : (result n action).size = 1 := rfl

@[simp] theorem mark_size (n : Nat) : (mark n).size = 0 := rfl

/-- The items stand in a body with `p` instructions before them. -/
def ItemsAt (body : List Item) (p : Nat) (items : List Item) : Prop :=
  ∃ first rest, body = first ++ items ++ rest ∧ size first = p

namespace ItemsAt

variable {body items more : List Item} {p : Nat} {item : Item}

theorem left (at_ : ItemsAt body p (items ++ more)) : ItemsAt body p items := by
  obtain ⟨first, rest, rfl, rfl⟩ := at_
  exact ⟨first, more ++ rest, by simp, rfl⟩

theorem right (at_ : ItemsAt body p (items ++ more)) : ItemsAt body (p + size items) more := by
  obtain ⟨first, rest, rfl, rfl⟩ := at_
  exact ⟨first ++ items, rest, by simp, by simp⟩

theorem head (at_ : ItemsAt body p (item :: items)) : ItemsAt body p [item] := by
  obtain ⟨first, rest, rfl, rfl⟩ := at_
  exact ⟨first, items ++ rest, by simp, rfl⟩

theorem tail (at_ : ItemsAt body p (item :: items)) : ItemsAt body (p + item.size) items := by
  obtain ⟨first, rest, rfl, rfl⟩ := at_
  exact ⟨first ++ [item], rest, by simp, by simp⟩

end ItemsAt

/-- Code that was read from a body, with the formats that it prints and scans with. -/
structure Code.Realizes (code : Code) (body : List Item) : Prop where
  holds : code.Holds body
  prints : code.globals.getD outFormat.name [] = outFormat.text
  scans : code.globals.getD inFormat.name [] = inFormat.text

theorem Readable.realizes {body : List Item} (readable : Readable body) (dialect : Dialect)
    (sourceName : Bytes) : (codeOf dialect sourceName body).Realizes body where
  holds := readable.holds
  prints := by
    have apart : inFormat.name ≠ outFormat.name := by decide
    simp [codeOf_globals, Reading.started, Std.HashMap.getD_insert, apart]
  scans := by simp [codeOf_globals, Reading.started]

section

variable {code : Code} {body : List Item} (real : code.Realizes body) {p : Nat}
include real

theorem Code.Realizes.fetch {insn : Insn} (at_ : ItemsAt body p [.insn insn]) :
    ∃ placed, code.insns[p]? = some placed ∧ placed.insn = insn := by
  obtain ⟨first, rest, rfl, rfl⟩ := at_
  have there : (code.insns.toList.map Placed.insn)[size first]? = some insn := by
    rw [real.holds.insns, size]
    simp [insnsOf]
  rw [List.getElem?_map, Array.getElem?_toList] at there
  exact Option.map_eq_some_iff.mp there

theorem Code.Realizes.label {name : Bytes} (at_ : ItemsAt body p [.label name]) :
    code.labels.getD name 0 = p := by
  obtain ⟨first, rest, rfl, rfl⟩ := at_
  have found := (real.holds.labels name (size first)).mpr ⟨first, rest, by simp, rfl⟩
  simp [Std.HashMap.getD_eq_getD_getElem?, found]

end

def Advances (code : Code) (state next : MachineState) : Prop :=
  ∃ placed, code.insns[state.pc]? = some placed ∧ step code placed state = .next next

/-- The machine stands before an instruction that ends the run. -/
def Ends (code : Code) (state : MachineState) (run : Run) : Prop :=
  ∃ placed, code.insns[state.pc]? = some placed ∧ step code placed state = .ended run

section

variable {code : Code} {state last : MachineState}

/-- Steps within the limit only use up fuel. -/
theorem runFrom_runs {k : Nat} (runs : Runs (Advances code) k state last) {limit spent : Nat}
    (within : limit = 0 ∨ spent + k ≤ limit) (fuel : Nat) :
    runFrom code limit (k + fuel) spent state = runFrom code limit fuel (spent + k) last := by
  induction runs generalizing spent with
  | refl => simp
  | @cons k first second last here later ih =>
    obtain ⟨placed, present, stepped⟩ := here
    have free : (0 < limit && limit ≤ spent) = false := by
      rcases within with rfl | le
      · simp
      · simp
        omega
    rw [Nat.add_right_comm, runFrom]
    simp only [present, free, Bool.false_eq_true, if_false, stepped]
    rw [ih (by omega)]
    congr 1
    omega

theorem runFrom_unfinished {k : Nat} (runs : Runs (Advances code) k state last) {fuel : Nat}
    (le : fuel ≤ k) (spent : Nat) : runFrom code 0 fuel spent state = none := by
  induction runs generalizing fuel spent with
  | refl =>
    obtain rfl : fuel = 0 := by omega
    rfl
  | @cons k first second last here later ih =>
    cases fuel with
    | zero => rfl
    | succ fuel =>
      obtain ⟨placed, present, stepped⟩ := here
      simp only [runFrom, present, stepped, Nat.lt_irrefl, decide_false, Bool.false_and,
        Bool.false_eq_true, if_false]
      exact ih (by omega) (spent + 1)

theorem runFrom_ends {run : Run} (ends : Ends code state run) (fuel spent : Nat) :
    runFrom code 0 (fuel + 1) spent state = some run := by
  obtain ⟨placed, present, ended⟩ := ends
  simp only [runFrom, present, ended, Nat.lt_irrefl, decide_false, Bool.false_and,
    Bool.false_eq_true, if_false]

end

namespace MachineState

def give (state : MachineState) (name : Bytes) (value : Int32) : MachineState :=
  { state with pc := state.pc + 1, values := state.values.insert name value }

def put (state : MachineState) (name : Bytes) (value : Int32) : MachineState :=
  { state with pc := state.pc + 1, cells := state.cells.insert name value }

def talk (state : MachineState) (console : Console) : MachineState :=
  { state with pc := state.pc + 1, console }

def hear (state : MachineState) (console : Console) : MachineState := { state with console }

def moved (state : MachineState) (p : Nat) : MachineState := { state with pc := p }

variable (state : MachineState) (name other : Bytes) (value : Int32) (console : Console) (p : Nat)

@[simp] theorem give_pc : (state.give name value).pc = state.pc + 1 := rfl
@[simp] theorem give_cells : (state.give name value).cells = state.cells := rfl
@[simp] theorem give_console : (state.give name value).console = state.console := rfl
@[simp] theorem put_pc : (state.put name value).pc = state.pc + 1 := rfl
@[simp] theorem put_values : (state.put name value).values = state.values := rfl
@[simp] theorem put_console : (state.put name value).console = state.console := rfl
@[simp] theorem talk_pc : (state.talk console).pc = state.pc + 1 := rfl
@[simp] theorem talk_values : (state.talk console).values = state.values := rfl
@[simp] theorem talk_cells : (state.talk console).cells = state.cells := rfl
@[simp] theorem talk_console : (state.talk console).console = console := rfl
@[simp] theorem hear_pc : (state.hear console).pc = state.pc := rfl
@[simp] theorem hear_values : (state.hear console).values = state.values := rfl
@[simp] theorem hear_cells : (state.hear console).cells = state.cells := rfl
@[simp] theorem moved_pc : (state.moved p).pc = p := rfl
@[simp] theorem moved_values : (state.moved p).values = state.values := rfl
@[simp] theorem moved_cells : (state.moved p).cells = state.cells := rfl
@[simp] theorem moved_console : (state.moved p).console = state.console := rfl

@[simp] theorem give_values :
    (state.give name value).values[other]? =
      if name = other then some value else state.values[other]? := by
  simp [give, Std.HashMap.getElem?_insert]

@[simp] theorem put_cells :
    (state.put name value).cells[other]? =
      if name = other then some value else state.cells[other]? := by
  simp [put, Std.HashMap.getElem?_insert]

@[simp] theorem operand_imm : state.operand (.imm value) = .ok value := rfl

theorem operand_reg : state.operand (.reg name) = .ok value ↔ state.values[name]? = some value := by
  cases found : state.values[name]? <;> simp [operand, found]

@[simp] theorem operand_put (operand : Operand) :
    (state.put name value).operand operand = state.operand operand := by
  cases operand <;> rfl

@[simp] theorem operand_moved (operand : Operand) :
    (state.moved p).operand operand = state.operand operand := by
  cases operand <;> rfl

theorem operand_give : (state.give name value).operand (.reg name) = .ok value := by
  rw [operand_reg, give_values, if_pos rfl]

end MachineState

/-- What an instruction other than a return does to the state of the machine. -/
inductive Acts (code : Code) (state : MachineState) : Insn → MachineState → Prop where
  | alloca {name : Bytes} :
      Acts code state ⟨some name, .alloca⟩ (state.put name 0)
  | store {operand : Operand} {cell : Bytes} {value old : Int32}
      (known : state.cells[cell]? = some old) (given : state.operand operand = .ok value) :
      Acts code state ⟨none, .store operand cell⟩ (state.put cell value)
  | load {name cell : Bytes} {value : Int32} (known : state.cells[cell]? = some value) :
      Acts code state ⟨some name, .load cell⟩ (state.give name value)
  | compute {name : Bytes} {op : Calc} {left right : Operand} {l r value : Int32}
      (first : state.operand left = .ok l) (second : state.operand right = .ok r)
      (result : op.eval? l r = some value) :
      Acts code state ⟨some name, .compute op left right⟩ (state.give name value)
  | compare {name : Bytes} {test : Test} {left right : Operand} {l r : Int32}
      (first : state.operand left = .ok l) (second : state.operand right = .ok r) :
      Acts code state ⟨some name, .compare test left right⟩
        (state.give name (Arith.ofBool (test.holds l r)))
  | widen {name : Bytes} {flag : Operand} {value : Int32} (given : state.operand flag = .ok value) :
      Acts code state ⟨some name, .widen flag⟩ (state.give name (value &&& 1))
  | jump {label : Bytes} :
      Acts code state ⟨none, .jump label⟩ (state.moved (code.labels.getD label 0))
  | branch {flag : Operand} {yes no : Bytes} {value : Int32}
      (given : state.operand flag = .ok value) :
      Acts code state ⟨none, .branch flag yes no⟩
        (state.moved (code.labels.getD (if value &&& 1 ≠ 0 then yes else no) 0))
  | print {operand : Operand} {value : Int32} {console : Console}
      (format : code.globals.getD outFormat.name [] = outFormat.text)
      (given : state.operand operand = .ok value)
      (printed : state.console.print value = .ok console) :
      Acts code state ⟨none, .print outFormat.name operand⟩ (state.talk console)
  | scan {cell : Bytes} {value old : Int32} {console : Console}
      (format : code.globals.getD inFormat.name [] = inFormat.text)
      (known : state.cells[cell]? = some old) (read : state.console.read = (.ok value, console)) :
      Acts code state ⟨none, .scan inFormat.name cell⟩
        ((state.put cell value).hear console)
  | scanNothing {cell : Bytes} {old : Int32} {console : Console}
      (format : code.globals.getD inFormat.name [] = inFormat.text)
      (known : state.cells[cell]? = some old)
      (read : state.console.read = (.error .exhausted, console)) :
      Acts code state ⟨none, .scan inFormat.name cell⟩ (state.talk console)

private theorem step_next {code : Code} {placed : Placed} {state next : MachineState}
    (executed : ({ state with pc := state.pc + 1 } : MachineState).execute code placed.insn =
      .ok next) (goesOn : ∀ value, placed.insn.action ≠ .ret value) :
    step code placed state = .next next := by
  simp only [step, executed]

theorem Acts.execute {code : Code} {state next : MachineState} {insn : Insn}
    (acts : Acts code state insn next) :
    ({ state with pc := state.pc + 1 } : MachineState).execute code insn = .ok next := by
  have cell : ∀ {name : Bytes} {value : Int32}, state.cells[name]? = some value →
      ({ state with pc := state.pc + 1 } : MachineState).cell name = .ok value := by
    intro name value known
    simp [MachineState.cell, known]
  have operand : ∀ {operand : Operand} {value : Int32}, state.operand operand = .ok value →
      ({ state with pc := state.pc + 1 } : MachineState).operand operand = .ok value :=
    fun given => given
  cases acts with
  | alloca => rfl
  | store known given =>
    simp only [MachineState.execute, cell known, operand given]
    rfl
  | load known =>
    simp only [MachineState.execute, cell known]
    rfl
  | compute first second result =>
    simp only [MachineState.execute, operand first, operand second]
    refine bind_eq_ok.mpr ⟨_, rfl, bind_eq_ok.mpr ⟨_, rfl, ?_⟩⟩
    rw [result]
    rfl
  | compare first second =>
    simp only [MachineState.execute, operand first, operand second]
    rfl
  | widen given =>
    simp only [MachineState.execute, operand given]
    rfl
  | jump => rfl
  | branch given =>
    simp only [MachineState.execute, operand given]
    rfl
  | print format given printed =>
    simp only [MachineState.execute, operand given, format, ne_eq, not_true_eq_false, if_false]
    refine bind_eq_ok.mpr ⟨_, rfl, ?_⟩
    rw [printed]
    rfl
  | scan format known read =>
    simp only [MachineState.execute, cell known, format, ne_eq, not_true_eq_false, if_false]
    refine bind_eq_ok.mpr ⟨_, rfl, ?_⟩
    rw [read]
    rfl
  | scanNothing format known read =>
    simp only [MachineState.execute, cell known, format, ne_eq, not_true_eq_false, if_false]
    refine bind_eq_ok.mpr ⟨_, rfl, ?_⟩
    rw [read]
    rfl

theorem Acts.goesOn {code : Code} {state next : MachineState} {insn : Insn}
    (acts : Acts code state insn next) (value : Operand) : insn.action ≠ .ret value := by
  cases acts <;> simp

theorem Acts.advances {code : Code} {body : List Item} (real : code.Realizes body)
    {state next : MachineState} {insn : Insn} (acts : Acts code state insn next)
    (at_ : ItemsAt body state.pc [.insn insn]) : Advances code state next := by
  obtain ⟨placed, present, rfl⟩ := real.fetch at_
  exact ⟨placed, present, step_next acts.execute acts.goesOn⟩

def byZero : Bytes := "integer division by zero"

section

variable {code : Code} {body : List Item} (real : code.Realizes body) {state : MachineState}
include real

theorem Code.Realizes.divides {result : Option Bytes} {op : Calc} {left right : Operand}
    {l r : Int32} (first : state.operand left = .ok l) (second : state.operand right = .ok r)
    (zero : op.eval? l r = none)
    (at_ : ItemsAt body state.pc [.insn ⟨result, .compute op left right⟩]) :
    ∃ fault, fault.cause = .divByZero byZero ∧
      Ends code state { console := state.console, ending := .fault fault } := by
  obtain ⟨placed, present, same⟩ := real.fetch at_
  have fails : ({ state with pc := state.pc + 1 } : MachineState).execute code placed.insn =
      .error (.cause (.divByZero byZero)) := by
    have operand : ∀ {operand : Operand} {value : Int32}, state.operand operand = .ok value →
        ({ state with pc := state.pc + 1 } : MachineState).operand operand = .ok value :=
      fun given => given
    simp only [same, MachineState.execute, operand first, operand second]
    change (Except.ok l >>= _) = _
    rw [ok_bind]
    change (Except.ok r >>= _) = _
    rw [ok_bind, zero]
    rfl
  refine ⟨{ cause := .divByZero byZero, place := .irLine placed.line }, rfl, placed, present, ?_⟩
  simp only [step, fails]

theorem Code.Realizes.returns {value : Int32}
    (at_ : ItemsAt body state.pc [plain (.ret (.imm value))]) :
    Ends code state { console := state.console, ending := .done } := by
  obtain ⟨placed, present, same⟩ := real.fetch at_
  refine ⟨placed, present, ?_⟩
  rw [step, same]
  rfl

end

end Minilang.Ir
