import Minilang.Proofs.IrMachineRuns
import Minilang.Proofs.MachineRuns

/-! What runs have in common on all consoles. A run on any console that breaks for want of a sound
artefact breaks in the same way on a console that holds a list of integers: those that the
instructions for input left behind. -/

namespace Minilang

open Machine (Console)

/-- A run that does not end for want of a sound artefact. -/
structure Machine.Run.Sound (run : Machine.Run) : Prop where
  inside : run.ending ≠ .outOfBounds
  supported : ∀ fault, run.ending = .fault fault → fault.cause.number ≠ 2004

/-- A console that holds integers. -/
def scripted (inputs printed : List Int32) : Console := { input := .numbers inputs, printed }

/-- Steps and breaks of a machine on any console happen on consoles that hold integers, too, in
states that are alike but for the console. -/
structure Replays {σ : Type} (step : σ → σ → Prop) (breaks : σ → Prop)
    (alike : σ → Console → σ → Prop) : Prop where
  steps : ∀ {state next}, step state next → ∀ printed, ∃ shown, ∀ inputs, ∃ given, ∀ other,
    alike state (scripted given printed) other →
      ∃ after, step other after ∧ alike next (scripted inputs shown) after
  ends : ∀ {state}, breaks state → ∀ printed, ∃ inputs, ∀ other,
    alike state (scripted inputs printed) other → breaks other

theorem Replays.runs {σ : Type} {step : σ → σ → Prop} {breaks : σ → Prop}
    {alike : σ → Console → σ → Prop} (replays : Replays step breaks alike) {k : Nat}
    {state last : σ} (runs : Runs step k state last) (broken : breaks last) (printed : List Int32) :
    ∃ inputs, ∀ other, alike state (scripted inputs printed) other →
      ∃ final, Runs step k other final ∧ breaks final := by
  induction runs generalizing printed with
  | refl state =>
    obtain ⟨inputs, broken⟩ := replays.ends broken printed
    exact ⟨inputs, fun other same => ⟨other, .refl other, broken other same⟩⟩
  | cons here later ih =>
    -- What is printed does not depend on what is read later, but what is read does.
    obtain ⟨shown, steps⟩ := replays.steps here printed
    obtain ⟨inputs, runs⟩ := ih broken shown
    obtain ⟨given, first⟩ := steps inputs
    refine ⟨given, fun other same => ?_⟩
    obtain ⟨after, stepped, still⟩ := first other same
    obtain ⟨final, more, ended⟩ := runs after still
    exact ⟨final, .cons stepped more, ended⟩

namespace ClassFile

/-- The machine with another console. -/
def MachineState.on (state : MachineState) (console : Console) : MachineState :=
  { state with console }

/-- Troubles of an unsound artefact. -/
def Trouble.Unsound : Trouble → Prop
  | .cause reason => reason.number = 2004
  | .flaw _ | .outOfBounds => True

/-- The machine stands behind the last instruction, or before one that cannot be executed, or that
leads past the last one. -/
def Breaks (body : Body) (pool : Pool) (state : MachineState) : Prop :=
  body.insns[state.next]? = none ∨ ∃ insn, body.insns[state.next]? = some insn ∧ insn.action ≠ .ret ∧
    ((∃ trouble, ({ state with next := state.next + 1 } : MachineState).execute body pool insn =
        .error trouble ∧ trouble.Unsound) ∨
      ∃ next, ({ state with next := state.next + 1 } : MachineState).execute body pool insn =
        .ok next ∧ body.insns.size ≤ next.next)

section

variable {body : Body} {pool : Pool} {state next : MachineState} {insn : Insn}

/-- Only calls touch the console. -/
private theorem execute_on (quiet : ∀ kind index, insn.action ≠ .invoke kind index)
    (console : Console) :
    (state.on console).execute body pool insn =
      (state.execute body pool insn).map (·.on console) := by
  obtain ⟨p, stack, locals, old⟩ := state
  unfold MachineState.execute
  cases action : insn.action with
  | invoke kind index => exact absurd action (quiet kind index)
  | nop | ret | push => rfl
  | constant index =>
    simp only
    split <;> rfl
  | intLoad slot | refLoad slot =>
    simp only [MachineState.load, MachineState.on]
    split <;> rfl
  | intStore slot | refStore slot =>
    cases stack with
    | nil => rfl
    | cons value stack =>
      simp only [MachineState.store, MachineState.pop, MachineState.on, ok_bind]
      split <;> rfl
  | shuffle kind =>
    simp only [MachineState.on]
    split <;> rfl
  | negate => cases stack <;> rfl
  | compute op =>
    rcases stack with _ | ⟨right, _ | ⟨left, stack⟩⟩
    · rfl
    · rfl
    · simp only [MachineState.popInt, MachineState.pop, MachineState.on, ok_bind, pure_eq_ok]
      split <;> rfl
  | branchZero cond target =>
    cases stack with
    | nil => rfl
    | cons value stack =>
      simp only [MachineState.popInt, MachineState.pop, MachineState.on, ok_bind, pure_eq_ok,
        MachineState.goto]
      split
      · split <;> rfl
      · rfl
  | branchInts cond target =>
    rcases stack with _ | ⟨right, _ | ⟨left, stack⟩⟩
    · rfl
    · rfl
    · simp only [MachineState.popInt, MachineState.pop, MachineState.on, ok_bind, pure_eq_ok,
        MachineState.goto]
      split
      · split <;> rfl
      · rfl
  | goto target =>
    simp only [MachineState.goto, MachineState.on]
    split <;> rfl
  | new index =>
    simp only
    split <;> rfl
  | getStatic index =>
    simp only
    split
    · rfl
    · split <;> rfl

/-- What a call does with the console: nothing, or it reads, or it prints. -/
private inductive Talks (state : MachineState) (ref : MemberRef) : Prop where
  | quiet (result : Except Trouble (List Value))
      (calls : ∀ console, (state.on console).invoke ref =
        result.map fun stack => { state with stack, console })
  | reads (stack : List Value)
      (given : ∀ console value rest, console.read = (.ok value, rest) →
        (state.on console).invoke ref =
          .ok { state with stack := .int value :: stack, console := rest })
      (missing : ∀ console fault rest, console.read = (.error fault, rest) →
        (state.on console).invoke ref = .error (.cause fault.cause))
  | prints (value : Int32) (stack : List Value)
      (shown : ∀ console rest, console.print value = .ok rest →
        (state.on console).invoke ref = .ok { state with stack, console := rest })
      (failed : ∀ console text, console.print value = .error text →
        (state.on console).invoke ref = .error (.cause (.output text)))

private theorem talks (state : MachineState) (ref : MemberRef) : Talks state ref := by
  obtain ⟨p, stack, locals, old⟩ := state
  by_cases makes : ref.text = scannerInit.text
  · rcases stack with _ | ⟨argument, _ | ⟨receiver, stack⟩⟩
    · refine .quiet (.error .outOfBounds) fun console => ?_
      rw [MachineState.invoke, if_pos makes]
      rfl
    · refine .quiet (.error .outOfBounds) fun console => ?_
      rw [MachineState.invoke, if_pos makes]
      rfl
    · refine .quiet (if argument ≠ .stdin ∨ receiver ≠ .rawScanner then .error (.flaw .scannerSource)
        else .ok (stack.map fun value => if value = .rawScanner then .scanner else value))
        fun console => ?_
      simp only [MachineState.invoke, if_pos makes, MachineState.pop, MachineState.on, ok_bind]
      split <;> rfl
  by_cases reads : ref.text = nextInt.text
  · cases stack with
    | nil =>
      refine .quiet (.error .outOfBounds) fun console => ?_
      rw [MachineState.invoke, if_neg makes, if_pos reads]
      rfl
    | cons receiver stack =>
      by_cases scanner : receiver = .scanner
      · refine .reads stack (fun console value rest read => ?_) fun console fault rest read => ?_
        all_goals
          simp only [MachineState.invoke, if_neg makes, if_pos reads, MachineState.pop,
            MachineState.on, ok_bind, if_neg (not_not.mpr scanner), read]
          rfl
      · refine .quiet (.error (.flaw .notScanner)) fun console => ?_
        simp only [MachineState.invoke, if_neg makes, if_pos reads, MachineState.pop, MachineState.on,
          ok_bind, if_pos scanner]
        rfl
  by_cases prints : ref.text = println.text
  · rcases stack with _ | ⟨value, _ | ⟨receiver, stack⟩⟩
    · refine .quiet (.error .outOfBounds) fun console => ?_
      rw [MachineState.invoke, if_neg makes, if_neg reads, if_pos prints]
      rfl
    · refine .quiet (.error .outOfBounds) fun console => ?_
      rw [MachineState.invoke, if_neg makes, if_neg reads, if_pos prints]
      rfl
    · by_cases stream : receiver = .stdout
      · refine .prints value.toInt32 stack (fun console rest print => ?_) fun console text print => ?_
        all_goals
          simp only [MachineState.invoke, if_neg makes, if_neg reads, if_pos prints,
            MachineState.popInt, MachineState.pop, MachineState.on, ok_bind, pure_eq_ok,
            if_neg (not_not.mpr stream), print, throw_eq_error]
      · refine .quiet (.error (.flaw .notPrintStream)) fun console => ?_
        simp only [MachineState.invoke, if_neg makes, if_neg reads, if_pos prints, MachineState.popInt,
          MachineState.pop, MachineState.on, ok_bind, pure_eq_ok, if_pos stream]
        rfl
  · refine .quiet (.error (.flaw (.unsupportedMethod ref))) fun console => ?_
    exact MachineState.invoke_unsupported _ makes reads prints

/-- A call that fails for want of a sound artefact fails so on every console. -/
private theorem invoke_unsound {ref : MemberRef} {trouble : Trouble} (unsound : trouble.Unsound)
    (fails : state.invoke ref = .error trouble) (console : Console) :
    (state.on console).invoke ref = .error trouble := by
  cases talks state ref with
  | quiet result calls =>
    have here := (calls state.console).symm.trans fails
    rw [calls console]
    cases result with
    | error => exact here
    | ok => cases here
  | reads stack given missing =>
    rcases read : state.console.read with ⟨fault | value, rest⟩
    · cases (missing _ _ _ read).symm.trans fails
      cases fault <;> cases unsound
    · cases (given _ _ _ read).symm.trans fails
  | prints value stack shown failed =>
    cases print : state.console.print value with
    | error text =>
      cases (failed _ _ print).symm.trans fails
      cases unsound
    | ok rest => cases (shown _ _ print).symm.trans fails

/-- A call that succeeds does so when the console holds what it reads. -/
private theorem invoke_ok {ref : MemberRef} (succeeds : state.invoke ref = .ok next)
    (printed : List Int32) :
    ∃ shown, ∀ inputs, ∃ given, (state.on (scripted given printed)).invoke ref =
      .ok (next.on (scripted inputs shown)) := by
  cases talks state ref with
  | quiet result calls =>
    have here := (calls state.console).symm.trans succeeds
    refine ⟨printed, fun inputs => ⟨inputs, ?_⟩⟩
    rw [calls]
    cases result with
    | error => cases here
    | ok stack =>
      cases here
      rfl
  | reads stack given missing =>
    rcases read : state.console.read with ⟨fault | value, rest⟩
    · cases (missing _ _ _ read).symm.trans succeeds
    · cases (given _ _ _ read).symm.trans succeeds
      exact ⟨printed, fun inputs => ⟨value :: inputs, given _ _ _ rfl⟩⟩
  | prints value stack shown failed =>
    cases print : state.console.print value with
    | error text => cases (failed _ _ print).symm.trans succeeds
    | ok rest =>
      cases (shown _ _ print).symm.trans succeeds
      exact ⟨value :: printed, fun inputs => ⟨inputs, shown _ _ rfl⟩⟩

private theorem execute_unsound {trouble : Trouble} (unsound : trouble.Unsound)
    (fails : state.execute body pool insn = .error trouble) (console : Console) :
    (state.on console).execute body pool insn = .error trouble := by
  by_cases quiet : ∀ kind index, insn.action ≠ .invoke kind index
  · rw [execute_on quiet, fails]
    rfl
  · simp only [ne_eq, not_forall, not_not] at quiet
    obtain ⟨kind, index, action⟩ := quiet
    simp only [MachineState.execute, action] at fails ⊢
    cases kind with
    | staticCall => exact fails
    | specialCall | virtualCall => exact invoke_unsound unsound fails console

private theorem execute_ok (executed : state.execute body pool insn = .ok next)
    (printed : List Int32) :
    ∃ shown, ∀ inputs, ∃ given, (state.on (scripted given printed)).execute body pool insn =
      .ok (next.on (scripted inputs shown)) := by
  by_cases quiet : ∀ kind index, insn.action ≠ .invoke kind index
  · refine ⟨printed, fun inputs => ⟨inputs, ?_⟩⟩
    rw [execute_on quiet, executed]
    rfl
  · simp only [ne_eq, not_forall, not_not] at quiet
    obtain ⟨kind, index, action⟩ := quiet
    simp only [MachineState.execute, action] at executed ⊢
    cases kind with
    | staticCall => cases executed
    | specialCall | virtualCall => exact invoke_ok executed printed

/-- The machine for class files replays. -/
theorem replays (body : Body) (pool : Pool) :
    Replays (Advances body pool) (Breaks body pool) fun state console other =>
      other = state.on console where
  steps := by
    rintro state next ⟨insn, present, goes, executed, inside⟩ printed
    obtain ⟨shown, again⟩ := execute_ok executed printed
    refine ⟨shown, fun inputs => ?_⟩
    obtain ⟨given, executes⟩ := again inputs
    refine ⟨given, fun other same => ⟨_, ?_, rfl⟩⟩
    rw [same]
    exact ⟨insn, present, goes, executes, inside⟩
  ends := by
    rintro state (past | ⟨insn, present, goes, ⟨trouble, fails, unsound⟩ | ⟨next, executed, outside⟩⟩)
      printed
    · exact ⟨[], fun other same => same ▸ .inl past⟩
    · refine ⟨[], fun other same => same ▸ .inr ⟨insn, present, goes, .inl ⟨trouble, ?_, unsound⟩⟩⟩
      exact execute_unsound unsound fails _
    · obtain ⟨shown, again⟩ := execute_ok executed printed
      obtain ⟨given, executes⟩ := again []
      exact ⟨given, fun other same => same ▸ .inr ⟨insn, present, goes, .inr ⟨_, executes, outside⟩⟩⟩

/-- A run that does not end as that of a sound artefact has come to a break. -/
theorem runFrom_breaks {code : CodeInfo} {limit fuel spent : Nat} {run : Machine.Run}
    (ran : runFrom code body pool limit fuel spent state = some run) (unsound : ¬run.Sound) :
    ∃ k last, Runs (Advances body pool) k state last ∧ Breaks body pool last := by
  induction fuel generalizing spent state with
  | zero => cases ran
  | succ fuel ih =>
    rw [runFrom] at ran
    cases present : body.insns[state.next]? with
    | none => exact ⟨0, state, .refl state, .inl present⟩
    | some insn =>
      simp only [present] at ran
      split at ran
      · cases ran
        refine absurd ⟨by simp, fun fault same => ?_⟩ unsound
        cases same
        simp [faultAt, Machine.Cause.number]
      rw [ClassFile.step] at ran
      by_cases returns : insn.action = .ret
      · rw [if_pos returns] at ran
        cases ran
        exact absurd ⟨by simp, by simp⟩ unsound
      rw [if_neg returns] at ran
      have breaks : ∀ trouble, ({ state with next := state.next + 1 } : MachineState).execute body
          pool insn = .error trouble → trouble.Unsound → Breaks body pool state :=
        fun trouble fails bad => .inr ⟨insn, present, returns, .inl ⟨trouble, fails, bad⟩⟩
      cases executed : ({ state with next := state.next + 1 } : MachineState).execute body pool
        insn with
      | error trouble =>
        refine ⟨0, state, .refl state, breaks trouble executed ?_⟩
        cases trouble with
        | flaw | outOfBounds => trivial
        | cause reason =>
          by_contra other
          simp only [executed] at ran
          cases ran
          refine unsound ⟨by simp, fun fault same => ?_⟩
          cases same
          exact other
      | ok next =>
        by_cases inside : next.next < body.insns.size
        · simp only [executed, if_pos inside] at ran
          obtain ⟨k, last, runs, broken⟩ := ih ran
          exact ⟨k + 1, last, .cons ⟨insn, present, returns, executed, inside⟩ runs, broken⟩
        · exact ⟨0, state, .refl state,
            .inr ⟨insn, present, returns, .inr ⟨next, executed, Nat.le_of_not_lt inside⟩⟩⟩

end

end ClassFile

namespace Ir

/-- Troubles of an unsound artefact. -/
def MachineState.Trouble.Unsound : MachineState.Trouble → Prop
  | .cause reason => reason.number = 2004
  | .flaw _ => True

/-- The machine stands behind the last instruction, or before one that cannot be executed. -/
def Breaks (code : Code) (state : MachineState) : Prop :=
  code.insns[state.pc]? = none ∨ ∃ placed, code.insns[state.pc]? = some placed ∧
    ∃ trouble, ({ state with pc := state.pc + 1 } : MachineState).execute code placed.insn =
      .error trouble ∧ trouble.Unsound

/-- What is scanned is only found in a cell. -/
def Code.ScansIntoCells (code : Code) : Prop :=
  ∀ (p : Nat) (placed : Placed), code.insns[p]? = some placed →
    ∀ format cell, placed.insn.action = .scan format cell → placed.insn.result = none

/-- Another machine at the same position with the same cells and values, and a given console. -/
structure Alike (state : MachineState) (console : Console) (other : MachineState) : Prop where
  pc : other.pc = state.pc
  console : other.console = console
  cells : ∀ name : Bytes, other.cells[name]? = state.cells[name]?
  values : ∀ name : Bytes, other.values[name]? = state.values[name]?

namespace Alike

variable {state other : MachineState} {console : Console} (alike : Alike state console other)
include alike

theorem cell (name : Bytes) : other.cell name = state.cell name := by
  rw [MachineState.cell, MachineState.cell, alike.cells name]

theorem operand (operand : Operand) : other.operand operand = state.operand operand := by
  cases operand with
  | imm => rfl
  | reg name => rw [MachineState.operand, MachineState.operand, alike.values name]

theorem setCell (name : Bytes) (value : Int32) :
    Alike (state.setCell name value) console (other.setCell name value) := by
  refine ⟨alike.pc, alike.console, fun cell => ?_, alike.values⟩
  simp only [MachineState.setCell, Std.HashMap.getElem?_insert, alike.cells]

theorem define (result : Option Bytes) (value : Int32) :
    Alike (state.define result value) console (other.define result value) := by
  cases result with
  | none => exact alike
  | some name =>
    refine ⟨alike.pc, alike.console, alike.cells, fun other => ?_⟩
    simp only [MachineState.define, Std.HashMap.getElem?_insert, alike.values]

theorem moved (p : Nat) : Alike { state with pc := p } console { other with pc := p } :=
  ⟨rfl, alike.console, alike.cells, alike.values⟩

theorem hear (heard shown : Console) :
    Alike { state with console := heard } shown { other with console := shown } :=
  ⟨alike.pc, rfl, alike.cells, alike.values⟩

end Alike

/-- Results that are errors together, or states that are alike. -/
def SameResult (console : Console) (first second : Except MachineState.Trouble MachineState) : Prop :=
  (∃ trouble, first = .error trouble ∧ second = .error trouble) ∨
    ∃ next after, first = .ok next ∧ second = .ok after ∧ Alike next console after

section

variable {code : Code} {state other : MachineState} {console : Console} {insn : Insn}

/-- Only printing and scanning touch the console. -/
private theorem execute_alike (insn : Insn) (mute : ∀ format value, insn.action ≠ .print format value)
    (deaf : ∀ format cell, insn.action ≠ .scan format cell) (alike : Alike state console other) :
    SameResult console (state.execute code insn) (other.execute code insn) := by
  have stop : ∀ {first second : Except MachineState.Trouble MachineState} {trouble},
      first = .error trouble → second = .error trouble → SameResult console first second :=
    fun one two => .inl ⟨_, one, two⟩
  have go : ∀ {first second : Except MachineState.Trouble MachineState} {next after},
      first = .ok next → second = .ok after → Alike next console after →
      SameResult console first second := fun one two same => .inr ⟨_, _, one, two, same⟩
  obtain ⟨result, action⟩ := insn
  cases action with
  | print format value => exact absurd rfl (mute format value)
  | scan format cell => exact absurd rfl (deaf format cell)
  | alloca => exact go rfl rfl (alike.setCell _ _)
  | jump label => exact go rfl rfl (alike.moved _)
  | store value name =>
    simp only [MachineState.execute, alike.cell, alike.operand]
    cases state.cell name with
    | error => exact stop rfl rfl
    | ok =>
      cases state.operand value with
      | error => exact stop rfl rfl
      | ok => exact go rfl rfl (alike.setCell _ _)
  | load name =>
    simp only [MachineState.execute, alike.cell]
    cases state.cell name with
    | error => exact stop rfl rfl
    | ok => exact go rfl rfl (alike.define _ _)
  | compute op left right =>
    simp only [MachineState.execute, alike.operand]
    cases state.operand left with
    | error => exact stop rfl rfl
    | ok l =>
      cases state.operand right with
      | error => exact stop rfl rfl
      | ok r =>
        change SameResult console (Except.ok l >>= _) (Except.ok l >>= _)
        rw [ok_bind, ok_bind]
        change SameResult console (Except.ok r >>= _) (Except.ok r >>= _)
        rw [ok_bind, ok_bind]
        cases op.eval? l r with
        | none => exact stop rfl rfl
        | some value => exact go rfl rfl (alike.define _ _)
  | compare test left right =>
    simp only [MachineState.execute, alike.operand]
    cases state.operand left with
    | error => exact stop rfl rfl
    | ok =>
      cases state.operand right with
      | error => exact stop rfl rfl
      | ok => exact go rfl rfl (alike.define _ _)
  | widen flag =>
    simp only [MachineState.execute, alike.operand]
    cases state.operand flag with
    | error => exact stop rfl rfl
    | ok => exact go rfl rfl (alike.define _ _)
  | branch flag yes no =>
    simp only [MachineState.execute, alike.operand]
    cases state.operand flag with
    | error => exact stop rfl rfl
    | ok => exact go rfl rfl (alike.moved _)
  | ret value =>
    simp only [MachineState.execute, alike.operand]
    cases state.operand value with
    | error => exact stop rfl rfl
    | ok => exact go rfl rfl alike

private theorem execute_print (result : Option Bytes) {format : Bytes} {operand : Operand}
    {value : Int32} (known : code.globals.getD format [] = outFormat.text)
    (given : state.operand operand = .ok value) :
    (∀ rest, state.console.print value = .ok rest →
      state.execute code ⟨result, .print format operand⟩ =
        .ok (({ state with console := rest } : MachineState).define result
          (Int32.ofNat ((Bytes.int value.toInt).length + 1)))) ∧
    ∀ text, state.console.print value = .error text →
      state.execute code ⟨result, .print format operand⟩ = .error (.cause (.output text)) := by
  simp only [MachineState.execute, given, known, ne_eq, not_true_eq_false, if_false]
  refine ⟨fun rest printed => ?_, fun text failed => ?_⟩
  · change (Except.ok value >>= _) = _
    rw [ok_bind, printed]
    rfl
  · change (Except.ok value >>= _) = _
    rw [ok_bind, failed]
    rfl

private theorem execute_scan {format name : Bytes} {old : Int32}
    (known : code.globals.getD format [] = inFormat.text) (there : state.cell name = .ok old) :
    (∀ value rest, state.console.read = (.ok value, rest) →
      state.execute code ⟨none, .scan format name⟩ =
        .ok (({ state with console := rest } : MachineState).setCell name value)) ∧
    ∀ fault rest, state.console.read = (.error fault, rest) →
      state.execute code ⟨none, .scan format name⟩ = .ok { state with console := rest } := by
  simp only [MachineState.execute, there, known, ne_eq, not_true_eq_false, if_false]
  refine ⟨fun value rest read => ?_, fun fault rest read => ?_⟩
  · change (Except.ok old >>= _) = _
    rw [ok_bind, read]
    rfl
  · change (Except.ok old >>= _) = _
    rw [ok_bind, read]
    cases fault <;> rfl

private theorem cell_known {name : Bytes} {value : Int32} (there : state.cell name = .ok value) :
    state.cells[name]? = some value := by
  cases found : state.cells[name]? with
  | none => simp [MachineState.cell, found] at there
  | some held => simpa [MachineState.cell, found] using there

/-- An instruction that fails before it touches the console. -/
private def FailsAnywhere (code : Code) (state : MachineState) (insn : Insn) : Prop :=
  ∃ trouble, state.execute code insn = .error trouble ∧
    ∀ console other, Alike state console other → other.execute code insn = .error trouble

private theorem print_fails (state : MachineState) (result : Option Bytes) (format : Bytes) (operand : Operand) :
    FailsAnywhere code state ⟨result, .print format operand⟩ ∨
      code.globals.getD format [] = outFormat.text ∧ ∃ value, state.operand operand = .ok value := by
  by_cases known : code.globals.getD format [] = outFormat.text
  · cases given : state.operand operand with
    | ok value => exact .inr ⟨known, value, rfl⟩
    | error flaw =>
      refine .inl ⟨.flaw flaw, ?_, fun console other alike => ?_⟩
      · simp only [MachineState.execute, known, given, ne_eq, not_true_eq_false, if_false]
        rfl
      · simp only [MachineState.execute, known, alike.operand, given, ne_eq, not_true_eq_false,
          if_false]
        rfl
  · refine .inl ⟨.flaw (.printFormat (code.globals.getD format [])), ?_, fun console other alike => ?_⟩
    all_goals
      simp only [MachineState.execute, ne_eq, known, not_false_eq_true, if_true]
      rfl

private theorem scan_fails (state : MachineState) (format name : Bytes) :
    FailsAnywhere code state ⟨none, .scan format name⟩ ∨
      code.globals.getD format [] = inFormat.text ∧ ∃ old, state.cell name = .ok old := by
  by_cases known : code.globals.getD format [] = inFormat.text
  · cases there : state.cell name with
    | ok old => exact .inr ⟨known, old, rfl⟩
    | error flaw =>
      refine .inl ⟨.flaw flaw, ?_, fun console other alike => ?_⟩
      · simp only [MachineState.execute, known, there, ne_eq, not_true_eq_false, if_false]
        rfl
      · simp only [MachineState.execute, known, alike.cell, there, ne_eq, not_true_eq_false, if_false]
        rfl
  · refine .inl ⟨.flaw (.scanFormat (code.globals.getD format [])), ?_, fun console other alike => ?_⟩
    all_goals
      simp only [MachineState.execute, ne_eq, known, not_false_eq_true, if_true]
      rfl

/-- An instruction that shows an unsound artefact does so on every console. -/
private theorem execute_unsound {trouble : MachineState.Trouble} (unsound : trouble.Unsound)
    (quiet : ∀ format name, insn.action = .scan format name → insn.result = none)
    (fails : state.execute code insn = .error trouble) (alike : Alike state console other) :
    other.execute code insn = .error trouble := by
  have anywhere : FailsAnywhere code state insn → other.execute code insn = .error trouble := by
    rintro ⟨same, here, there⟩
    cases here.symm.trans fails
    exact there console other alike
  obtain ⟨result, action⟩ := insn
  have usual (mute : ∀ format value, action ≠ .print format value)
      (deaf : ∀ format name, action ≠ .scan format name) :
      other.execute code ⟨result, action⟩ = .error trouble := by
    rcases execute_alike ⟨result, action⟩ mute deaf alike with
      ⟨same, here, there⟩ | ⟨next, after, here, -⟩
    · cases here.symm.trans fails
      exact there
    · cases here.symm.trans fails
  cases action with
  | print format operand =>
    rcases print_fails state result format operand with wrong | ⟨known, value, given⟩
    · exact anywhere wrong
    · obtain ⟨shows, breaks⟩ := execute_print result known given
      cases print : state.console.print value with
      | ok rest => cases (shows rest print).symm.trans fails
      | error text =>
        cases (breaks text print).symm.trans fails
        cases unsound
  | scan format name =>
    obtain rfl : result = none := quiet format name rfl
    rcases scan_fails state format name with wrong | ⟨known, old, there⟩
    · exact anywhere wrong
    · obtain ⟨takes, misses⟩ := execute_scan known there
      rcases read : state.console.read with ⟨fault | value, rest⟩
      · cases (misses fault rest read).symm.trans fails
      · cases (takes value rest read).symm.trans fails
  | alloca | store | load | compute | compare | widen | jump | branch | ret =>
    exact usual (by simp) (by simp)

/-- An instruction that is executed is executed on a console that holds what it leaves in its
cell. -/
private theorem execute_ok {next : MachineState}
    (quiet : ∀ format name, insn.action = .scan format name → insn.result = none)
    (executed : state.execute code insn = .ok next) (printed : List Int32) :
    ∃ shown, ∀ inputs, ∃ given, ∀ other, Alike state (scripted given printed) other →
      ∃ after, other.execute code insn = .ok after ∧ Alike next (scripted inputs shown) after := by
  obtain ⟨result, action⟩ := insn
  have usual (mute : ∀ format value, action ≠ .print format value)
      (deaf : ∀ format name, action ≠ .scan format name) (inputs : List Int32) :
      ∃ given, ∀ other, Alike state (scripted given printed) other →
        ∃ after, other.execute code ⟨result, action⟩ = .ok after ∧
          Alike next (scripted inputs printed) after := by
    refine ⟨inputs, fun other alike => ?_⟩
    rcases execute_alike ⟨result, action⟩ mute deaf alike with
      ⟨trouble, here, -⟩ | ⟨same, after, here, there, still⟩
    · cases here.symm.trans executed
    · cases here.symm.trans executed
      exact ⟨after, there, still⟩
  cases action with
  | print format operand =>
    rcases print_fails state result format operand with
      ⟨trouble, wrong, -⟩ | ⟨known, value, given⟩
    · cases wrong.symm.trans executed
    obtain ⟨shows, breaks⟩ := execute_print result known given
    cases print : state.console.print value with
    | error text => cases (breaks text print).symm.trans executed
    | ok rest =>
      cases (shows rest print).symm.trans executed
      refine ⟨value :: printed, fun inputs => ⟨inputs, fun other alike => ?_⟩⟩
      obtain ⟨again, -⟩ := execute_print result known ((alike.operand _).trans given)
      refine ⟨_, again (scripted inputs (value :: printed)) ?_, (alike.hear _ _).define _ _⟩
      rw [alike.console]
      rfl
  | scan format name =>
    obtain rfl : result = none := quiet format name rfl
    rcases scan_fails state format name with ⟨trouble, wrong, -⟩ | ⟨known, old, there⟩
    · cases wrong.symm.trans executed
    obtain ⟨takes, misses⟩ := execute_scan known there
    refine ⟨printed, fun inputs => ?_⟩
    have again : ∀ {value other}, Alike state (scripted (value :: inputs) printed) other →
        other.execute code ⟨none, .scan format name⟩ = .ok
          (({ other with console := scripted inputs printed } : MachineState).setCell name value) := by
      intro value other alike
      refine (execute_scan known ((alike.cell _).trans there)).1 value _ ?_
      rw [alike.console]
      rfl
    rcases read : state.console.read with ⟨fault | value, rest⟩
    · cases (misses fault rest read).symm.trans executed
      -- The cell is as it would be if its own value had been read.
      refine ⟨old :: inputs, fun other alike => ⟨_, again alike, ?_⟩⟩
      refine ⟨alike.pc, rfl, fun cell => ?_, alike.values⟩
      simp only [MachineState.setCell, Std.HashMap.getElem?_insert, alike.cells]
      split
      next same => exact (eq_of_beq same ▸ cell_known there).symm
      next => rfl
    · cases (takes value rest read).symm.trans executed
      exact ⟨value :: inputs, fun other alike => ⟨_, again alike, (alike.hear _ _).setCell _ _⟩⟩
  | alloca | store | load | compute | compare | widen | jump | branch | ret =>
    exact ⟨printed, usual (by simp) (by simp)⟩

theorem advances_iff {next : MachineState} :
    Advances code state next ↔ ∃ placed, code.insns[state.pc]? = some placed ∧
      (∀ value, placed.insn.action ≠ .ret value) ∧
      ({ state with pc := state.pc + 1 } : MachineState).execute code placed.insn = .ok next := by
  refine exists_congr fun placed => and_congr_right fun _ => ?_
  rw [step]
  cases executed : ({ state with pc := state.pc + 1 } : MachineState).execute code placed.insn with
  | error trouble => cases trouble <;> simp
  | ok after =>
    cases action : placed.insn.action <;> simp

/-- The machine for intermediate code replays. -/
theorem replays (quiet : code.ScansIntoCells) : Replays (Advances code) (Breaks code) Alike where
  steps := by
    intro state next advances printed
    obtain ⟨placed, present, goes, executed⟩ := advances_iff.mp advances
    obtain ⟨shown, again⟩ := execute_ok (quiet _ placed present) executed printed
    refine ⟨shown, fun inputs => ?_⟩
    obtain ⟨given, replay⟩ := again inputs
    refine ⟨given, fun other alike => ?_⟩
    have moved := alike.moved (state.pc + 1)
    obtain ⟨after, executes, still⟩ := replay _ moved
    refine ⟨after, advances_iff.mpr ⟨placed, ?_, goes, ?_⟩, still⟩
    · rw [alike.pc, present]
    · rw [alike.pc, executes]
  ends := by
    rintro state (past | ⟨placed, present, trouble, fails, unsound⟩) printed
    · exact ⟨[], fun other alike => .inl (by rw [alike.pc, past])⟩
    · refine ⟨[], fun other alike => .inr ⟨placed, by rw [alike.pc, present], trouble, ?_, unsound⟩⟩
      rw [alike.pc]
      exact execute_unsound unsound (quiet _ placed present) fails (alike.moved _)

/-- A run that does not end as that of a sound artefact has come to a break. -/
theorem runFrom_breaks {limit fuel spent : Nat} {run : Machine.Run}
    (ran : runFrom code limit fuel spent state = some run) (unsound : ¬run.Sound) :
    ∃ k last, Runs (Advances code) k state last ∧ Breaks code last := by
  induction fuel generalizing spent state with
  | zero => cases ran
  | succ fuel ih =>
    rw [runFrom] at ran
    cases present : code.insns[state.pc]? with
    | none => exact ⟨0, state, .refl state, .inl present⟩
    | some placed =>
      simp only [present] at ran
      split at ran
      · cases ran
        refine absurd ⟨by simp, fun fault same => ?_⟩ unsound
        cases same
        simp [Machine.Cause.number]
      cases stepped : step code placed state with
      | next after =>
        rw [stepped] at ran
        obtain ⟨k, last, runs, broken⟩ := ih ran
        exact ⟨k + 1, last, .cons ⟨placed, present, stepped⟩ runs, broken⟩
      | ended result =>
        rw [stepped] at ran
        cases ran
        refine ⟨0, state, .refl state, .inr ⟨placed, present, ?_⟩⟩
        rw [step] at stepped
        cases executed : ({ state with pc := state.pc + 1 } : MachineState).execute code
          placed.insn with
        | error trouble =>
          refine ⟨trouble, rfl, ?_⟩
          cases trouble with
          | flaw => trivial
          | cause reason =>
            by_contra other
            simp only [executed] at stepped
            cases stepped
            refine unsound ⟨by simp, fun fault same => ?_⟩
            cases same
            exact other
        | ok next =>
          simp only [executed] at stepped
          split at stepped
          · cases stepped
            exact absurd ⟨by simp, by simp⟩ unsound
          · cases stepped

end

end Ir

end Minilang
