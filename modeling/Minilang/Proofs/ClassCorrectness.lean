import Minilang.Proofs.ClassSimulation
import Minilang.Proofs.LoadedClass

/-! The class file of a program does what the program means. A run of the class machine ends where
the evaluation ends, and goes on for as long as the evaluation does. -/

namespace Minilang

open Machine (Console)

namespace ClassFile

theorem causeOf?_number {stop : EvalStop} {cause : Machine.Cause}
    (causes : causeOf? stop = some cause) : stop.faultNumber? = some cause.number := by
  cases stop with
  | arith fault =>
    cases fault
    · cases causes
      rfl
    all_goals cases causes
  | inputExhausted =>
    cases causes
    rfl
  | stepLimit | unexpectedExpr | brokenTree | outOfFuel => cases causes

theorem runFrom_limited {body : Body} {pool : Pool} {state last : MachineState} {k : Nat}
    (runs : Runs (Advances body pool) k state last) (code : CodeInfo) {limit spent : Nat}
    (some_ : 0 < limit) (low : spent ≤ limit) (far : limit < spent + k) :
    ∃ run fault, runFrom code body pool limit (limit - spent + 1) spent state = some run ∧
      run.ending = .fault fault ∧ fault.cause = .stepLimit limit := by
  induction runs generalizing spent with
  | refl => omega
  | @cons k first second last here later ih =>
    obtain ⟨insn, present, stepped⟩ := here.step code
    by_cases used : limit ≤ spent
    · have stops : (0 < limit && limit ≤ spent) = true := by simp [some_, used]
      refine ⟨⟨first.console, .fault (faultAt code insn.offset (.stepLimit limit))⟩, _, ?_, rfl, rfl⟩
      simp only [runFrom, present, stops, if_true]
    · have free : (0 < limit && limit ≤ spent) = false := by simp [used]
      obtain ⟨run, fault, ran, ending⟩ := @ih (spent + 1) (by omega) (by omega)
      refine ⟨run, fault, ?_, ending⟩
      rw [show limit - spent = limit - (spent + 1) + 1 by omega, runFrom]
      simp only [present, free, Bool.false_eq_true, if_false, stepped]
      exact ran

def startOf (slots : Nat) (console : Console) : MachineState :=
  { locals := (Array.replicate (max slots 1) (.int 0)).setIfInBounds 0 .other, console }

theorem start_locals (vars : Variables) (console : Console) :
    (startOf (vars.size + 1) console).locals.setIfInBounds 0 .scanner = localsOf vars {} := by
  have size : max (vars.size + 1) 1 = vars.size + 1 := by omega
  have zero : ∀ name, Store.get {} name = 0 := fun name => by simp [Store.get]
  refine Array.ext_getElem? fun i => ?_
  simp only [startOf, size, Array.getElem?_setIfInBounds, Array.getElem?_replicate]
  cases i with
  | zero => simp [localsOf_zero]
  | succ i =>
    rw [localsOf_succ]
    by_cases inside : i < vars.size
    · have here : vars.names[i]? = some vars.names[i] := Array.getElem?_eq_getElem inside
      simp [here, zero, inside]
    · have outside : vars.names[i]? = none := Array.getElem?_eq_none (Nat.le_of_not_lt inside)
      simp [outside, inside]

end ClassFile

open ClassFile

section

variable {program : Program} {vars : Variables} {lineOf : Option (Span → Nat)} {body : Body}
  {pool : Pool} {target : Nat → Option Nat}

/-- The machine imitates the whole program from its start. -/
theorem Program.class_imitates (lowerable : program.Lowerable vars)
    (real : Realizes (program.code vars lineOf) body pool target) (inputs : List Int32)
    (fuel : Nat) :
    Imitates (Advances body pool) (Stuck body pool) (fuel - 2) (Stmt.execAll fuel program.stmts)
      { inputs } (fun _ => Reached vars (width (program.code vars lineOf)) [])
      (startOf (vars.size + 1) { input := .numbers inputs }) := by
  have at_ : CodeAt (program.code vars lineOf) 0
      (prologueCode vars ++ Stmt.allCode vars lineOf 0 program.stmts) :=
    ⟨[], [], by simp [Program.code], rfl⟩
  have first : CodeAt (program.code vars lineOf) 0 (prologueCode vars) := at_.left
  have rest := at_.right
  have blank : ∀ name, Store.get {} name = 0 := fun name => by simp [Store.get]
  have tracked : Tracked vars { inputs } := ⟨rfl, fun name _ => blank name⟩
  have start : Runs (Advances body pool) 5 (startOf (vars.size + 1) { input := .numbers inputs })
      (machineAt vars 5 [] { inputs }) := by
    have some_ : 0 < (startOf (vars.size + 1) {}).locals.size := by simp [startOf]
    have runs := scanner_runs real first.left some_ { input := .numbers inputs }
    rw [start_locals] at runs
    exact runs
  have clears : Runs (Advances body pool) (2 * vars.size) (machineAt vars 5 [] { inputs })
      (machineAt vars (5 + 2 * vars.size) [] { inputs }) :=
    clear_runs real lowerable.sound blank first.right vars.size (Nat.le_refl _)
  have wide := width_prologueCode vars
  have behind : CodeAt (program.code vars lineOf) (5 + 2 * vars.size)
      (Stmt.allCode vars lineOf 0 program.stmts) := by
    rw [← wide]
    simpa using at_.right
  have all := Stmt.execAll_imitates real lowerable.sound lineOf fuel lowerable.proper
    lowerable.known (σ := []) behind tracked
  rw [← wide, ← width_append] at all
  exact .after_run (start.trans clears) (wide ▸ all.owing_less (Nat.sub_le _ _))

theorem ClassFile.run_loaded {bytes : Bytes} {loaded : Loaded} (loads : load bytes = .ok loaded)
    (limit fuel : Nat) (console : Console) :
    ClassFile.run bytes limit fuel console =
      runFrom loaded.code loaded.analysis.body loaded.pool limit fuel 0
        (startOf loaded.code.maxLocals console) := by
  simp only [ClassFile.run, loads, startOf]

end

/-- Correctness of class files: a class that was written for a program, with names that the format
can hold, does what the program means. It ends, or fails, when the evaluation does, with the same
prints and the same inputs left; and it does not end when the evaluation does not, unless a limit
on its steps is reached. -/
theorem Program.class_simulates {options : ParseOptions} {file : SourceFile} {program : Program}
    {vars : Variables} (parsed : program = (Program.parse options file.tokens).program)
    (collected : vars = Variables.ofProgram program) {target : ClassOptions}
    (name : (ModifiedUtf8.encode target.name).length ≤ 65535)
    (source : (ModifiedUtf8.encode target.sourceFile).length ≤ 65535) {bytes : Bytes}
    (made : (program.toClass vars target).1 = .ok bytes) (inputs : List Int32) :
    (∀ fuel, (program.eval fuel 0 inputs).stop ≠ some .outOfFuel →
      ∃ steps run, ClassFile.run bytes 0 steps { input := .numbers inputs } = some run ∧
        (program.eval fuel 0 inputs).ShownBy run) ∧
    ((∀ fuel, (program.eval fuel 0 inputs).stop = some .outOfFuel) →
      (∀ steps, ClassFile.run bytes 0 steps { input := .numbers inputs } = none) ∧
      ∀ limit, 0 < limit → ∃ run fault,
        ClassFile.run bytes limit (limit + 1) { input := .numbers inputs } = some run ∧
          run.ending = .fault fault ∧ fault.cause = .stepLimit limit) := by
  have lowerable : program.Lowerable vars := by
    rw [collected, parsed]
    exact Program.parse_lowerable options file.tokens
  obtain ⟨loaded, labels, loads, real, slots⟩ := Program.class_loads lowerable name source made
  have imitates := fun fuel => Program.class_imitates lowerable real inputs fuel
  simp only [ClassFile.run_loaded loads, slots, Program.eval_eq]
  constructor
  · intro fuel early
    rcases ran : (Stmt.execAll fuel program.stmts).run.run { inputs } with ⟨result, after⟩
    rw [ran] at early
    cases result with
    | ok value =>
      obtain ⟨k, last, runs, rfl, -⟩ := (imitates fuel).ended ran
      refine ⟨k + 1, ⟨consoleOf after, .done⟩, ?_, rfl, rfl, .inl ⟨rfl, rfl⟩⟩
      rw [runFrom_runs runs loaded.code (.inl rfl)]
      apply runFrom_ret
      exact real.last
    | error stop =>
      have other : stop ≠ .outOfFuel := fun same => early (congrArg some same)
      obtain ⟨k, last, runs, cause, causes, fails, console⟩ := (imitates fuel).stopped ran other
      obtain ⟨fault, rfl, ended⟩ := runFrom_fails fails loaded.code 0 (0 + k)
      refine ⟨k + 1, ⟨last.console, .fault fault⟩, ?_, ?_, ?_, .inr ⟨stop, fault, rfl, rfl, ?_⟩⟩
      · rw [runFrom_runs runs loaded.code (.inl rfl)]
        exact ended
      · rw [console]
        rfl
      · rw [console]
        rfl
      · exact causeOf?_number causes
  · intro endless
    have far := Imitates.endless imitates fun fuel => Evaluation.starved (endless fuel)
    refine ⟨fun steps => ?_, fun limit some_ => ?_⟩
    · obtain ⟨k, last, runs, le⟩ := far steps
      exact runFrom_unfinished runs loaded.code le 0
    · obtain ⟨k, last, runs, le⟩ := far (limit + 1)
      exact runFrom_limited runs loaded.code some_ (Nat.zero_le limit) (by omega)

theorem Program.quotient_simulated :
    let file := SourceFile.make 0 "" "print read; print 6 / read;" {}
    let program := (Program.parse {} file.tokens).program
    ∃ bytes, (program.toClass (Variables.ofProgram program) {}).1 = .ok bytes ∧
      ∃ steps run, ClassFile.run bytes 0 steps { input := .numbers [2, 0, 5] } = some run ∧
        run.console.output = [2] ∧ run.console.input = .numbers [5] ∧
        ∃ fault, run.ending = .fault fault ∧ fault.cause.number = 2001 := by
  intro file program
  have lowerable : program.Lowerable (Variables.ofProgram program) :=
    Program.parse_lowerable {} file.tokens
  have few : (Variables.ofProgram program).size ≤ 65535 := by decide +kernel
  have short : 4 * ((program.code (Variables.ofProgram program) none).length + 1) ≤ 32767 := by
    decide +kernel
  obtain ⟨bytes, made⟩ := lowerable.small_class few {} short
  have shows := @Program.class_simulates {} file program _ rfl rfl {} (by decide +kernel)
    (by decide +kernel) bytes made [2, 0, 5]
  have stops : (program.eval 9 0 [2, 0, 5]).stop = some (.arith .divByZero) := by decide +kernel
  have prints : (program.eval 9 0 [2, 0, 5]).printed = [2] := by decide +kernel
  have leaves : (program.eval 9 0 [2, 0, 5]).unread = [5] := by decide +kernel
  obtain ⟨steps, run, ran, printed, unread, ending⟩ := shows.1 9 (by rw [stops]; decide)
  refine ⟨bytes, made, steps, run, ran, printed.trans prints, unread.trans (by rw [leaves]), ?_⟩
  rcases ending with ⟨none, -⟩ | ⟨stop, fault, stopped, faulted, number⟩
  · rw [stops] at none
    cases none
  · rw [stops] at stopped
    cases stopped
    exact ⟨fault, faulted, (Option.some.inj number).symm⟩

end Minilang
