import Minilang.Proofs.EmittedIr
import Minilang.Proofs.IrSimulation

/-! The intermediate code of a file does what its program means when it reads leniently, and what
the language says as long as there is input. -/

namespace Minilang

open Ir

namespace Ir

/-- The machine has made cells that hold zero, and has done nothing else. -/
structure Cleared (p : Nat) (console : Machine.Console) (names : List Bytes)
    (state : MachineState) : Prop where
  pc : state.pc = p
  console : state.console = console
  zero : ∀ name ∈ names, state.cells[name]? = some 0

section

variable {p : Nat} {console : Machine.Console} {names : List Bytes} {state : MachineState}

theorem Cleared.put (here : Cleared p console names state) (name : Bytes) :
    Cleared (p + 1) console (names ++ [name]) (state.put name 0) := by
  refine ⟨congrArg (· + 1) here.pc, here.console, fun other member => ?_⟩
  rw [MachineState.put_cells]
  split
  · rfl
  next different =>
    rcases List.mem_append.mp member with known | same
    · exact here.zero other known
    · exact absurd (List.mem_singleton.mp same).symm different

theorem Cleared.fewer {some_ : List Bytes} (here : Cleared p console names state)
    (subset : some_ ⊆ names) : Cleared p console some_ state :=
  ⟨here.pc, here.console, fun name member => here.zero name (subset member)⟩

variable {code : Code} {body : List Item} (real : code.Realizes body)
include real

theorem variables_run (more : List Bytes) (here : Cleared p console names state)
    (at_ : ItemsAt body p (more.flatMap variableCell)) :
    ∃ k last, Runs (Advances code) k state last ∧
      Cleared (p + size (more.flatMap variableCell)) console (names ++ more) last := by
  induction more generalizing p names state with
  | nil => exact ⟨0, state, .refl state, by simpa using here⟩
  | cons name more ih =>
    have code : ItemsAt body p (variableCell name ++ more.flatMap variableCell) := at_
    have made := here.put name
    have stored : Cleared (p + 2) console (names ++ [name]) ((state.put name 0).put name 0) :=
      (made.put name).fewer (List.subset_append_left _ _)
    have makes := Acts.advances real .alloca (here.pc ▸ code.left.head)
    have stores := Acts.advances real (.store (made.zero name (by simp)) rfl)
      (made.pc ▸ code.left.tail)
    obtain ⟨k, last, runs, cleared⟩ := ih stored code.right
    refine ⟨k + 1 + 1, last, .cons makes (.cons stores runs), ?_⟩
    have size_ : size (variableCell name) = 2 := rfl
    simpa [Nat.add_assoc, size_] using cleared

theorem scratch_runs (cells : List Nat) (here : Cleared p console names state)
    (at_ : ItemsAt body p (scratchCells cells)) :
    ∃ k last, Runs (Advances code) k state last ∧
      Cleared (p + size (scratchCells cells)) console (names ++ cells.map temp) last := by
  induction cells generalizing p names state with
  | nil => exact ⟨0, state, .refl state, by simpa [scratchCells] using here⟩
  | cons cell cells ih =>
    have code : ItemsAt body p (result cell .alloca :: scratchCells cells) := at_
    have makes := Acts.advances real .alloca (here.pc ▸ code.head)
    obtain ⟨k, last, runs, cleared⟩ := ih (here.put (temp cell)) code.tail
    refine ⟨k + 1, last, .cons makes runs, ?_⟩
    simpa [scratchCells, Nat.add_assoc] using cleared

end

end Ir

section

variable {program : Program} {vars : Variables} {code : Ir.Code}

/-- The machine imitates the whole program from its start. -/
theorem Program.ir_imitates (ready : program.Ready vars) (real : code.Realizes (program.irItems vars))
    (inputs : List Int32) (fuel : Nat) :
    Imitates (Advances code) (Stuck code) (fuel - 2) (Stmt.execAllBy .lenient fuel program.stmts)
      { inputs } (fun _ es state => state.console = consoleOf es ∧
        ItemsAt (program.irItems vars) state.pc [plain (.ret (.imm 0))])
      { console := { input := .numbers inputs } } := by
  have at_ : ItemsAt (program.irItems vars) 0 (vars.names.toList.flatMap variableCell ++
      (scratchCells (Stmt.allCells 0 program.stmts) ++
        (Stmt.allItems 0 program.stmts ++ [plain (.ret (.imm 0))]))) :=
    ⟨[], [], by simp [Program.irItems, Program.entryItems], rfl⟩
  have start : Cleared 0 { input := .numbers inputs } []
      { console := { input := .numbers inputs } } := ⟨rfl, rfl, fun _ wrong => by cases wrong⟩
  obtain ⟨k, between, first, cleared⟩ := variables_run real _ start at_.left
  obtain ⟨m, last, second, cleared⟩ := scratch_runs real _ cleared at_.right.left
  have body := at_.right.right
  rw [Nat.zero_add] at body cleared
  generalize size (vars.names.toList.flatMap variableCell) +
    size (scratchCells (Stmt.allCells 0 program.stmts)) = p at body cleared
  have here : At vars (Stmt.allCells 0 program.stmts) p { inputs } last := by
    refine ⟨cleared.pc, cleared.console, rfl, fun name known => ?_, fun c member => ?_⟩
    · rw [show Store.get {} name = 0 by simp [Store.get]]
      exact cleared.zero name (ready.known known)
    · have known : temp c ∈ program.cellNames vars := Program.Ready.cell member
      exact ⟨0, cleared.zero _ known⟩
  have all := Stmt.execAllBy_imitates real ready.apart fuel ready.proper body.left
    (fun c member => member) here
  refine .after_run (first.trans second) (all.mono (Nat.sub_le _ _) fun _ after final reached => ?_)
  exact ⟨reached.1.console, reached.1.pc ▸ body.right⟩

end

section file

variable (file : SourceFile) (parsing : ParseOptions) {program : Program} {vars : Variables}

/-- The body for a file without undefined references can be written and read. -/
theorem SourceFile.ir_readable (parsed : program = (Program.parse parsing file.tokens).program)
    (indexed : vars = Variables.ofProgram program) (defined : program.undefinedReports vars = []) :
    Readable (program.irItems vars) := by
  have identifiers := file.program_identifiers parsing
  rw [← parsed] at identifiers
  have ready : program.Ready vars := SourceFile.program_ready parsed indexed defined
  refine ready.readable (fun name known => ?_) ?_
  · exact (Program.variable_isName identifiers (indexed ▸ known)).isName
  · rw [parsed]
    exact Program.parse_proper parsing fun token member ident =>
      ((file.tokens_whole.faithful token member).ident ident).isName

/-- Code for a file is the text of its body. -/
theorem SourceFile.emitAs_ir (vars : Variables)
    (parsed : program = (Program.parse parsing file.tokens).program)
    (options : CompileOptions) (sourceName : Bytes) (lineOf : Option (Span → Nat)) :
    program.emitAs vars options .llvm sourceName lineOf =
      (.ok (render options.dialect sourceName (program.irItems vars)),
        program.undefinedReports vars) := by
  have proper : Stmt.AllProper (fun _ => True) program.stmts := by
    rw [parsed]
    exact Program.parse_proper parsing fun _ _ _ => trivial
  rw [Program.emitAs, Program.toIr_eq vars proper]

/-- A run of the text of a body from its start. -/
theorem Ir.run_rendered {body : List Item} (readable : Readable body) (dialect : Dialect)
    {sourceName : Bytes} (oneLine : 10 ∉ sourceName) (limit fuel : Nat)
    (console : Machine.Console) :
    Ir.run (render dialect sourceName body) limit fuel console =
      runFrom (codeOf dialect sourceName body) limit fuel 0 { console } := by
  simp only [Ir.run, readable.read oneLine]

end file

/-- Correctness of intermediate code: the text that is emitted for a file without undefined
references, under a name of one line, does what its program means when it reads leniently. It ends,
or fails, when the evaluation does, with the same prints and the same inputs left; it does not end
when the evaluation does not; and there is no difference to the language while there is input. -/
theorem Program.ir_simulates (file : SourceFile) (parsing : ParseOptions)
    (options : CompileOptions) (sourceName : Bytes) (lineOf : Option (Span → Nat))
    (oneLine : 10 ∉ sourceName) (inputs : List Int32) :
    let program := (Program.parse parsing file.tokens).program
    let vars := Variables.ofProgram program
    program.undefinedReports vars = [] →
      ∃ text, program.emitAs vars options .llvm sourceName lineOf = (.ok text, []) ∧
        (∀ fuel, (program.evalBy .lenient fuel inputs).stop ≠ some .outOfFuel →
          ∃ steps run, Ir.run text 0 steps { input := .numbers inputs } = some run ∧
            (program.evalBy .lenient fuel inputs).ShownBy run) ∧
        ((∀ fuel, (program.evalBy .lenient fuel inputs).stop = some .outOfFuel) →
          ∀ steps, Ir.run text 0 steps { input := .numbers inputs } = none) ∧
        ∀ fuel, (program.eval fuel 0 inputs).stop ≠ some .inputExhausted →
          program.evalBy .lenient fuel inputs = program.eval fuel 0 inputs := by
  intro program vars defined
  have ready : program.Ready vars := SourceFile.program_ready rfl rfl defined
  have readable : Readable (program.irItems vars) := file.ir_readable parsing rfl rfl defined
  have real := readable.realizes options.dialect sourceName
  have emitted := file.emitAs_ir parsing vars (rfl : program = _) options sourceName lineOf
  rw [defined] at emitted
  have started := Ir.run_rendered readable options.dialect oneLine 0
  have imitates := fun fuel => Program.ir_imitates ready real inputs fuel
  refine ⟨_, emitted, fun fuel early => ?_, fun endless steps => ?_, fun fuel enough => ?_⟩
  · rcases ran : (Stmt.execAllBy .lenient fuel program.stmts).run.run { inputs } with ⟨result, after⟩
    rw [Program.evalBy, ran] at early ⊢
    cases result with
    | ok value =>
      obtain ⟨k, last, runs, console, at_⟩ := (imitates fuel).ended ran
      have ends := real.returns at_
      rw [console] at ends
      refine ⟨k + 1, ⟨consoleOf after, .done⟩, ?_, rfl, rfl, .inl ⟨rfl, rfl⟩⟩
      rw [started, runFrom_runs runs (.inl rfl)]
      exact runFrom_ends ends 0 (0 + k)
    | error stop =>
      have other : stop ≠ .outOfFuel := fun same => early (congrArg some same)
      obtain ⟨k, last, runs, rfl, fault, cause, ends⟩ := (imitates fuel).stopped ran other
      refine ⟨k + 1, ⟨consoleOf after, .fault fault⟩, ?_, rfl, rfl, .inr ⟨_, fault, rfl, rfl, ?_⟩⟩
      · rw [started, runFrom_runs runs (.inl rfl)]
        exact runFrom_ends ends 0 (0 + k)
      · rw [cause]
        rfl
  · obtain ⟨k, last, runs, le⟩ :=
      Imitates.endless imitates (fun fuel => Evaluation.starved (endless fuel)) steps
    rw [started]
    exact runFrom_unfinished runs le 0
  · exact Program.evalBy_lenient enough

/-- The divisor is zero at the end of the input, where the language would stop for want of it. -/
theorem Program.missing_input_simulated :
    let file := SourceFile.make 0 "" "print read; print 6 / read;" {}
    let program := (Program.parse {} file.tokens).program
    (program.eval 9 0 [7]).stop = some .inputExhausted ∧
    ∃ text, program.emitAs (Variables.ofProgram program) { target := some .llvm } .llvm file.path
        none = (.ok text, []) ∧
      ∃ steps run, Ir.run text 0 steps { input := .numbers [7] } = some run ∧
        run.console.output = [7] ∧
        ∃ fault, run.ending = .fault fault ∧ fault.cause.number = 2001 := by
  intro file program
  refine ⟨by decide +kernel, ?_⟩
  obtain ⟨text, emitted, ends, -⟩ := Program.ir_simulates file {} { target := some .llvm } file.path
    none (by decide) [7] (Program.undefinedReports_nil (by decide +kernel))
  have stops : (program.evalBy .lenient 9 [7]).stop = some (.arith .divByZero) := by decide +kernel
  have prints : (program.evalBy .lenient 9 [7]).printed = [7] := by decide +kernel
  obtain ⟨steps, run, ran, printed, -, ending⟩ := ends 9 (by rw [stops]; decide)
  refine ⟨text, emitted, steps, run, ran, printed.trans prints, ?_⟩
  rcases ending with ⟨none, -⟩ | ⟨stop, fault, stopped, faulted, number⟩
  · rw [stops] at none
    cases none
  · rw [stops] at stopped
    cases stopped
    exact ⟨fault, faulted, (Option.some.inj number).symm⟩

end Minilang
