import Minilang.Proofs.IrLowering
import Minilang.Proofs.NodeForest
import Minilang.Proofs.SizeLimits

/-! References to undefined variables. The check on the tree and the two ways of lowering report
the same, one report for each reference to a name that nothing gives a value to, in source order.
So diagnosing a file and compiling it fill their bags alike. -/

namespace Minilang

/-- The variable that a node refers to, and where. -/
def Node.reference? : Node → Option (Site × Bytes)
  | .expr (.varRef site name) => some (site, name)
  | _ => none

/-- The names that receive a value somewhere in a program. -/
def Program.targets (program : Program) : List Bytes := program.nodes.filterMap Node.target?

/-- References to names that never receive a value. -/
def Program.dangling (program : Program) : List (Site × Bytes) :=
  (program.nodes.filterMap Node.reference?).filter fun reference =>
    !program.targets.contains reference.2

theorem Variables.has_ofProgram (program : Program) (name : Bytes) :
    (Variables.ofProgram program).has name = program.targets.contains name := by
  rw [Bool.eq_iff_iff, Variables.ofProgram, Variables.has_foldl]
  simp [Program.targets, Variables.has]

theorem Node.undefined?_eq (vars : Variables) (node : Node) :
    node.undefined? vars = (node.reference?.filter fun reference => !vars.has reference.2).map
      fun reference => undefinedReport reference.1.span reference.2 := by
  cases node with
  | stmt s => rfl
  | expr e =>
    cases e with
    | varRef site name =>
      simp only [Node.undefined?, Node.reference?]
      cases known : vars.has name <;> simp [known]
    | _ => rfl

/-- What is reported are the references to names that are no target. -/
theorem Program.undefinedReports_dangling (program : Program) :
    program.undefinedReports (Variables.ofProgram program) =
      program.dangling.map fun reference => undefinedReport reference.1.span reference.2 := by
  rw [Program.undefinedReports_eq, Program.dangling, List.filter_filterMap, List.map_filterMap]
  simp only [Node.undefined?_eq, Variables.has_ofProgram]

namespace ClassFile.Lower

variable {α β : Type}

/-- A lowering that reports some things whenever it succeeds. -/
def Finds (lowering : Lower α) (found : List Diagnostic) : Prop :=
  ∀ (state : LowerState) (value : α) (after : LowerState),
    lowering.run.run state = (.ok value, after) →
      after.reports.toList = state.reports.toList ++ found

theorem finds_pure (value : α) : Finds (pure value) [] := by
  rintro state _ _ ⟨⟩
  exact (List.append_nil _).symm

theorem finds_throw (fault : LoweringFault) (found : List Diagnostic) :
    Finds (throw fault : Lower α) found := by
  rintro state _ _ ⟨⟩

theorem finds_emit (step : Step) : Finds (emit step) [] := by
  rintro state _ _ ⟨⟩
  exact (List.append_nil _).symm

theorem finds_fresh : Finds fresh [] := by
  rintro state _ _ ⟨⟩
  exact (List.append_nil _).symm

theorem finds_report (diagnostic : Diagnostic) : Finds (report diagnostic) [diagnostic] := by
  rintro state _ _ ⟨⟩
  exact Array.toList_push

theorem Finds.bind {lowering : Lower α} {next : α → Lower β} {found others : List Diagnostic}
    (first : Finds lowering found) (second : ∀ value, Finds (next value) others) :
    Finds (lowering >>= next) (found ++ others) := by
  intro state result after ran
  rw [run_bind] at ran
  split at ran
  next value between began =>
    rw [second value between result after ran, first state value between began, List.append_assoc]
  next => cases ran

theorem Finds.cast {lowering : Lower α} {found others : List Diagnostic}
    (finds : Finds lowering found) (same : found = others) : Finds lowering others := same ▸ finds

theorem finds_slot (vars : Variables) (name : Bytes) : Finds (slot vars name) [] := by
  unfold slot
  split
  · exact finds_pure _
  · exact finds_throw _ _

theorem finds_read : Finds read [] := (finds_emit _).bind fun _ => finds_emit _

theorem finds_truth (branch : Opcode) : Finds (truth branch) [] :=
  finds_fresh.bind fun _ => finds_fresh.bind fun _ => (finds_emit _).bind fun _ =>
    (finds_emit _).bind fun _ => (finds_emit _).bind fun _ => (finds_emit _).bind fun _ =>
    (finds_emit _).bind fun _ => finds_emit _

end ClassFile.Lower

open ClassFile ClassFile.Lower

/-- Lowering an expression reports what a walk over it does. -/
theorem Expr.toSteps_finds (vars : Variables) (e : Expr) :
    Finds (e.toSteps vars) (e.undefined vars) := by
  induction e with
  | absent | hollow | unknown => exact finds_throw _ _
  | intLit site text value => exact finds_emit _
  | varRef site name =>
    simp only [Expr.toSteps, Expr.undefined, Expr.walk, List.filterMap_cons, Node.undefined?]
    split
    next known =>
      exact ((finds_slot vars name).bind fun _ => finds_emit _).cast (by simp)
    next unknown =>
      exact ((finds_report _).bind fun _ => finds_emit _).cast (by simp)
  | read site => exact finds_read
  | paren site inner ih => exact ih
  | unary site op operand ih =>
    refine (ih.bind fun _ => ?_).cast (List.append_nil _)
    split
    · exact finds_pure _
    · exact finds_emit _
    · exact finds_truth _
    · exact finds_throw _ _
  | binary site form op left right leftIh rightIh =>
    rw [Expr.undefined_binary]
    have operands : ∀ {last : Lower Unit}, Finds last [] → Finds (do
        left.toSteps vars
        right.toSteps vars
        last) (left.undefined vars ++ right.undefined vars) := fun finds =>
      (leftIh.bind fun _ => rightIh.bind fun _ => finds).cast (by simp)
    cases form with
    | additive | multiplicative =>
      refine operands ?_
      split
      · exact finds_emit _
      · exact finds_throw _ _
    | comparison =>
      refine operands ?_
      split
      · exact finds_truth _
      · exact finds_throw _ _
    | logicalAnd | logicalOr =>
      refine (finds_fresh.bind fun _ => leftIh.bind fun _ => (finds_emit _).bind fun _ =>
        (finds_emit _).bind fun _ => (finds_emit _).bind fun _ => rightIh.bind fun _ =>
        finds_emit _).cast ?_
      simp

private theorem finds_line (lineOf : Option (Span → Nat)) (site : Site) :
    Finds (Stmt.toSteps.emitLine lineOf site) [] := by
  cases lineOf with
  | none => exact finds_pure _
  | some line => exact finds_emit _

private theorem finds_increment (vars : Variables) (step : Expr) :
    Finds (if step.isAbsent then Lower.push 1 else step.toSteps vars) (step.undefined vars) := by
  cases step with
  | absent => exact finds_emit _
  | _ => exact Expr.toSteps_finds vars _

mutual

/-- Lowering a complete statement reports what a walk over it does. -/
theorem Stmt.toSteps_finds {isName : Bytes → Prop} (vars : Variables)
    (lineOf : Option (Span → Nat)) : (s : Stmt) → s.Proper isName →
      Finds (s.toSteps vars lineOf) (s.undefined vars)
  | .absent, proper | .hollow .., proper | .unknown _, proper => proper.elim
  | .assign site name _ value, _ => by
    simp only [Stmt.toSteps]
    refine ((finds_line lineOf site).bind fun _ => (value.toSteps_finds vars).bind fun _ =>
      (finds_slot vars name).bind fun _ => finds_emit _).cast ?_
    simp only [List.nil_append, List.append_nil]
    rfl
  | .read site name _, _ => by
    simp only [Stmt.toSteps]
    exact (finds_line lineOf site).bind fun _ => finds_read.bind fun _ =>
      (finds_slot vars name).bind fun _ => finds_emit _
  | .print site value, _ => by
    simp only [Stmt.toSteps]
    refine ((finds_line lineOf site).bind fun _ => (finds_emit _).bind fun _ =>
      (value.toSteps_finds vars).bind fun _ => finds_emit _).cast ?_
    simp only [List.nil_append, List.append_nil]
    rfl
  | .ifElse site cond thenBody elseBody hasElse, proper => by
    obtain ⟨-, yes, no, only⟩ := proper
    rw [Stmt.undefined_ifElse]
    cases hasElse with
    | true =>
      simp only [Stmt.toSteps]
      refine ((finds_line lineOf site).bind fun _ => finds_fresh.bind fun _ =>
        finds_fresh.bind fun _ => (cond.toSteps_finds vars).bind fun _ => (finds_emit _).bind fun _ =>
        (Stmt.allToSteps_finds vars lineOf thenBody yes).bind fun _ => (finds_emit _).bind fun _ =>
        (finds_emit _).bind fun _ => (Stmt.allToSteps_finds vars lineOf elseBody no).bind fun _ =>
        finds_emit _).cast ?_
      simp
    | false =>
      cases only rfl
      simp only [Stmt.toSteps]
      refine ((finds_line lineOf site).bind fun _ => finds_fresh.bind fun _ =>
        (finds_pure _).bind fun _ => (cond.toSteps_finds vars).bind fun _ => (finds_emit _).bind fun _ =>
        (Stmt.allToSteps_finds vars lineOf thenBody yes).bind fun _ => finds_emit _).cast ?_
      simp [Stmt.allUndefined, Stmt.walkAll]
  | .whileLoop site cond body, proper => by
    rw [Stmt.undefined_whileLoop]
    simp only [Stmt.toSteps]
    refine ((finds_line lineOf site).bind fun _ => finds_fresh.bind fun _ =>
      finds_fresh.bind fun _ => (finds_emit _).bind fun _ => (cond.toSteps_finds vars).bind fun _ =>
      (finds_emit _).bind fun _ => (Stmt.allToSteps_finds vars lineOf body proper.2).bind fun _ =>
      (finds_emit _).bind fun _ => finds_emit _).cast ?_
    simp
  | .forLoop site name _ start stop step body, proper => by
    obtain ⟨-, -, -, -, inside⟩ := proper
    have counted := finds_increment vars step
    rw [Stmt.undefined_forLoop]
    simp only [Stmt.toSteps]
    -- The branch on the step is taken first, so that the rest is one sequence.
    cases absent : step.isAbsent
    all_goals
      simp only [absent, if_true, if_false, Bool.false_eq_true] at counted ⊢
      refine ((finds_line lineOf site).bind fun _ => (finds_slot vars name).bind fun _ =>
        finds_fresh.bind fun _ => finds_fresh.bind fun _ => (start.toSteps_finds vars).bind fun _ =>
        (finds_emit _).bind fun _ => (finds_emit _).bind fun _ =>
        (stop.toSteps_finds vars).bind fun _ => counted.bind fun _ => (finds_emit _).bind fun _ =>
        (finds_emit _).bind fun _ => (finds_emit _).bind fun _ => (finds_emit _).bind fun _ =>
        (finds_emit _).bind fun _ => (finds_emit _).bind fun _ => (finds_emit _).bind fun _ =>
        (Stmt.allToSteps_finds vars lineOf body inside).bind fun _ => (finds_emit _).bind fun _ =>
        (finds_emit _).bind fun _ => (finds_emit _).bind fun _ => (finds_emit _).bind fun _ =>
        (finds_emit _).bind fun _ => (finds_emit _).bind fun _ => (finds_emit _).bind fun _ =>
        (finds_emit _).bind fun _ => finds_emit _).cast ?_
      simp

theorem Stmt.allToSteps_finds {isName : Bytes → Prop} (vars : Variables)
    (lineOf : Option (Span → Nat)) : (body : List Stmt) → Stmt.AllProper isName body →
      Finds (Stmt.allToSteps vars lineOf body) (Stmt.allUndefined vars body)
  | [], _ => finds_pure _
  | s :: rest, proper => by
    rw [Stmt.allUndefined_cons]
    exact (s.toSteps_finds vars lineOf proper.1).bind fun _ =>
      Stmt.allToSteps_finds vars lineOf rest proper.2

end

private theorem finds_zeroes (from_ count : Nat) :
    Finds (forIn (List.range' from_ count) PUnit.unit fun (i : Nat) _ => do
      Lower.push 0
      Lower.emit (.localVar .istore (i + 1))
      pure (ForInStep.yield PUnit.unit)) [] := by
  induction count generalizing from_ with
  | zero => exact finds_pure _
  | succ count ih =>
    rw [List.range'_succ, List.forIn_cons]
    refine ((finds_emit _).bind fun _ => (finds_emit _).bind fun _ => finds_pure _).bind fun next => ?_
    cases next with
    | done => exact finds_pure _
    | yield => exact ih (from_ + 1)

theorem prologue_finds (vars : Variables) : Finds (prologue vars) [] := by
  unfold prologue
  rw [Std.Legacy.Range.forIn_eq_forIn_range']
  refine (finds_emit _).bind fun _ => (finds_emit _).bind fun _ => (finds_emit _).bind fun _ =>
    (finds_emit _).bind fun _ => (finds_emit _).bind fun _ => ?_
  split
  · exact finds_throw _ _
  · exact (finds_zeroes _ _).bind fun _ => finds_pure _

section
variable {isName : Bytes → Prop} {program : Program} {vars : Variables}

/-- A program whose variables have slots is lowered with the reports of the check on its tree. -/
theorem Program.toSteps_undefined (proper : Stmt.AllProper isName program.stmts)
    (known : Stmt.AllAssignOnly (fun name => vars.has name = true) program.stmts)
    (few : vars.size ≤ 65535) (lineOf : Option (Span → Nat)) :
    program.toSteps vars lineOf =
      (.ok (program.code vars lineOf ++ [Step.insn .ret]), program.undefinedReports vars) := by
  obtain ⟨found, -, lowered⟩ := Program.toSteps_reports proper known few lineOf
  have finds : Finds (do
      prologue vars
      Stmt.allToSteps vars lineOf program.stmts
      Lower.insn .ret) (program.undefinedReports vars) :=
    ((prologue_finds vars).bind fun _ =>
      (Stmt.allToSteps_finds vars lineOf program.stmts proper).bind fun _ => finds_emit _).cast
      (List.append_nil _)
  rcases ran : (do
      prologue vars
      Stmt.allToSteps vars lineOf program.stmts
      Lower.insn .ret : Lower Unit).run.run {} with ⟨result, after⟩
  have same : found = after.reports.toList := by
    simp only [Program.toSteps, ran, Prod.mk.injEq] at lowered
    exact lowered.2.symm
  cases result with
  | error fault =>
    simp only [Program.toSteps, ran] at lowered
    cases lowered
  | ok value =>
    rw [lowered, same, finds {} value after ran]
    rfl

/-- Making a class adds at most the report of a limit to those of lowering. -/
theorem Program.toClass_reports (program : Program) (vars : Variables) (options : ClassOptions) :
    ∃ limits : List Diagnostic, (∀ d ∈ limits, d.code = .codeTooLarge) ∧
      (program.toClass vars options).2 = (program.toSteps vars options.lineOf).2 ++ limits := by
  have none_ : ∀ d ∈ ([] : List Diagnostic), d.code = .codeTooLarge := by simp
  simp only [Program.toClass]
  split
  · exact ⟨[], none_, (List.append_nil _).symm⟩
  split
  · exact ⟨[], none_, (List.append_nil _).symm⟩
  split
  · exact ⟨[], none_, (List.append_nil _).symm⟩
  split
  · refine ⟨[_], fun d member => ?_, rfl⟩
    rw [List.mem_singleton.mp member]
    rfl
  · exact ⟨[], none_, (List.append_nil _).symm⟩

end

/-- The check on a tree and both ways of lowering it report the same: the references to names that
never receive a value. -/
structure Program.ReportsAlike (program : Program) (vars : Variables) : Prop where
  dangling : program.undefinedReports vars =
    program.dangling.map fun reference => undefinedReport reference.1.span reference.2
  ir : (program.toIr vars).2 = program.undefinedReports vars
  /-- A limit of the format is reported behind them. -/
  classFile : vars.size ≤ 65535 → ∀ options : ClassOptions, ∃ limits : List Diagnostic,
    (∀ d ∈ limits, d.code = .codeTooLarge) ∧
      (program.toClass vars options).2 = program.undefinedReports vars ++ limits

section
variable {program : Program}

theorem Program.Lowerable.reportsAlike
    (lowerable : program.Lowerable (Variables.ofProgram program)) :
    program.ReportsAlike (Variables.ofProgram program) where
  dangling := program.undefinedReports_dangling
  ir := by rw [Program.toIr_eq _ lowerable.proper]
  classFile few options := by
    obtain ⟨limits, large, reports⟩ := program.toClass_reports (Variables.ofProgram program) options
    rw [Program.toSteps_undefined lowerable.proper lowerable.known few] at reports
    exact ⟨limits, large, reports⟩

/-- Within the limits of the format nothing is reported but undefined variables. -/
theorem Program.Lowerable.toClass_within {vars : Variables} (lowerable : program.Lowerable vars)
    (options : ClassOptions) (within : ¬program.ExceedsLimit vars options.lineOf) :
    ∃ bytes, program.toClass vars options = (.ok bytes, program.undefinedReports vars) := by
  have few : vars.size ≤ 65535 := by
    by_contra many
    exact within (.inl (by omega))
  obtain ⟨found, undefined, ⟨-, bytes, made⟩ | ⟨exceeds, -⟩⟩ := lowerable.toClass_cases few options
  · obtain ⟨limits, large, reports⟩ := program.toClass_reports vars options
    rw [made, Program.toSteps_undefined lowerable.proper lowerable.known few] at reports
    change found = program.undefinedReports vars ++ limits at reports
    have none_ : limits = [] := by
      refine List.eq_nil_iff_forall_not_mem.mpr fun d member => ?_
      obtain ⟨span, name, rfl⟩ := undefined d (reports ▸ List.mem_append_right _ member)
      cases large _ member
    rw [none_, List.append_nil] at reports
    exact ⟨bytes, reports ▸ made⟩
  · exact absurd exceeds within

/-- There is intermediate code for every program, with the reports of the check. -/
theorem Program.Lowerable.emit_ir {vars : Variables} (lowerable : program.Lowerable vars)
    (options : CompileOptions) (file : SourceFile) : program.emit vars options .llvm file =
      (.ok (Ir.render options.dialect (Path.base file.path) (program.irItems vars)),
        program.undefinedReports vars) := by
  simp only [Program.emit, Program.emitAs, Program.toIr_eq _ lowerable.proper]

end

/-- References come in the order of their places. -/
theorem SourceFile.dangling_ascending (file : SourceFile) (options : ParseOptions)
    (short : file.content.length < 2 ^ 32) :
    (Program.parse options file.tokens).program.dangling.Pairwise
      fun a b => a.1.span.start < b.1.span.start := by
  obtain ⟨after, -, laid⟩ := file.parse_laid options
  refine List.Pairwise.filter _ (List.pairwise_filterMap.mpr ((laid.ordered short).imp ?_))
  intro a b before first found second other
  have named : ∀ {node : Node} {reference : Site × Bytes}, node.reference? = some reference →
      node.IsName ∧ node.place = reference.1.span.start.toNat := by
    intro node reference refers
    unfold Node.reference? at refers
    split at refers
    · cases refers
      exact ⟨trivial, rfl⟩
    · cases refers
  rw [UInt32.lt_iff_toNat_lt, ← (named found).2, ← (named other).2]
  exact before.2 (named found).1

/-- Diagnosing a file that parses reports undefined variables; otherwise it reports what is wrong
with the text. -/
theorem diagnose_outcome (sources : SourceSet) {file : SourceFile} {limit : Int}
    (nonnegative : 0 ≤ limit) {program : Program} {filter : DistinctBag}
    (parsed : parseInto limit file = (program, filter)) :
    ∃ found, (diagnose sources file limit).outcome = .ok found ∧
      found.bag = (if filter.bag.hasErrors then filter.bag
        else (filter.addAll (program.undefinedReports (Variables.ofProgram program))).bag).sort := by
  simp only [diagnose, if_neg (Int.not_lt.mpr nonnegative), parsed]
  refine ⟨_, rfl, ?_⟩
  split <;> rfl

/-- Diagnosing and compiling fill their bags alike, unless a limit of the class format is
exceeded. -/
theorem compile_bag (sources : SourceSet) (file : SourceFile) (options : CompileOptions)
    (nonnegative : 0 ≤ options.maxDiagnostics) {parsed : Parsed}
    (made : parsed = Program.parse { maxErrors := options.maxDiagnostics.toNat } file.tokens)
    (fits : options.target = some .llvm ∨ options.target = some .jvm ∧
      ¬(parsed.reports = [] ∧ parsed.program.ExceedsLimit (Variables.ofProgram parsed.program)
        (options.classOptions file).lineOf)) :
    ∃ result found, (compile sources file options false).outcome = .ok result ∧
      (diagnose sources file options.maxDiagnostics).outcome = .ok found ∧
      result.bag = found.bag := by
  have into : parseInto options.maxDiagnostics file = (parsed.program,
    (DistinctBag.ofLimit options.maxDiagnostics).addAll parsed.reports) := by rw [made]; rfl
  have lowerable : parsed.program.Lowerable (Variables.ofProgram parsed.program) :=
    made ▸ Program.parse_lowerable _ file.tokens
  obtain ⟨found, diagnosed, bag⟩ := diagnose_outcome sources nonnegative into
  have errors := DistinctBag.hasErrors_iff options.maxDiagnostics fun d member =>
    (file.parse_reports { maxErrors := options.maxDiagnostics.toNat } (made ▸ member)).1
  by_cases clean : parsed.reports = []
  · have none_ : ((DistinctBag.ofLimit options.maxDiagnostics).addAll parsed.reports).bag.hasErrors =
        false := Bool.eq_false_iff.mpr fun wrong => errors.mp wrong clean
    -- Whatever the target, the code comes with the reports of the check.
    obtain ⟨target, code, chosen, emitted⟩ : ∃ target code, options.target = some target ∧
        parsed.program.emit (Variables.ofProgram parsed.program) options target file =
          (.ok code, parsed.program.undefinedReports (Variables.ofProgram parsed.program)) := by
      rcases fits with llvm | ⟨jvm, fits⟩
      · exact ⟨.llvm, _, llvm, lowerable.emit_ir options file⟩
      · obtain ⟨bytes, within⟩ := lowerable.toClass_within (options.classOptions file)
          fun exceeds => fits ⟨clean, exceeds⟩
        exact ⟨.jvm, bytes, jvm, Program.emit_class within⟩
    refine ⟨_, found, compile_generated sources chosen nonnegative into none_ emitted, diagnosed, ?_⟩
    rw [bag, none_]
    rfl
  · have some_ := errors.mpr clean
    obtain ⟨target, chosen⟩ : ∃ target, options.target = some target := by
      rcases fits with llvm | ⟨jvm, -⟩
      · exact ⟨_, llvm⟩
      · exact ⟨_, jvm⟩
    refine ⟨_, found, compile_refused sources chosen nonnegative into some_, diagnosed, ?_⟩
    rw [bag, some_]
    rfl

/-- Three checks for undefined variables agree on every file, with any number of errors allowed, so
that diagnosing and compiling it keep and drop the same. -/
theorem SourceFile.undefined_checks_agree (file : SourceFile) :
    (∀ options : ParseOptions,
      let program := (Program.parse options file.tokens).program
      program.ReportsAlike (Variables.ofProgram program) ∧
        (file.content.length < 2 ^ 32 →
          program.dangling.Pairwise fun a b => a.1.span.start < b.1.span.start)) ∧
    ∀ (sources : SourceSet) (options : CompileOptions), 0 ≤ options.maxDiagnostics →
      let parsed := Program.parse { maxErrors := options.maxDiagnostics.toNat } file.tokens
      options.target = some .llvm ∨ options.target = some .jvm ∧
        ¬(parsed.reports = [] ∧ parsed.program.ExceedsLimit (Variables.ofProgram parsed.program)
          (options.classOptions file).lineOf) →
      ∃ result found, (compile sources file options false).outcome = .ok result ∧
        (diagnose sources file options.maxDiagnostics).outcome = .ok found ∧
        result.bag.items = found.bag.items ∧ result.bag.dropped = found.bag.dropped := by
  refine ⟨fun options => ?_, fun sources options nonnegative => ?_⟩
  · exact ⟨(Program.parse_lowerable options file.tokens).reportsAlike, file.dangling_ascending options⟩
  · intro parsed fits
    obtain ⟨result, found, compiled, diagnosed, same⟩ :=
      compile_bag sources file options nonnegative rfl fits
    exact ⟨result, found, compiled, diagnosed, congrArg _ same, congrArg _ same⟩

end Minilang
