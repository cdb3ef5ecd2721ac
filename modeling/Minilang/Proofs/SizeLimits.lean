import Minilang.FaultKind
import Minilang.Proofs.FileTokens
import Minilang.Proofs.IrLowering
import Minilang.Proofs.ParserRuns
import Minilang.Proofs.StackDepths

/-! Compiling to a class with the format's limits in the way. Lowering a program either keeps
within the limits or ends in a report of its own, except that a program with more variables than
there are slots is not lowered at all. -/

namespace Minilang

namespace DistinctBag

theorem mem_items_addAll {filter : DistinctBag} {reports : List Diagnostic} {d : Diagnostic}
    (member : d ∈ (filter.addAll reports).bag.items) : d ∈ filter.bag.items ∨ d ∈ reports := by
  induction reports generalizing filter with
  | nil => exact .inl member
  | cons report rest ih =>
    have later : d ∈ ((filter.add report).addAll rest).bag.items := member
    rcases ih later with old | more
    · rw [DistinctBag.add] at old
      split at old
      · exact .inl old
      · rw [Bag.add] at old
        split at old
        · exact .inl old
        · rcases Array.mem_push.mp old with known | rfl
          · exact .inl known
          · exact .inr List.mem_cons_self
    · exact .inr (List.mem_cons_of_mem _ more)

theorem hasErrors_addAll {filter : DistinctBag} (errors : filter.bag.hasErrors = true)
    (reports : List Diagnostic) : (filter.addAll reports).bag.hasErrors = true := by
  induction reports generalizing filter with
  | nil => exact errors
  | cons report rest ih =>
    refine ih ?_
    rw [DistinctBag.add]
    split
    · exact errors
    · rw [Bag.add]
      split <;> simp only [Bag.hasErrors, Bool.or_eq_true, decide_eq_true_eq, Array.any_push] at errors ⊢
      · exact .inl (Nat.succ_pos _)
      · exact errors.imp_right .inl

theorem seen_addAll {filter : DistinctBag} {reports : List Diagnostic} {key : Diagnostic.Key}
    (known : (filter.addAll reports).seen.contains key = true) :
    filter.seen.contains key = true ∨ ∃ d ∈ reports, d.key = key := by
  induction reports generalizing filter with
  | nil => exact .inl known
  | cons report rest ih =>
    have later : ((filter.add report).addAll rest).seen.contains key = true := known
    rcases ih later with old | ⟨d, member, same⟩
    · rw [DistinctBag.add] at old
      split at old
      · exact .inl old
      · simp only [Std.HashSet.contains_insert, Bool.or_eq_true, beq_iff_eq] at old
        exact old.elim (fun same => .inr ⟨report, List.mem_cons_self, same⟩) .inl
    · exact .inr ⟨d, List.mem_cons_of_mem _ member, same⟩

end DistinctBag

namespace Bag

/-- A report came in: it was kept, or the bag was full and counted it. -/
def Took (bag : Bag) (d : Diagnostic) : Prop :=
  d ∈ bag.items ∨ bag.isFull = true ∧ 0 < bag.dropped

theorem took_add (bag : Bag) (d : Diagnostic) : (bag.add d).Took d := by
  rw [Bag.add]
  split
  next full => exact .inr ⟨full, Nat.succ_pos _⟩
  next => exact .inl (Array.mem_push_self)

theorem hasErrors_iff (bag : Bag) :
    bag.hasErrors = true ↔ 0 < bag.dropped ∨ ∃ d ∈ bag.items, d.severity.isBlocking = true := by
  simp only [Bag.hasErrors, Bool.or_eq_true, decide_eq_true_eq, Array.any_eq_true']

theorem Took.hasErrors {bag : Bag} {d : Diagnostic} (took : bag.Took d)
    (blocks : d.severity.isBlocking = true) : bag.hasErrors = true :=
  bag.hasErrors_iff.mpr (took.elim (fun kept => .inr ⟨d, kept, blocks⟩) fun full => .inl full.2)

@[simp] theorem mem_items_sort (bag : Bag) (d : Diagnostic) : d ∈ bag.sort.items ↔ d ∈ bag.items := by
  simp [Bag.sort]

@[simp] theorem hasErrors_sort (bag : Bag) : bag.sort.hasErrors = bag.hasErrors := by
  rw [Bool.eq_iff_iff, hasErrors_iff, hasErrors_iff]
  simp only [mem_items_sort]
  rfl

theorem Took.sort {bag : Bag} {d : Diagnostic} (took : bag.Took d) : bag.sort.Took d := by
  refine took.imp (bag.mem_items_sort d).mpr fun full => ⟨?_, full.2⟩
  simpa [Bag.isFull, Bag.sort] using full.1

end Bag

theorem DistinctBag.hasErrors_iff (limit : Int) {reports : List Diagnostic}
    (errors : ∀ d ∈ reports, d.severity = .error) :
    ((DistinctBag.ofLimit limit).addAll reports).bag.hasErrors = true ↔ reports ≠ [] := by
  cases reports with
  | nil => simp [DistinctBag.addAll, DistinctBag.ofLimit, Bag.ofLimit, Bag.hasErrors]
  | cons report rest =>
    refine iff_of_true (DistinctBag.hasErrors_addAll ?_ rest) (List.cons_ne_nil _ _)
    have blocks : report.severity.isBlocking = true := by
      rw [errors report List.mem_cons_self]
      rfl
    have fresh : (DistinctBag.ofLimit limit).seen.contains report.key = false :=
      Std.HashSet.contains_empty
    rw [DistinctBag.add, fresh]
    exact (Bag.took_add _ report).hasErrors blocks

namespace ClassFile

theorem mem_jumpsFrom {pool : Pool} {steps : List Step} {offset : Nat} {jump : Jump}
    (member : jump ∈ jumpsFrom pool offset steps) : ∃ op, Step.jump op jump.label ∈ steps := by
  induction steps generalizing offset with
  | nil => cases member
  | cons s rest ih =>
    rcases List.mem_append.mp member with here | later
    · cases s with
      | jump op label =>
        obtain rfl : jump = ⟨label, offset⟩ := List.mem_singleton.mp here
        exact ⟨op, List.mem_cons_self⟩
      | insn | push | localVar | mark | classOperand | fieldOperand | methodOperand | line | nops =>
        cases here
    · obtain ⟨op, inside⟩ := ih later
      exact ⟨op, List.mem_cons_of_mem _ inside⟩

end ClassFile

open ClassFile

/-- A limit of the format that a program exceeds: the slots of its variables, the size of its
code, the distance of a branch, or the room in the pool. -/
def Program.ExceedsLimit (program : Program) (vars : Variables) (lineOf : Option (Span → Nat)) :
    Prop :=
  65535 < vars.size + 1 ∨ ∃ steps main pool, (program.toSteps vars lineOf).1 = .ok steps ∧
    mainStart.steps {} steps = .ok (main, pool) ∧
    (65535 < main.code.size ∨ ¬ main.Near ∨ pool.overflowed = true)

section
variable {program : Program} {vars : Variables} {lineOf : Option (Span → Nat)}

/-- Assembled code is finished, or exceeds a limit that has a message. -/
theorem Program.Lowerable.resolve_cases (lowerable : program.Lowerable vars) {main : Method}
    {pool : Pool}
    (steps : mainStart.steps {} (program.code vars lineOf ++ [Step.insn .ret]) = .ok (main, pool)) :
    ((∃ code, main.resolve = .ok code) ∧ main.code.size ≤ 65535 ∧ main.Near) ∨
    ((∃ fault, main.resolve = .error fault ∧ ∀ label, (WriteFault.resolve label fault).limit? ≠ none) ∧
      ¬ (main.code.size ≤ 65535 ∧ main.Near)) := by
  by_cases short : main.code.size ≤ 65535
  · have assembled := lowerable.assembled steps short
    have bound : ∀ jump ∈ main.jumps.toList, main.labels[jump.label]? ≠ none := by
      intro jump member unbound
      rw [assembled.did.jumps] at member
      obtain ⟨op, inside⟩ := mem_jumpsFrom ((List.mem_append.mp member).resolve_left List.not_mem_nil)
      obtain ⟨first, rest, split⟩ := (Program.labelled lowerable.sound lineOf lowerable.proper
        lowerable.known).marked inside
      rw [assembled.did.marks first jump.label rest split] at unbound
      cases unbound
    rw [Method.resolve, if_neg (by omega)]
    rcases Method.patch_cases main.labels main.jumps.toList main.code with
      ⟨⟨done, patched⟩, near⟩ | ⟨jump, member, unbound⟩ | ⟨jump, member, patched, place, found, far⟩
    · refine .inl ⟨⟨done.toList, by rw [patched]; rfl⟩, short, fun jump member => ?_⟩
      exact near jump (Array.mem_toList_iff.mpr member)
    · exact absurd unbound (bound jump member)
    · refine .inr ⟨⟨.tooFar jump.offset, by rw [patched]; rfl, by simp [WriteFault.limit?]⟩, ?_⟩
      exact fun fits => far (fits.2 jump (Array.mem_toList_iff.mp member) place found)
  · refine .inr ⟨⟨.tooLarge main.code.size, ?_, by simp [WriteFault.limit?]⟩, fun fits => short fits.1⟩
    rw [Method.resolve, if_pos (by omega)]

/-- The size of the code and its branches decide whether a limit is exceeded: variables and
constants take up code. -/
theorem Program.Lowerable.exceedsLimit_iff (lowerable : program.Lowerable vars)
    (few : vars.size ≤ 65535) {main : Method} {pool : Pool}
    (steps : mainStart.steps {} (program.code vars lineOf ++ [Step.insn .ret]) = .ok (main, pool)) :
    program.ExceedsLimit vars lineOf ↔ ¬ (main.code.size ≤ 65535 ∧ main.Near) := by
  have lowered := Program.toSteps_eq lowerable.proper lowerable.known few lineOf
  constructor
  · rintro exceeds ⟨short, near⟩
    have assembled := lowerable.assembled steps short
    obtain ⟨wide, -, slots⟩ := assembled.room lowerable few
    rcases exceeds with many | ⟨steps', main', pool', lowered', steps'', large⟩
    · omega
    · obtain rfl : _ = steps' := Except.ok.inj (lowered.symm.trans lowered')
      obtain ⟨rfl, rfl⟩ : main = main' ∧ pool = pool' := by
        simpa using Except.ok.inj (steps.symm.trans steps'')
      rcases large with large | far | full
      · omega
      · exact far near
      · rw [assembled.fits] at full
        cases full
  · intro exceeds
    refine .inr ⟨_, main, pool, lowered, steps, ?_⟩
    by_cases short : main.code.size ≤ 65535
    · exact .inr (.inl fun near => exceeds ⟨short, near⟩)
    · exact .inl (by omega)

/-- Short programs keep within the limits: a step takes four bytes at most. -/
theorem Program.Lowerable.within_limits (lowerable : program.Lowerable vars)
    (few : vars.size ≤ 65535) (short : (program.code vars lineOf).length ≤ 8190) :
    ¬ program.ExceedsLimit vars lineOf := by
  obtain ⟨main, pool, steps⟩ := lowerable.assembles few lineOf
  have labelled := Program.labelled lowerable.sound lineOf lowerable.proper lowerable.known
  have size := Method.steps_size labelled.generated steps
  have start : mainStart.code.size = 0 := rfl
  rw [List.length_append, List.length_singleton, start] at size
  have inside : mainStart.Inside :=
    ⟨fun label place found => by simp [mainStart, Method.make] at found,
      fun jump member => by simp [mainStart, Method.make] at member⟩
  rw [lowerable.exceedsLimit_iff few steps, not_not]
  exact ⟨by omega, (Method.steps_inside inside steps).near (by omega)⟩

/-- A program whose variables have slots has a class file, or a report of the limit that it
exceeds. -/
theorem Program.Lowerable.toClass_cases (lowerable : program.Lowerable vars)
    (few : vars.size ≤ 65535) (options : ClassOptions) :
    ∃ found : List Diagnostic, (∀ d ∈ found, ∃ span name, d = undefinedReport span name) ∧
      ((¬ program.ExceedsLimit vars options.lineOf ∧
          ∃ bytes, program.toClass vars options = (.ok bytes, found)) ∨
        (program.ExceedsLimit vars options.lineOf ∧ ∃ fault message,
          program.toClass vars options = (.error (.write options.name fault),
            found ++ [Diagnostic.error .codeTooLarge program.span message]))) := by
  obtain ⟨found, undefined, lowered⟩ :=
    Program.toSteps_reports lowerable.proper lowerable.known few options.lineOf
  obtain ⟨main, pool, steps⟩ := lowerable.assembles few options.lineOf
  have exceeds := lowerable.exceedsLimit_iff few steps
  have made : (Method.make 0x9 "main" mainDescriptor [mainArgument]).steps {}
      (program.code vars options.lineOf ++ [Step.insn .ret]) = .ok (main, pool) := steps
  refine ⟨found, undefined, ?_⟩
  rcases lowerable.resolve_cases steps with ⟨⟨code, resolved⟩, fits⟩ | ⟨⟨fault, stops, limit⟩, large⟩
  · obtain ⟨analysis, written⟩ := lowerable.written steps few resolved
      (rfl : (Program.draft main pool options).pool = pool) rfl
    obtain ⟨bytes, wrote⟩ : ∃ bytes, Draft.bytes
        { name := options.name, sourceFile := options.sourceFile, pool, methods := #[main] } =
        .ok bytes := ⟨_, written.bytes⟩
    refine .inl ⟨fun exceeded => exceeds.mp exceeded fits, bytes, ?_⟩
    simp only [Program.toClass, lowered, made, wrote]
  · have refused : Draft.bytes
        { name := options.name, sourceFile := options.sourceFile, pool, methods := #[main] } =
        .error (.resolve main.label fault) := by
      simp only [Draft.bytes, Method.finishAll, Method.finish, stops]
      rfl
    refine .inr ⟨exceeds.mpr large, .resolve main.label fault,
      (WriteFault.resolve main.label fault).message, ?_⟩
    simp only [Program.toClass, lowered, made, refused,
      if_pos (Option.isSome_iff_ne_none.mpr (limit main.label))]

end

/-- The report of a limit is not known to a filter that has seen undefined variables only. -/
private theorem codeTooLarge_fresh {limit : Int} {found : List Diagnostic} {d : Diagnostic}
    (undefined : ∀ d ∈ found, ∃ span name, d = undefinedReport span name)
    (code : d.code = .codeTooLarge) :
    ((DistinctBag.ofLimit limit).addAll found).seen.contains d.key = false := by
  rw [Bool.eq_false_iff]
  intro known
  rcases DistinctBag.seen_addAll known with empty | ⟨other, member, same⟩
  · rw [DistinctBag.ofLimit, Std.HashSet.contains_empty] at empty
    cases empty
  · obtain ⟨span, name, rfl⟩ := undefined other member
    have codes : Code.undefinedVariable = d.code := congrArg Diagnostic.Key.code same
    rw [code] at codes
    exact absurd codes (by decide)

def CompileOptions.classOptions (options : CompileOptions) (file : SourceFile) : ClassOptions :=
  { className := options.className, sourceFile := Path.base file.path
    lineOf := some fun span => (file.position span.start).line.toNat }

section
variable {program : Program} {vars : Variables} {options : CompileOptions} {file : SourceFile}
  {reports : List Diagnostic}

theorem Program.emit_class {bytes : Bytes}
    (made : program.toClass vars (options.classOptions file) = (.ok bytes, reports)) :
    program.emit vars options .jvm file = (.ok bytes, reports) := by
  rw [CompileOptions.classOptions] at made
  simp only [Program.emit, Program.emitAs, made]

theorem Program.emit_refused {name : Bytes} {fault : WriteFault}
    (made : program.toClass vars (options.classOptions file) = (.error (.write name fault), reports)) :
    program.emit vars options .jvm file = (.error (.emit (.write name fault)), reports) := by
  rw [CompileOptions.classOptions] at made
  simp only [Program.emit, Program.emitAs, made]

theorem Program.emit_many (many : 65535 < vars.size) :
    (program.emit vars options .jvm file).1 = .error (.lowering .jvm (.slotRange 65536)) := by
  have lowered := program.toSteps_many many (options.classOptions file).lineOf
  rcases outcome : program.toSteps vars (options.classOptions file).lineOf with ⟨steps, found⟩
  rw [outcome] at lowered
  have made : program.toClass vars (options.classOptions file) =
      (.error (.lowering (.slotRange 65536)), found) := by
    simp only at lowered
    subst lowered
    simp only [Program.toClass, outcome]
  rw [CompileOptions.classOptions] at made
  simp only [Program.emit, Program.emitAs, made]

end

section
variable (sources : SourceSet) {file : SourceFile} {options : CompileOptions} {target : Target}
  {program : Program} {filter : DistinctBag}
  (chosen : options.target = some target) (nonnegative : 0 ≤ options.maxDiagnostics)
  (parsed : parseInto options.maxDiagnostics file = (program, filter))
include chosen nonnegative parsed

theorem compile_refused (errors : filter.bag.hasErrors = true) :
    (compile sources file options false).outcome =
      .ok { sources, file, bag := filter.bag.sort, target := some target, phases := [.parse] } := by
  simp only [compile, chosen, if_neg (Int.not_lt.mpr nonnegative), parsed, errors, if_true]

section
variable (clean : filter.bag.hasErrors = false) {reports : List Diagnostic}
include clean

theorem compile_generated {code : Bytes}
    (emitted : program.emit (Variables.ofProgram program) options target file = (.ok code, reports)) :
    (compile sources file options false).outcome =
      .ok { sources, file, bag := (filter.addAll reports).bag.sort, target := some target
            vars := some (Variables.ofProgram program)
            code := if (filter.addAll reports).bag.hasErrors then none else some code
            phases := [.parse, .prepass, .codegen] } := by
  simp only [compile, chosen, if_neg (Int.not_lt.mpr nonnegative), parsed, clean, Bool.false_eq_true,
    if_false, emitted, Except.toOption]

theorem compile_reported {fault : EmitFault}
    (emitted : program.emit (Variables.ofProgram program) options target file =
      (.error (.emit fault), reports))
    (errors : (filter.addAll reports).bag.hasErrors = true) :
    (compile sources file options false).outcome =
      .ok { sources, file, bag := (filter.addAll reports).bag.sort, target := some target
            vars := some (Variables.ofProgram program), phases := [.parse, .prepass, .codegen] } := by
  simp only [compile, chosen, if_neg (Int.not_lt.mpr nonnegative), parsed, clean, Bool.false_eq_true,
    if_false, emitted, errors, if_true]

theorem compile_broken {lowered : Target} {fault : LoweringFault}
    (emitted : (program.emit (Variables.ofProgram program) options target file).1 =
      .error (.lowering lowered fault)) :
    (compile sources file options false).outcome = .error (.lowering lowered fault) := by
  simp only [compile, chosen, if_neg (Int.not_lt.mpr nonnegative), parsed, clean, Bool.false_eq_true,
    if_false, emitted]

end

end

theorem SourceFile.parse_reports (file : SourceFile) (options : ParseOptions) {d : Diagnostic}
    (member : d ∈ (Program.parse options file.tokens).reports) :
    d.severity = .error ∧ (d.code ∈ Code.lexicalErrors ∨ d.code ∈ Code.syntaxErrors) := by
  rcases Program.parse_reports options file.tokens member with ⟨severity, code⟩ | ⟨token, inside, complains⟩
  · rcases List.mem_cons.mp code with number | code
    · exact ⟨severity, .inl (number ▸ by decide)⟩
    · exact ⟨severity, .inr code⟩
  · obtain ⟨severity, code⟩ := (file.tokens_whole.faithful token inside).reports complains
    exact ⟨severity, .inl code⟩

/-- A file without lexical and syntax errors that is to become a class and has more variables than
there are slots. -/
def SourceFile.Overflows (file : SourceFile) (options : CompileOptions) : Prop :=
  let parsed := Program.parse { maxErrors := options.maxDiagnostics.toNat } file.tokens
  options.target = some .jvm ∧ parsed.reports = [] ∧
    65535 < (Variables.ofProgram parsed.program).size

theorem ClassFile.WriteFault.not_isPanic (name : Bytes) (fault : WriteFault) :
    (CompileFault.emit (.write name fault)).isPanic = false := by
  have kind : fault.kind ≠ .misuse ∧ fault.kind ≠ .brokenTree := by
    unfold WriteFault.kind
    split
    · unfold AnalysisFault.kind
      split <;> exact ⟨nofun, nofun⟩
    · exact ⟨nofun, nofun⟩
    · exact ⟨nofun, nofun⟩
  simp [CompileFault.isPanic, CompileFault.kind, EmitFault.kind, kind]

theorem Program.Lowerable.emit_panics {program : Program} {vars : Variables}
    (lowerable : program.Lowerable vars) {options : CompileOptions} {target : Target}
    {file : SourceFile} {fault : CompileFault}
    (stops : (program.emit vars options target file).1 = .error fault)
    (panics : fault.isPanic = true) :
    target = .jvm ∧ 65535 < vars.size ∧ fault = .lowering .jvm (.slotRange 65536) := by
  cases target with
  | llvm =>
    simp only [Program.emit, Program.emitAs, Program.toIr_eq _ lowerable.proper] at stops
    cases stops
  | jvm =>
    refine ⟨rfl, ?_⟩
    by_cases many : 65535 < vars.size
    · rw [Program.emit_many many] at stops
      exact ⟨many, (Except.error.inj stops).symm⟩
    obtain ⟨found, -, ⟨-, bytes, made⟩ | ⟨-, written, message, made⟩⟩ :=
      lowerable.toClass_cases (Nat.not_lt.mp many) (options.classOptions file)
    · rw [Program.emit_class made] at stops
      cases stops
    · rw [Program.emit_refused made] at stops
      cases stops
      rw [written.not_isPanic] at panics
      cases panics

theorem compile_panics {sources : SourceSet} {file : SourceFile} {options : CompileOptions}
    {cancelled : Bool} {fault : CompileFault}
    (stops : (compile sources file options cancelled).outcome = .error fault)
    (panics : fault.isPanic = true) :
    file.Overflows options ∧ fault = .lowering .jvm (.slotRange 65536) := by
  have plain : fault ≠ .unsupportedTarget ∧ fault ≠ .negativeLimit ∧ fault ≠ .cancelled := by
    refine ⟨?_, ?_, ?_⟩ <;> rintro rfl <;> cases panics
  have lowerable := Program.parse_lowerable { maxErrors := options.maxDiagnostics.toNat } file.tokens
  have front := fun d => file.parse_reports { maxErrors := options.maxDiagnostics.toNat } (d := d)
  have errors := DistinctBag.hasErrors_iff options.maxDiagnostics fun d member => (front d member).1
  unfold compile at stops
  split at stops
  · cases stops
    exact absurd rfl plain.1
  next target chosen =>
    split at stops
    · cases stops
      exact absurd rfl plain.2.1
    dsimp only [parseInto] at stops
    split at stops
    · cases stops
    next clean =>
      split at stops
      · cases stops
        exact absurd rfl plain.2.2
      have quiet := not_not.mp (mt errors.mpr clean)
      split at stops
      next emitted =>
        cases stops
        obtain ⟨rfl, many, same⟩ := lowerable.emit_panics emitted panics
        exact ⟨⟨chosen, quiet, many⟩, same⟩
      next emitted _ =>
        cases stops
        obtain ⟨rfl, many, same⟩ := lowerable.emit_panics emitted panics
        exact ⟨⟨chosen, quiet, many⟩, same⟩
      next => cases stops

/-- What may be reported of a program that keeps within the limits of the format. -/
def Diagnostic.IsPlain (d : Diagnostic) : Prop :=
  d.severity = .error ∧ (d.code ∈ Code.lexicalErrors ∨ d.code ∈ Code.syntaxErrors ∨
    d.code = .undefinedVariable)

theorem undefinedReport_plain (span : Span) (name : Bytes) : (undefinedReport span name).IsPlain :=
  ⟨rfl, .inr (.inr rfl)⟩

end Minilang
