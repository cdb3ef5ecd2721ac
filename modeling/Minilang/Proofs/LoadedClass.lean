import Minilang.Proofs.DraftRoundTrip
import Minilang.Proofs.StackDepths

/-! The class file of a program is loaded with the code of the program. Its numbers fit into the
format: lines have offsets of their own, and there is a branch for every frame. -/

namespace Minilang

namespace ClassFile

/-- Lines that can be stored, of which no more were recorded than there are offsets. -/
structure Method.Lined (method : Method) : Prop where
  storable : ∀ entry ∈ method.lines.toList, entry.Storable
  few : ∀ entry, method.lines.back? = some entry →
    method.lines.size ≤ entry.pc + 1 ∧ entry.pc ≤ method.code.size

theorem Method.Lined.addLine {method : Method} (lined : method.Lined) (number : Int) :
    (method.addLine number).Lined := by
  refine ⟨addLine_lines lined.storable number, ?_⟩
  unfold Method.addLine
  split
  · exact lined.few
  · dsimp only
    split
    · exact lined.few
    · split
      next same =>
        obtain ⟨last, ends, there⟩ := Option.map_eq_some_iff.mp same
        have few := (lined.few last ends).1
        have some_ : 0 < method.lines.size := by
          by_contra none
          have empty : method.lines = #[] := Array.eq_empty_of_size_eq_zero (by omega)
          rw [empty] at ends
          cases ends
        intro entry found
        rw [Array.back?_push, Option.some.injEq] at found
        subst found
        rw [Array.size_push, Array.size_pop]
        dsimp only [offset] at there ⊢
        omega
      next differ =>
        intro entry found
        rw [Array.back?_push, Option.some.injEq] at found
        subst found
        rw [Array.size_push]
        refine ⟨?_, Nat.le_refl _⟩
        cases ends : method.lines.back? with
        | none =>
          rw [Array.back?_eq_none_iff] at ends
          simp [ends]
        | some last =>
          obtain ⟨few, low⟩ := lined.few last ends
          rw [ends, Option.map_some, Option.some.injEq] at differ
          dsimp only [offset] at differ ⊢
          omega

theorem Method.step_longer {method after : Method} {pool next : Pool} {s : Step}
    (stepped : method.step pool s = .ok (after, next)) :
    after.offset = method.offset + (s.bytes pool).length := by
  rw [Method.offset, Method.offset, ← Array.length_toList, ← Array.length_toList,
    (step_did stepped).2.code, List.length_append]

theorem Method.steps_lined {steps : List Step} {method after : Method} {pool next : Pool}
    (lined : method.Lined) (assembled : method.steps pool steps = .ok (after, next)) :
    after.Lined := by
  induction steps generalizing method pool with
  | nil =>
    cases assembled
    exact lined
  | cons s rest ih =>
    simp only [Method.steps] at assembled
    split at assembled
    · cases assembled
    next middle grown stepped =>
      refine ih ?_ assembled
      rcases step_lines stepped with ⟨-, same, -⟩ | ⟨number, -, rfl⟩
      · have longer := step_longer stepped
        dsimp only [offset] at longer
        refine ⟨same ▸ lined.storable, fun entry found => ?_⟩
        rw [same] at found ⊢
        obtain ⟨few, low⟩ := lined.few entry found
        exact ⟨few, by omega⟩
      · exact lined.addLine number

/-- Lines stand before an instruction, so that code that ends with one has an offset for each. -/
theorem Method.steps_lines_le {main : List Step} {op : Opcode} {method after : Method}
    {pool next : Pool} (lined : method.Lined)
    (assembled : method.steps pool (main ++ [.insn op]) = .ok (after, next)) :
    (∀ entry ∈ after.lines.toList, entry.Storable) ∧ after.lines.size ≤ after.code.size := by
  rw [Method.steps_append] at assembled
  cases front : method.steps pool main with
  | error fault =>
    rw [front] at assembled
    cases assembled
  | ok result =>
    obtain ⟨middle, grown⟩ := result
    rw [front] at assembled
    cases assembled
    have before := steps_lined lined front
    refine ⟨before.storable, ?_⟩
    have longer : (middle.emit [op.byte]).code.size = middle.code.size + 1 := by simp [emit]
    show middle.lines.size ≤ (middle.emit [op.byte]).code.size
    rw [longer]
    cases ends : middle.lines.back? with
    | none =>
      rw [Array.back?_eq_none_iff] at ends
      simp [ends]
    | some last =>
      have few := before.few last ends
      omega

/-- Only the instructions of jumps have targets. -/
theorem Decoded.targets_le {pool : Pool} {target : Nat → Option Nat} {offset : Nat}
    {steps : List Step} {insns : List Insn} (decoded : Decoded pool target offset steps insns)
    (usual : ∀ s ∈ steps, s.Usual) :
    (insns.filterMap fun insn => insn.action.target?).length ≤ steps.countP Step.isJump := by
  induction decoded with
  | nil => exact Nat.le_refl 0
  | silent size bytes rest ih =>
    rw [List.countP_cons]
    exact Nat.le_add_right_of_le (ih (List.forall_mem_cons.mp usual).2)
  | @insn offset s steps insn insns size start length means rest ih =>
    obtain ⟨here, later⟩ := List.forall_mem_cons.mp usual
    have more := ih later
    rw [List.countP_cons, List.filterMap_cons]
    cases aims : insn.action.target? with
    | none => exact Nat.le_add_right_of_le more
    | some aim =>
      obtain ⟨op, label, place, rfl, -, -⟩ := means.target here aims
      simpa [Step.isJump] using more

/-- There is a branch for every frame. -/
theorem analyze_frames_le {code : Bytes} {pool : Pool} {init : List VType} {slots : Nat}
    {analysis : Analysis} (analyzed : analyze code pool init slots = .ok analysis) :
    analysis.frames.length ≤
      (analysis.body.insns.toList.filterMap fun insn => insn.action.target?).length := by
  have distinct : (analysis.frames.map Frame.offset).Nodup :=
    (analyze_frames_ascending analyzed).1.imp fun less => Nat.ne_of_lt less
  have among : analysis.frames.map Frame.offset ⊆
      (analysis.body.insns.toList.filterMap fun insn => insn.action.target?).map Int.toNat := by
    intro offset member
    obtain ⟨frame, inside, rfl⟩ := List.mem_map.mp member
    obtain ⟨place, target, made⟩ := List.mem_filterMap.mp inside
    obtain ⟨insn, present, aim, aims, same⟩ := Body.mem_targets target
    have here : frame.offset = place := by
      obtain ⟨i, -, rest⟩ := Option.bind_eq_some_iff.mp made
      obtain ⟨types, -, last⟩ := Option.bind_eq_some_iff.mp rest
      cases last
      rfl
    rw [here, ← same]
    exact List.mem_map_of_mem (List.mem_filterMap.mpr ⟨insn, present, aims⟩)
  have fewer := (List.subperm_of_subset distinct among).length_le
  simpa using fewer

theorem Frame.width_le (frame : Frame) :
    frame.width ≤ 7 + 3 * (frame.locals.length + frame.stack.length) := by
  have each : ∀ list : List VType, (list.map VType.width).sum ≤ 3 * list.length := by
    intro list
    induction list with
    | nil => exact Nat.le_refl 0
    | cons type rest ih =>
      have small : type.width ≤ 3 := by cases type <;> simp [VType.width]
      rw [List.map_cons, List.sum_cons, List.length_cons]
      omega
  have all := each (frame.locals ++ frame.stack)
  rw [List.length_append] at all
  exact Nat.add_le_add_left all 7

/-- The members that generated code refers to. -/
private def hostMembers : List MemberRef := [systemIn, systemOut, scannerInit, nextInt, println]

private theorem reread_hostMember {ref : MemberRef} (member : ref ∈ hostMembers) :
    ref.reread = ref := by
  have storable : ∀ ref ∈ hostMembers, ∀ text ∈ [ref.owner, ref.name, ref.descriptor],
      Encodable text := by decide +kernel
  have each := storable ref member
  simp only [List.mem_cons, List.not_mem_nil, or_false, forall_eq_or_imp, forall_eq] at each
  obtain ⟨owner, name, descriptor⟩ := each
  rw [MemberRef.reread, owner.repair, name.repair, descriptor.repair]

/-- The names in generated steps are read back as they are. -/
theorem Step.Means.reread {count : Nat} {s : Step} (generated : s.Generated count) {pool : Pool}
    {target : Nat → Option Nat} {action : Action} (means : s.Means pool target action) :
    s.Means pool.reread target action := by
  cases s with
  | push value =>
    refine means.imp_right ?_
    rintro ⟨i, same, found⟩
    exact ⟨i, same, Pool.reread_get found⟩
  | classOperand op name =>
    obtain ⟨i, same, names⟩ := means
    obtain ⟨-, rfl⟩ := generated
    have kept : repair scannerClass = scannerClass := by
      have storable : Encodable scannerClass := by decide +kernel
      exact storable.repair
    exact ⟨i, same, kept ▸ names.reread⟩
  | fieldOperand op ref =>
    obtain ⟨i, same, names⟩ := means
    have kept : ref.reread = ref := by
      have known := generated.2
      simp only [List.mem_cons, List.not_mem_nil, or_false] at known
      rcases known with rfl | rfl <;> exact reread_hostMember (by simp [hostMembers])
    exact ⟨i, same, kept ▸ names.reread⟩
  | methodOperand op ref =>
    obtain ⟨i, same, names⟩ := means
    have kept : ref.reread = ref := by
      have known := Or.imp And.right And.right generated
      simp only [List.mem_cons, List.not_mem_nil, or_false] at known
      rcases known with rfl | rfl | rfl <;> exact reread_hostMember (by simp [hostMembers])
    exact ⟨i, same, kept ▸ names.reread⟩
  | insn | localVar | jump | mark | line | nops => exact means

theorem Realizes.reread {count : Nat} {main : List Step} {body : Body} {pool : Pool}
    {target : Nat → Option Nat} (real : Realizes main body pool target)
    (generated : ∀ s ∈ main, s.Generated count) : Realizes main body pool.reread target where
  size := real.size
  indexed := real.indexed
  step := by
    intro p s at_ one
    obtain ⟨insn, present, means⟩ := real.step p s at_ one
    obtain ⟨first, rest, code, -⟩ := at_
    exact ⟨insn, present, means.reread (generated s (by simp [code]))⟩
  mark := real.mark
  last := real.last

end ClassFile

open ClassFile

variable {program : Program} {vars : Variables}

/-- A class whose texts are short enough for the format. -/
private theorem Program.Written.short {lineOf : Option (Span → Nat)} {main : Method} {pool : Pool}
    {draft : Draft} {code : Bytes} {analysis : Analysis}
    (written : program.Written vars lineOf main pool draft code analysis)
    (super : draft.super = "java/lang/Object")
    (name : (ModifiedUtf8.encode draft.name).length ≤ 65535)
    (source : (ModifiedUtf8.encode draft.sourceFile).length ≤ 65535) :
    (draft.lastPool main code analysis).Short := by
  have all : ∀ request ∈ program.requests vars lineOf draft, ∀ text ∈ request.texts,
      (ModifiedUtf8.encode text).length ≤ 65535 := by
    rw [Program.requests, classRequests, super]
    simp only [List.forall_mem_cons, List.forall_mem_append]
    refine ⟨by decide +kernel, by decide +kernel, by decide +kernel, by decide +kernel,
      by decide +kernel, by decide +kernel, by decide +kernel, ?_, by decide +kernel,
      by decide +kernel, ?_, by decide +kernel, ?_⟩
    · exact List.forall_mem_singleton.mpr name
    · exact List.forall_mem_singleton.mpr source
    · intro request number text inside
      obtain ⟨s, -, takes⟩ := List.mem_filterMap.mp number
      cases s with
      | push value =>
        simp only [Step.number?] at takes
        split at takes <;> cases takes
        cases inside
      | insn | localVar | jump | mark | classOperand | fieldOperand | methodOperand | line | nops =>
        cases takes
  intro text member
  obtain ⟨request, asked, inside⟩ := written.within.named text member
  exact all request asked text inside

/-- A program of few steps has a class file. -/
theorem Program.Lowerable.small_class (lowerable : program.Lowerable vars)
    (few : vars.size ≤ 65535) (options : ClassOptions)
    (short : 4 * ((program.code vars options.lineOf).length + 1) ≤ 32767) :
    ∃ bytes, (program.toClass vars options).1 = .ok bytes := by
  have labelled := Program.labelled lowerable.sound options.lineOf lowerable.proper lowerable.known
  obtain ⟨main, pool, steps⟩ := lowerable.assembles few options.lineOf
  have lowered := Program.toSteps_eq lowerable.proper lowerable.known few options.lineOf
  have size := Method.steps_size labelled.generated steps
  have start : mainStart.code.size = 0 := rfl
  rw [List.length_append, List.length_singleton, start] at size
  have inside : mainStart.Inside :=
    ⟨fun label place found => by simp [mainStart, Method.make] at found,
      fun jump member => absurd member (Array.not_mem_empty jump)⟩
  obtain ⟨code, resolved⟩ := lowerable.resolves steps (by omega)
    ((Method.steps_inside inside steps).near (by omega))
  have same : (Program.draft main pool options).pool = pool := rfl
  obtain ⟨analysis, written⟩ := lowerable.written steps few resolved same rfl
  exact ⟨_, (Program.toClass_eq lowered steps).mpr written.bytes⟩

/-- The product of the number of frames and the size of each stays below the limit. -/
private theorem frames_room {frames jumps slots depth steps total bound : Nat}
    (fewer : frames ≤ jumps) (room : steps + 1 + 2 * jumps ≤ bound) (short : bound ≤ 65535)
    (locals : 5 + 2 * slots ≤ steps) (deep : depth ≤ steps)
    (sum : total ≤ frames * (7 + 3 * (slots + 1 + depth))) : total ≤ 2500000000 := by
  have each : 2 * (7 + 3 * (slots + 1 + depth)) ≤ 20 + 9 * steps := by omega
  have all : 2 * total ≤ jumps * (20 + 9 * steps) := by
    calc
      2 * total ≤ 2 * (frames * (7 + 3 * (slots + 1 + depth))) := by omega
      _ = frames * (2 * (7 + 3 * (slots + 1 + depth))) := by ring
      _ ≤ jumps * (20 + 9 * steps) := Nat.mul_le_mul fewer each
  have narrow : jumps * (20 + 9 * steps) ≤ jumps * (589826 - 18 * jumps) :=
    Nat.mul_le_mul_left jumps (by omega)
  have vast : jumps * (589826 - 18 * jumps) ≤ 5000000000 := by
    obtain ⟨rest, same⟩ : ∃ rest, 589826 - 18 * jumps = rest ∧ rest + 18 * jumps = 589826 :=
      ⟨_, rfl, by omega⟩
    rw [same.1]
    nlinarith [same.2, sq_nonneg ((rest : Int) - 18 * jumps)]
  omega

private theorem Program.Written.small {lineOf : Option (Span → Nat)} {main : Method} {pool : Pool}
    {draft : Draft} {code : Bytes} {analysis : Analysis} (lowerable : program.Lowerable vars)
    (few : vars.size ≤ 65535)
    (written : program.Written vars lineOf main pool draft code analysis)
    (lines : main.lines.size ≤ main.code.size) :
    (draft.methodPart main code analysis).1.length < 4294967296 := by
  have labelled := Program.labelled lowerable.sound lineOf lowerable.proper lowerable.known
  have usual : ∀ s ∈ program.code vars lineOf ++ [Step.insn .ret], s.Usual :=
    fun s member => (labelled.generated s member).usual few
  obtain ⟨length, short⟩ := Method.resolve_length written.finished.resolved
  obtain ⟨-, slots, vast⟩ := written.assembled.room lowerable few
  have bytes := width_le_codeBytes draft.namedPool usual
  have size : main.code.size =
      (codeBytes draft.namedPool (program.code vars lineOf ++ [Step.insn .ret])).length := by
    rw [← Array.length_toList, written.assembled.did.code]
    rfl
  rw [← size, width_append] at bytes
  have fewer := (analyze_frames_le written.analyzed.analyzed).trans
    (written.analyzed.decoded.targets_le usual)
  have each : ∀ frame ∈ analysis.frames,
      frame.width ≤ 7 + 3 * (vars.size + 1 + analysis.maxStack) := by
    intro frame member
    obtain ⟨locals, stack⟩ := analyze_frame_small written.analyzed.analyzed member
    have wide := frame.width_le
    rw [List.length_singleton] at locals
    omega
  have sum : (analysis.frames.map Frame.width).sum ≤
      analysis.frames.length * (7 + 3 * (vars.size + 1 + analysis.maxStack)) := by
    have bound := List.sum_le_card_nsmul (analysis.frames.map Frame.width) _
      (List.forall_mem_map.mpr each)
    rwa [List.length_map, smul_eq_mul] at bound
  have total := frames_room fewer bytes (length ▸ short) vast written.analyzed.depth sum
  have whole := main.length_write code analysis draft.namedPool
  rw [Draft.methodPart]
  omega

/-- A loaded class whose main method was assembled from a program. -/
structure Program.LoadedAs (program : Program) (vars : Variables) (lineOf : Option (Span → Nat))
    (main : Method) (pool : Pool) (loaded : Loaded) : Prop where
  few : vars.size ≤ 65535
  assembled : mainStart.steps {} (program.code vars lineOf ++ [Step.insn .ret]) = .ok (main, pool)
  short : main.code.size ≤ 65535
  lines : loaded.code.lines = main.lines.toList
  decoded : ∃ larger : Pool, larger.Sound ∧ pool.Extends larger ∧ larger.overflowed = false ∧
    Decoded larger (main.labels[·]?) 0 (program.code vars lineOf ++ [Step.insn .ret])
      loaded.analysis.body.insns.toList
  real : Realizes (program.code vars lineOf) loaded.analysis.body loaded.pool (main.labels[·]?)
  slots : loaded.code.maxLocals = vars.size + 1

/-- A class that was written for a program is loaded with the method that was assembled. -/
theorem Program.few_of_toClass {options : ClassOptions} {bytes : Bytes}
    (made : (program.toClass vars options).1 = .ok bytes) : vars.size ≤ 65535 := by
  by_contra many
  have none := program.toSteps_many (Nat.lt_of_not_le many) options.lineOf
  rcases outcome : program.toSteps vars options.lineOf with ⟨result, reports⟩
  rw [outcome] at none
  simp only at none
  subst none
  simp only [Program.toClass, outcome] at made
  cases made

private theorem Program.draft_resolves {main : Method} {pool : Pool} {options : ClassOptions}
    {bytes : Bytes} (drafted : (Program.draft main pool options).bytes = .ok bytes) :
    ∃ code, main.resolve = .ok code := by
  obtain ⟨last, finished, -⟩ := Draft.bytes_eq_ok drafted
  simp only [Program.draft, Method.finishAll] at finished
  split at finished
  · cases finished
  next one =>
    obtain ⟨code, analysis, done, -⟩ := Method.finish_eq_ok.mp one
    exact ⟨code, done.resolved⟩

/-- The pool that a class is read with has all that its methods were analysed with. -/
theorem ClassFile.Draft.finishedPool_grows {draft : Draft} (sound : draft.pool.Sound)
    (all : ∀ method ∈ draft.methods, method.Tabled) {bytes : Bytes}
    (written : draft.bytes = .ok bytes) : draft.namedPool.Extends draft.finishedPool := by
  obtain ⟨final, ended, ends, -⟩ := Draft.bytes_eq_ok written
  obtain ⟨namedSound, -⟩ := Draft.namedPool_grows sound
  obtain ⟨finalSound, more, -⟩ := Method.finishAll_reads
    (fun method member => all method (Array.mem_toList_iff.mp member)) namedSound ended
  rw [ends]
  exact more.trans (Draft.sourcePart_grows _ finalSound).2

/-- A pool that is read realises the code that was finished, so the analysis accepts it again. -/
theorem Program.Assembled.accepted {lineOf : Option (Span → Nat)} {main : Method} {pool : Pool}
    (assembled : program.Assembled vars lineOf main pool) (lowerable : program.Lowerable vars)
    (few : vars.size ≤ 65535) {code : Bytes} (resolved : main.resolve = .ok code) :
    ∃ insns found, analyze code pool.reread [mainArgument] (vars.size + 1) = .ok found ∧
      found.body = Body.ofInsns insns ∧
      Decoded pool (main.labels[·]?) 0 (program.code vars lineOf ++ [Step.insn .ret])
        insns.toList ∧
      Realizes (program.code vars lineOf) (Body.ofInsns insns) pool.reread (main.labels[·]?) := by
  have labelled := Program.labelled lowerable.sound lineOf lowerable.proper lowerable.known
  have usual : ∀ s ∈ program.code vars lineOf ++ [Step.insn .ret], s.Usual :=
    fun s member => (labelled.generated s member).usual few
  obtain ⟨insns, decodes, decoded⟩ := assembled.did.decoded rfl rfl assembled.sound assembled.fits
    usual assembled.kept resolved
  have real := (assembled.did.realizes rfl decodes decoded
    fun s member => usual s (List.mem_append_left _ member)).reread
      fun s member => labelled.generated s (List.mem_append_left _ member)
  obtain ⟨raw, consistent⟩ := Program.consistent lowerable.sound lowerable.proper lowerable.known real
  have some_ : 0 < insns.size := by
    have size := real.size
    rw [show (Body.ofInsns insns).insns.size = insns.size from rfl] at size
    omega
  obtain ⟨found, analyzed, body, -⟩ := analyze_complete decodes some_ consistent
  exact ⟨insns, found, analyzed, body, decoded, real⟩

private theorem Program.Assembled.tabled {lineOf : Option (Span → Nat)} {main : Method}
    {pool : Pool} (assembled : program.Assembled vars lineOf main pool)
    (storable : ∀ entry ∈ main.lines.toList, entry.Storable) (fewLines : main.lines.size ≤ 65535)
    (slots : main.maxLocals = vars.size + 1) : main.Tabled := by
  obtain ⟨-, -, descriptor, init⟩ := assembled.did.signature
  refine ⟨?_, storable, fewLines, ?_⟩
  · rw [init, slots]
    exact Nat.le_add_left 1 vars.size
  · have kept : repair mainDescriptor = mainDescriptor := by
      have storable : Encodable mainDescriptor := by decide +kernel
      exact storable.repair
    rw [descriptor, show mainStart.descriptor = mainDescriptor from rfl, kept]
    exact ⟨_, rfl⟩

theorem Program.class_loads_main (lowerable : program.Lowerable vars) {options : ClassOptions}
    (name : (ModifiedUtf8.encode options.name).length ≤ 65535)
    (source : (ModifiedUtf8.encode options.sourceFile).length ≤ 65535) {bytes : Bytes}
    (made : (program.toClass vars options).1 = .ok bytes) :
    ∃ loaded main pool, load bytes = .ok loaded ∧
      program.LoadedAs vars options.lineOf main pool loaded := by
  have few := Program.few_of_toClass made
  obtain ⟨main, pool, steps⟩ := lowerable.assembles few options.lineOf
  have lowered := Program.toSteps_eq lowerable.proper lowerable.known few options.lineOf
  have drafted := (Program.toClass_eq lowered steps).mp made
  have start : mainStart.Lined :=
    ⟨fun _ member => absurd member List.not_mem_nil, fun _ found => by cases found⟩
  obtain ⟨storable, lines⟩ := Method.steps_lines_le start steps
  obtain ⟨code, resolved⟩ := Program.draft_resolves drafted
  have same : (Program.draft main pool options).pool = pool := rfl
  obtain ⟨analysis, written⟩ := lowerable.written steps few resolved same rfl
  obtain ⟨last, parts, -⟩ := Draft.bytes_one written.method written.finished written.within.fits
  obtain ⟨length, short⟩ := Method.resolve_length resolved
  obtain ⟨access, title, descriptor, -⟩ := written.assembled.did.signature
  have slots := (written.assembled.room lowerable few).2.1
  have tabled := written.assembled.tabled storable (by omega) slots
  have sound : pool.Sound := (Method.steps_did Pool.sound_empty steps).1
  have all : ∀ method ∈ (Program.draft main pool options).methods, method.Tabled := by
    intro method member
    rw [Array.mem_singleton.mp member]
    exact tabled
  obtain ⟨infos, each, parsed⟩ := Draft.parse_bytes sound all (Nat.le_add_left 1 65534) drafted
    (last ▸ written.short rfl name source)
    (by rw [parts, List.forall_mem_singleton]; exact written.small lowerable few lines)
  obtain ⟨info, rest, ⟨before, again, other, -, finished, rfl⟩, nothing, rfl⟩ :=
    List.forall₂_cons_left_iff.mp each
  cases nothing
  obtain rfl := Except.ok.inj (resolved.symm.trans finished.resolved)
  have grown := written.extends_.trans (Draft.finishedPool_grows sound all drafted)
  have assembled : program.Assembled vars options.lineOf main
      (Program.draft main pool options).finishedPool :=
    Program.assembled steps (last ▸ written.within.sound) grown (last ▸ written.within.fits)
  obtain ⟨insns, found, analyzed, body, decoded, real⟩ :=
    assembled.accepted lowerable few resolved
  rw [← slots] at analyzed
  let info : CodeInfo :=
    { maxStack := other.maxStack, maxLocals := main.maxLocals, bytes := code
      lines := main.lines.toList, frames := other.frames.map Frame.reread }
  refine ⟨⟨info, _, found⟩, main, pool, ?_, few, steps, length ▸ short, rfl,
    ⟨_, assembled.sound, grown, assembled.fits, body ▸ decoded⟩, body ▸ real, slots⟩
  have named : repair main.name = "main" ∧ repair main.descriptor = mainDescriptor := by
    have storable : Encodable mainStart.name ∧ Encodable mainStart.descriptor := by decide +kernel
    rw [title, descriptor, storable.1.repair, storable.2.repair]
    exact ⟨rfl, rfl⟩
  have static : ¬ main.access &&& 8 = 0 := by
    rw [access]
    decide
  simp only [load, parsed, Class.method?, Method.reread, List.find?_cons, named, decide_true,
    Bool.and_self, analyzed, if_neg static]
  rfl

/-- A class that was written for a program is loaded with the code of the program. -/
theorem Program.class_loads (lowerable : program.Lowerable vars) {options : ClassOptions}
    (name : (ModifiedUtf8.encode options.name).length ≤ 65535)
    (source : (ModifiedUtf8.encode options.sourceFile).length ≤ 65535) {bytes : Bytes}
    (made : (program.toClass vars options).1 = .ok bytes) :
    ∃ loaded target, load bytes = .ok loaded ∧
      Realizes (program.code vars options.lineOf) loaded.analysis.body loaded.pool target ∧
      loaded.code.maxLocals = vars.size + 1 := by
  obtain ⟨loaded, main, pool, loads, runs⟩ := Program.class_loads_main lowerable name source made
  exact ⟨loaded, _, loads, runs.real, runs.slots⟩

end Minilang
