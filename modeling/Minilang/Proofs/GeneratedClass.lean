import Minilang.Proofs.LabelDiscipline
import Minilang.Proofs.MainTyping
import Minilang.Proofs.PoolBudget
import Minilang.Proofs.WrittenClass

/-! Every program whose code keeps within the limits of the format has a class file. The code
assembles, the analysis accepts it, and the pool has room for all that is asked of it; the stack
then holds two integers for each counting loop around a statement. -/

namespace Minilang

/-- What lowering relies on: a proper tree whose targets are all among the variables. -/
structure Program.Lowerable (program : Program) (vars : Variables) : Prop where
  sound : vars.Sound
  proper : Stmt.AllProper (fun _ => True) program.stmts
  known : Stmt.AllAssignOnly (fun name => vars.has name = true) program.stmts

theorem Program.parse_lowerable (options : ParseOptions) (tokens : List Token) :
    (Program.parse options tokens).program.Lowerable
      (Variables.ofProgram (Program.parse options tokens).program) where
  sound := Variables.ofProgram_sound _
  proper := Program.parse_proper options fun _ _ _ => trivial
  known := Program.assignsOnly _

namespace ClassFile

def mainStart : Method := Method.make 0x9 "main" mainDescriptor [mainArgument]

def Step.isJump : Step → Bool
  | .jump .. => true
  | _ => false

/-- Every instruction takes a byte at least, and a branch two more. -/
theorem width_le_codeBytes (pool : Pool) {steps : List Step} (usual : ∀ s ∈ steps, s.Usual) :
    width steps + 2 * steps.countP Step.isJump ≤ (codeBytes pool steps).length := by
  induction steps with
  | nil => exact Nat.le_refl 0
  | cons s rest ih =>
    obtain ⟨here, later⟩ := List.forall_mem_cons.mp usual
    have more := ih later
    have one : s.size + 2 * (if s.isJump then 1 else 0) ≤ (s.bytes pool).length := by
      cases s with
      | insn | jump | classOperand | fieldOperand | methodOperand =>
        simp [Step.size, Step.bytes, Step.isJump]
      | mark | line => exact Nat.le_refl 0
      | nops => exact here.elim
      | localVar op slot =>
        simp only [Step.size, Step.bytes, Method.localBytes, Step.isJump, Bool.false_eq_true,
          if_false]
        split
        · exact Nat.le_refl 1
        · split <;> simp
      | push value =>
        simp only [Step.size, Step.bytes, Method.pushBytes, Step.isJump, Bool.false_eq_true,
          if_false]
        split
        · exact Nat.le_refl 1
        · split
          · simp
          · split
            · simp
            · split <;> simp
    rw [width_cons, codeBytes_cons, List.length_append, List.countP_cons]
    omega

private theorem foldl_slots {steps : List Step} {bound : Nat} (all : ∀ s ∈ steps, s.slots ≤ bound)
    {start : Nat} (low : start ≤ bound)
    (reached : start = bound ∨ ∃ s ∈ steps, s.slots = bound) :
    steps.foldl (fun n s => max n s.slots) start = bound := by
  induction steps generalizing start with
  | nil =>
    rcases reached with same | ⟨s, member, -⟩
    · exact same
    · cases member
  | cons s rest ih =>
    obtain ⟨here, later⟩ := List.forall_mem_cons.mp all
    refine ih later (max_le low here) ?_
    rcases reached with same | ⟨t, member, same⟩
    · rw [same]
      exact .inl (max_eq_left here)
    · rcases List.mem_cons.mp member with rfl | inside
      · exact .inl ((congrArg (max start) same).trans (max_eq_right low))
      · exact .inr ⟨t, inside, same⟩

private theorem Step.Generated.slots_le {count : Nat} {s : Step} (generated : s.Generated count) :
    s.slots ≤ count + 1 := by
  cases s with
  | localVar op slot =>
    obtain ⟨-, low, high⟩ := generated
    simp only [Step.slots]
    omega
  | insn | push | jump | mark | classOperand | fieldOperand | methodOperand | line | nops =>
    exact Nat.zero_le _

/-- The slots of a main method: one for the scanner and one for each variable. -/
theorem mainCode_slots {count k : Nat} {made : List Nat} {vars : Variables} (same : vars.size = count)
    {rest : List Step} (labelled : Labelled count (Made 0 k) (prologueCode vars ++ rest) made) :
    (prologueCode vars ++ rest).foldl (fun n s => max n s.slots) 1 = count + 1 := by
  refine foldl_slots (fun s member => (labelled.generated s member).slots_le) (by omega) ?_
  cases count with
  | zero => exact .inl rfl
  | succ count =>
    refine .inr ⟨.localVar .istore ((count : Nat) + 1), List.mem_append_left _ ?_, ?_⟩
    · refine List.mem_append_right _ (List.mem_flatMap.mpr ⟨count, ?_, by simp⟩)
      rw [List.mem_range, same]
      exact Nat.lt_succ_self count
    · simp only [Step.slots]
      omega

end ClassFile

open ClassFile

section

variable {program : Program} {vars : Variables} {lineOf : Option (Span → Nat)} {main : Method}
  {pool : Pool}

theorem Program.Lowerable.assembles (lowerable : program.Lowerable vars) (few : vars.size ≤ 65535)
    (lineOf : Option (Span → Nat)) :
    ∃ main pool, mainStart.steps {} (program.code vars lineOf ++ [Step.insn .ret]) =
      .ok (main, pool) := by
  have labelled := Program.labelled lowerable.sound lineOf lowerable.proper lowerable.known
  refine Method.steps_ok mainStart {} (fun s member => (labelled.generated s member).usual few) ?_ ?_
  · exact labelled.marks.nodup_iff.mpr List.nodup_range'
  · intro label _
    exact Std.HashMap.getElem?_empty

/-- The code of a program as a pool that is at least as large sees it. -/
structure Program.Assembled (program : Program) (vars : Variables) (lineOf : Option (Span → Nat))
    (main : Method) (pool : Pool) : Prop where
  sound : pool.Sound
  fits : pool.overflowed = false
  did : Method.DidAll pool (program.code vars lineOf ++ [Step.insn .ret]) mainStart main
  kept : ∀ s ∈ program.code vars lineOf ++ [Step.insn .ret], s.poolAfter pool = pool

theorem Program.assembled {larger : Pool}
    (steps : mainStart.steps {} (program.code vars lineOf ++ [Step.insn .ret]) = .ok (main, pool))
    (sound : larger.Sound) (extends_ : pool.Extends larger) (fits : larger.overflowed = false) :
    program.Assembled vars lineOf main larger := by
  obtain ⟨-, -, all⟩ := Method.steps_did Pool.sound_empty steps
  obtain ⟨did, kept⟩ := all larger sound extends_ fits
  exact ⟨sound, fits, did, kept⟩

/-- What the analysis finds in the finished code of a program. -/
structure Program.Analyzed (program : Program) (vars : Variables) (lineOf : Option (Span → Nat))
    (main : Method) (pool : Pool) (code : Bytes) (analysis : Analysis) : Prop where
  analyzed : analyze code pool [mainArgument] (vars.size + 1) = .ok analysis
  real : Realizes (program.code vars lineOf) analysis.body pool (main.labels[·]?)
  decoded : Decoded pool (main.labels[·]?) 0 (program.code vars lineOf ++ [Step.insn .ret])
    analysis.body.insns.toList
  depth : analysis.maxStack ≤ width (program.code vars lineOf)
  size : analysis.states.size = analysis.body.insns.size
  found : ∃ raw, ∀ i types, analysis.states[i]? = some types →
    (mainTyping vars.size raw program.shapes i).Covers types

theorem Program.Assembled.analyzes (assembled : program.Assembled vars lineOf main pool)
    (lowerable : program.Lowerable vars) (few : vars.size ≤ 65535) {code : Bytes}
    (resolved : main.resolve = .ok code) :
    ∃ analysis, program.Analyzed vars lineOf main pool code analysis := by
  have labelled := Program.labelled lowerable.sound lineOf lowerable.proper lowerable.known
  have usual : ∀ s ∈ program.code vars lineOf ++ [Step.insn .ret], s.Usual :=
    fun s member => (labelled.generated s member).usual few
  obtain ⟨insns, decodes, decoded⟩ := assembled.did.decoded rfl rfl assembled.sound assembled.fits
    usual assembled.kept resolved
  have real := assembled.did.realizes rfl decodes decoded
    fun s member => usual s (List.mem_append_left _ member)
  obtain ⟨raw, consistent⟩ := Program.consistent lowerable.sound lowerable.proper lowerable.known real
  have some_ : 0 < insns.size := by
    have size := real.size
    rw [show (Body.ofInsns insns).insns.size = insns.size from rfl] at size
    omega
  obtain ⟨analysis, analyzed, body, depth, size, found⟩ := analyze_complete decodes some_ consistent
  refine ⟨analysis, analyzed, ?_, ?_, depth, ?_, raw, found⟩
  · rw [body]
    exact real
  · rw [body]
    exact decoded
  · rw [body]
    exact size

theorem Program.mark_behind {q label : Nat}
    (at_ : CodeAt (program.code vars lineOf) q [.mark label]) : 5 + 2 * vars.size ≤ q := by
  obtain ⟨first, last, code, rfl⟩ := at_
  have whole : prologueCode vars ++ Stmt.allCode vars lineOf 0 program.stmts =
      first ++ .mark label :: last := by
    simpa [Program.code] using code
  rw [← width_prologueCode vars]
  rcases List.append_eq_append_iff.mp whole with ⟨more, same, -⟩ | ⟨more, same, rest⟩
  · rw [same, width_append]
    exact Nat.le_add_right _ _
  · cases more with
    | nil => rw [same, List.append_nil]
    | cons s more =>
      obtain ⟨rfl, -⟩ := List.cons.inj rest
      have none := (prologueCode_labelled (fun _ => True) vars).marks.eq_nil
      rw [same] at none
      simp [Step.marked?] at none

private theorem hit_contains (insns : List Insn) (seen : Std.HashMap Nat Unit) (offset : Nat) :
    (insns.foldl (fun (seen : Std.HashMap Nat Unit) insn =>
      match insn.action.target? with
      | some target => seen.insert target.toNat ()
      | none => seen) seen).contains offset = true →
    seen.contains offset = true ∨
      ∃ insn ∈ insns, ∃ target, insn.action.target? = some target ∧ target.toNat = offset := by
  induction insns generalizing seen with
  | nil => exact .inl
  | cons insn rest ih =>
    intro hit
    rcases ih _ hit with before | ⟨other, member, found⟩
    · cases aims : insn.action.target? with
      | none => exact .inl (by simpa [aims] using before)
      | some target =>
        simp only [aims, Std.HashMap.contains_insert, Bool.or_eq_true, beq_iff_eq] at before
        rcases before with here | earlier
        · exact .inr ⟨insn, List.mem_cons_self, target, aims, here⟩
        · exact .inl earlier
    · exact .inr ⟨other, List.mem_cons_of_mem insn member, found⟩

theorem ClassFile.Body.mem_targets {body : Body} {offset : Nat} (member : offset ∈ body.targets) :
    ∃ insn ∈ body.insns.toList, ∃ target, insn.action.target? = some target ∧
      target.toNat = offset := by
  have hit := (List.mem_filter.mp member).2
  rw [← Array.foldl_toList] at hit
  rcases hit_contains _ _ _ hit with none | found
  · simp at none
  · exact found

theorem Program.Analyzed.target_mark {code : Bytes} {analysis : Analysis}
    (analyzed : program.Analyzed vars lineOf main pool code analysis)
    (lowerable : program.Lowerable vars) (few : vars.size ≤ 65535) {offset : Nat}
    (member : offset ∈ analysis.body.targets) :
    ∃ q label, CodeAt (program.code vars lineOf) q [.mark label] ∧
      analysis.body.index[offset]? = some q := by
  have labelled := Program.labelled lowerable.sound lineOf lowerable.proper lowerable.known
  have usual : ∀ s ∈ program.code vars lineOf, s.Usual :=
    fun s inside => (labelled.generated s (List.mem_append_left _ inside)).usual few
  obtain ⟨insn, inside, target, aims, rfl⟩ := Body.mem_targets member
  obtain ⟨p, there⟩ := List.mem_iff_getElem?.mp inside
  rw [Array.getElem?_toList] at there
  have bound : p < width (program.code vars lineOf) := by
    have size := analyzed.real.size
    have low := (Array.getElem?_eq_some_iff.mp there).1
    by_contra high
    have same : p = width (program.code vars lineOf) := by omega
    obtain ⟨last, found, returns⟩ := analyzed.real.last
    rw [same, found] at there
    cases there
    rw [returns] at aims
    cases aims
  obtain ⟨s, at_, one, stands⟩ := CodeAt.exists usual bound
  obtain ⟨again, present, means⟩ := analyzed.real.step p s at_ one
  rw [there] at present
  cases present
  obtain ⟨op, label, place, rfl, placed, rfl⟩ := means.target (usual s stands) aims
  obtain ⟨first, rest, code⟩ := labelled.marked (List.mem_append_left _ stands)
  have inMain : ∃ last, program.code vars lineOf = first ++ .mark label :: last := by
    rcases List.eq_nil_or_concat rest with rfl | ⟨front, final, rfl⟩
    · have ends := congrArg List.getLast? code
      simp at ends
    · refine ⟨front, ?_⟩
      rw [List.concat_eq_append, ← List.cons_append, ← List.append_assoc] at code
      exact (List.append_inj' code rfl).1
  obtain ⟨last, split⟩ := inMain
  have mark : CodeAt (program.code vars lineOf) (width first) [.mark label] :=
    ⟨first, last, by simp [split], rfl⟩
  obtain ⟨other, bound, found⟩ := analyzed.real.mark _ _ mark
  rw [placed] at bound
  cases bound
  refine ⟨width first, label, mark, ?_⟩
  simpa [Body.indexOf?] using found

/-- At a branch target the locals are known exactly. -/
theorem Program.Analyzed.at_mark {code : Bytes} {analysis : Analysis}
    (analyzed : program.Analyzed vars lineOf main pool code analysis) {q label : Nat}
    (at_ : CodeAt (program.code vars lineOf) q [.mark label]) {types : TypeState}
    (found : analysis.states[q]? = some types) :
    types.locals = localsAfter vars.size vars.size ∧ Plain types.stack := by
  obtain ⟨raw, covers⟩ := analyzed.found
  have above := covers q types found
  have behind := Program.mark_behind at_
  have ready := localsAfter_ready vars.size
  obtain ⟨i, rfl⟩ : ∃ i, q = (2 * vars.size + i) + 5 := ⟨q - 5 - 2 * vars.size, by omega⟩
  rw [mainTyping, if_neg (by omega)] at above
  refine ⟨?_, ?_⟩
  · refine Array.ext_getElem? fun slot => ?_
    cases known : (localsAfter vars.size vars.size)[slot]? with
    | none =>
      rw [Array.getElem?_eq_none_iff] at known ⊢
      rw [← above.size]
      exact known
    | some type =>
      refine above.known known ?_
      rintro rfl
      have inside := (Array.getElem?_eq_some_iff.mp known).1
      rw [ready.size] at inside
      rcases Nat.eq_zero_or_pos slot with rfl | later
      · rw [ready.scanner] at known
        cases known
      · rw [ready.ints slot later (by omega)] at known
        cases known
  · rw [← above.stack]
    have all : ∀ shape ∈ program.shapes, Plain shape :=
      List.forall_mem_append.mpr ⟨Stmt.allShapes_plain program.stmts (List.forall_mem_nil _), by simp [Plain]⟩
    show Plain ((program.shapes[2 * vars.size + i - 2 * vars.size]?).getD [])
    cases here : program.shapes[2 * vars.size + i - 2 * vars.size]? with
    | none => exact List.forall_mem_nil _
    | some shape => exact all shape (List.mem_of_getElem? here)

/-- The frames of a generated method hold integers, scanners and streams. -/
theorem Program.Analyzed.frame_plain {code : Bytes} {analysis : Analysis}
    (analyzed : program.Analyzed vars lineOf main pool code analysis)
    (lowerable : program.Lowerable vars) (few : vars.size ≤ 65535) {frame : Frame}
    (member : frame ∈ analysis.frames) : Plain (frame.locals ++ frame.stack) := by
  obtain ⟨offset, target, made⟩ := List.mem_filterMap.mp member
  obtain ⟨q, label, at_, found⟩ := analyzed.target_mark lowerable few target
  simp only [found, Option.bind_eq_bind, Option.bind_some] at made
  obtain ⟨types, known, same⟩ := Option.bind_eq_some_iff.mp made
  cases same
  obtain ⟨locals, stack⟩ := analyzed.at_mark at_ known
  intro type inside
  rcases List.mem_append.mp inside with here | here
  · have held := mem_trimTop here
    rw [locals, localsAfter] at held
    simp only [Nat.sub_self, List.replicate_zero, List.append_nil, List.mem_cons,
      List.mem_replicate] at held
    rcases held with rfl | ⟨-, rfl⟩
    · exact .inr (.inl rfl)
    · exact .inl rfl
  · exact stack type (List.mem_reverse.mp here)

namespace ClassFile

/-- Every branch of a method whose label is bound can be encoded. -/
def Method.Near (method : Method) : Prop :=
  ∀ jump ∈ method.jumps, ∀ place : Nat, method.labels[jump.label]? = some place →
    -32768 ≤ (place : Int) - jump.offset ∧ (place : Int) - jump.offset ≤ 32767

/-- The labels and the jumps of a method lie inside its code. -/
structure Method.Inside (method : Method) : Prop where
  labels : ∀ (label : Nat) place, method.labels[label]? = some place → place ≤ method.code.size
  jumps : ∀ jump ∈ method.jumps, jump.offset ≤ method.code.size

theorem Method.steps_inside {steps : List Step} {method after : Method} {pool next : Pool}
    (inside : method.Inside) (assembled : method.steps pool steps = .ok (after, next)) :
    after.Inside := by
  induction steps generalizing method pool with
  | nil =>
    cases assembled
    exact inside
  | cons s rest ih =>
    simp only [Method.steps] at assembled
    split at assembled
    · cases assembled
    next middle grown stepped =>
      obtain ⟨rfl, did⟩ := step_did stepped
      have size : middle.code.size = method.code.size + (s.bytes pool).length := by
        rw [← Array.length_toList, did.code, List.length_append, Array.length_toList]
      refine ih ⟨fun label place found => ?_, fun jump member => ?_⟩ assembled
      · rw [did.labels] at found
        split at found
        · cases found
          exact size ▸ Nat.le_add_right _ _
        · have before := inside.labels label place found
          omega
      · rw [← Array.mem_toList_iff, did.jumps] at member
        rcases List.mem_append.mp member with older | new
        · have before := inside.jumps jump (Array.mem_toList_iff.mp older)
          omega
        · have here : jump.offset = method.offset := by
            cases s with
            | jump op label =>
              rw [List.mem_singleton.mp new]
            | insn | push | localVar | mark | classOperand | fieldOperand | methodOperand | line
            | nops => cases new
          rw [here, Method.offset]
          omega

/-- All branches of short code are near. -/
theorem Method.Inside.near {method : Method} (inside : method.Inside)
    (short : method.code.size ≤ 32767) : method.Near := by
  intro jump member place found
  have high := inside.labels jump.label place found
  have low := inside.jumps jump member
  omega

theorem Method.steps_size {count : Nat} {steps : List Step}
    (generated : ∀ s ∈ steps, s.Generated count) {method after : Method} {pool next : Pool}
    (assembled : method.steps pool steps = .ok (after, next)) :
    after.code.size ≤ method.code.size + 4 * steps.length := by
  induction steps generalizing method pool with
  | nil =>
    cases assembled
    exact Nat.le_add_right _ _
  | cons s rest ih =>
    obtain ⟨here, later⟩ := List.forall_mem_cons.mp generated
    simp only [Method.steps] at assembled
    split at assembled
    · cases assembled
    next middle grown stepped =>
      obtain ⟨rfl, did⟩ := step_did stepped
      have size : middle.code.size = method.code.size + (s.bytes pool).length := by
        rw [← Array.length_toList, did.code, List.length_append, Array.length_toList]
      have four : (s.bytes pool).length ≤ 4 := by
        cases s with
        | insn | jump | classOperand | fieldOperand | methodOperand => simp [Step.bytes, u2]
        | mark | line => exact Nat.zero_le 4
        | nops => exact here.elim
        | localVar op slot =>
          simp only [Step.bytes, localBytes]
          split
          · simp
          · split <;> simp [u2]
        | push value =>
          simp only [Step.bytes, pushBytes]
          split
          · simp
          · split
            · simp
            · split
              · simp [u2]
              · split <;> simp [u2]
      have more := ih later assembled
      rw [List.length_cons]
      omega

def classRequests (name super source : Bytes) (steps : List Step) : List Request :=
  .className scannerClass :: .className "java/io/PrintStream" :: .field systemIn ::
    .field systemOut :: .method scannerInit :: .method nextInt :: .method println ::
    .className name :: .className super :: .text "SourceFile" :: .text source ::
    (mainStart.texts ++ steps.filterMap Step.number?)

theorem classRequests_cost (name super source : Bytes) (steps : List Step) :
    ((classRequests name super source steps).map Request.cost).sum =
      45 + (steps.filterMap Step.number?).length := by
  have numbers : ∀ list : List Request, (∀ r ∈ list, r.cost = 1) →
      (list.map Request.cost).sum = list.length := by
    intro list ones
    rw [List.map_congr_left ones]
    simp
  have one : ∀ r ∈ steps.filterMap Step.number?, r.cost = 1 := by
    intro r member
    obtain ⟨s, -, takes⟩ := List.mem_filterMap.mp member
    cases s with
    | push value =>
      simp only [Step.number?] at takes
      split at takes
      · cases takes
      · cases takes
        rfl
    | insn | localVar | jump | mark | classOperand | fieldOperand | methodOperand | line | nops =>
      cases takes
  simp only [classRequests, List.map_cons, List.map_append, List.sum_cons, List.sum_append,
    numbers _ one]
  simp only [Request.cost, Method.texts, List.map_cons, List.map_nil, List.sum_cons, List.sum_nil]
  omega

theorem Step.Generated.asked {count : Nat} {s : Step} (generated : s.Generated count)
    {steps : List Step} (member : s ∈ steps) (name super source : Bytes) :
    ∀ r, s.request? = some r → r ∈ classRequests name super source steps := by
  intro r asks
  cases s with
  | push value =>
    have taken : r ∈ steps.filterMap Step.number? := List.mem_filterMap.mpr ⟨_, member, asks⟩
    simp [classRequests, taken]
  | classOperand op owner =>
    obtain ⟨-, rfl⟩ := generated
    cases asks
    simp [classRequests]
  | fieldOperand op ref =>
    obtain ⟨-, known⟩ := generated
    cases asks
    simp only [List.mem_cons, List.not_mem_nil, or_false] at known
    rcases known with rfl | rfl <;> simp [classRequests]
  | methodOperand op ref =>
    cases asks
    rcases generated with ⟨-, rfl⟩ | ⟨-, known⟩
    · simp [classRequests]
    · simp only [List.mem_cons, List.not_mem_nil, or_false] at known
      rcases known with rfl | rfl <;> simp [classRequests]
  | insn | localVar | jump | mark | line | nops => cases asks

end ClassFile

/-- Assembled code that is short enough and whose branches are near is finished. -/
theorem Program.Assembled.resolves (assembled : program.Assembled vars lineOf main pool)
    (lowerable : program.Lowerable vars) (short : main.code.size ≤ 65535) (near : main.Near) :
    ∃ code, main.resolve = .ok code := by
  have labelled := Program.labelled lowerable.sound lineOf lowerable.proper lowerable.known
  refine ⟨_, (Method.resolve_eq_ok assembled.did rfl rfl).mpr ⟨short, ?_, rfl⟩⟩
  refine allReach_of_jumps (fun op label member => ?_) fun jump member => ?_
  · obtain ⟨first, rest, split⟩ := labelled.marked member
    exact ⟨_, assembled.did.marks first label rest split⟩
  · refine near jump ?_
    rw [← Array.mem_toList_iff, assembled.did.jumps]
    exact List.mem_append_right _ member

theorem Program.Assembled.room (assembled : program.Assembled vars lineOf main pool)
    (lowerable : program.Lowerable vars) (few : vars.size ≤ 65535) :
    width (program.code vars lineOf) < main.code.size ∧ main.maxLocals = vars.size + 1 ∧
      5 + 2 * vars.size ≤ width (program.code vars lineOf) := by
  have labelled := Program.labelled lowerable.sound lineOf lowerable.proper lowerable.known
  refine ⟨?_, ?_, ?_⟩
  · have length := width_le_codeBytes pool fun s member => (labelled.generated s member).usual few
    have size : main.code.size =
        (codeBytes pool (program.code vars lineOf ++ [Step.insn .ret])).length := by
      rw [← Array.length_toList, assembled.did.code]
      rfl
    rw [width_append] at length
    rw [size]
    exact (Nat.le_add_right _ _).trans length
  · rw [assembled.did.maxLocals]
    rw [Program.code, List.append_assoc] at labelled ⊢
    exact mainCode_slots rfl labelled
  · rw [Program.code, width_append, width_prologueCode]
    exact Nat.le_add_right _ _

/-- The main method keeps within the limits of the format. -/
theorem Program.Analyzed.finished {code : Bytes} {analysis : Analysis}
    (analyzed : program.Analyzed vars lineOf main pool code analysis)
    (assembled : program.Assembled vars lineOf main pool) (lowerable : program.Lowerable vars)
    (few : vars.size ≤ 65535) (resolved : main.resolve = .ok code) :
    main.Finished pool code analysis := by
  obtain ⟨wide, slots, vast⟩ := assembled.room lowerable few
  obtain ⟨size, short⟩ := Method.resolve_length resolved
  have init : main.init = [mainArgument] := assembled.did.signature.2.2.2
  have depth := analyzed.depth
  refine ⟨resolved, ?_, by omega, by omega⟩
  rw [init, slots]
  exact analyzed.analyzed

def Program.requests (program : Program) (vars : Variables) (lineOf : Option (Span → Nat))
    (draft : Draft) : List Request :=
  classRequests draft.name draft.super draft.sourceFile
    (program.code vars lineOf ++ [Step.insn .ret])

/-- What is known of the class of a program whose code is finished. -/
structure Program.Written (program : Program) (vars : Variables) (lineOf : Option (Span → Nat))
    (main : Method) (pool : Pool) (draft : Draft) (code : Bytes) (analysis : Analysis) : Prop where
  assembled : program.Assembled vars lineOf main draft.namedPool
  extends_ : pool.Extends draft.namedPool
  analyzed : program.Analyzed vars lineOf main draft.namedPool code analysis
  within : (draft.lastPool main code analysis).Within (program.requests vars lineOf draft)
  finished : main.Finished draft.namedPool code analysis
  method : draft.methods = #[main]

theorem Program.Written.bytes {draft : Draft} {code : Bytes} {analysis : Analysis}
    (written : program.Written vars lineOf main pool draft code analysis) :
    draft.bytes = .ok (draft.around (draft.lastPool main code analysis)
      [(draft.methodPart main code analysis).1]
      (draft.sourcePart (draft.methodPart main code analysis).2).1) :=
  (Draft.bytes_one written.method written.finished written.within.fits).2.2

section

variable (lowerable : program.Lowerable vars)
  (steps : mainStart.steps {} (program.code vars lineOf ++ [Step.insn .ret]) = .ok (main, pool))
include lowerable steps

/-- Code that is not too large leaves room in the pool. -/
private theorem Program.Lowerable.within (short : main.code.size ≤ 65535) (draft : Draft) :
    ((program.requests vars lineOf draft).map Request.cost).sum < Pool.limit ∧
      pool.Within (program.requests vars lineOf draft) := by
  have labelled := Program.labelled lowerable.sound lineOf lowerable.proper lowerable.known
  have room : ((program.requests vars lineOf draft).map Request.cost).sum < Pool.limit := by
    have numbers := Method.steps_numbers steps
    rw [Program.requests, classRequests_cost, Pool.limit]
    omega
  exact ⟨room, Method.steps_within room
    (fun s member => (labelled.generated s member).asked member _ _ _) (Pool.within_empty _) steps⟩

theorem Program.Lowerable.assembled (short : main.code.size ≤ 65535) :
    program.Assembled vars lineOf main pool := by
  obtain ⟨-, within⟩ := lowerable.within steps short { name := [] }
  exact Program.assembled steps within.sound (.refl pool) within.fits

/-- Code that keeps within the limits of the format can be finished. -/
theorem Program.Lowerable.resolves (short : main.code.size ≤ 65535) (near : main.Near) :
    ∃ code, main.resolve = .ok code :=
  (lowerable.assembled steps short).resolves lowerable short near

/-- A program whose code is finished has a class file, whatever the names in it. -/
theorem Program.Lowerable.written (few : vars.size ≤ 65535) {code : Bytes}
    (resolved : main.resolve = .ok code) {draft : Draft} (same : draft.pool = pool)
    (method : draft.methods = #[main]) :
    ∃ analysis, program.Written vars lineOf main pool draft code analysis := by
  have short : main.code.size ≤ 65535 := by
    by_contra large
    rw [Method.resolve, if_pos (by omega)] at resolved
    cases resolved
  obtain ⟨room, within⟩ := lowerable.within steps short draft
  have self := within.classRef room draft.name (by simp [Program.requests, classRequests])
  have named : draft.namedPool.Within (program.requests vars lineOf draft) := by
    rw [Draft.namedPool, same]
    exact self.classRef room _ (by simp [Program.requests, classRequests])
  have extends_ : pool.Extends draft.namedPool := by
    rw [Draft.namedPool, same]
    exact ((Pool.interns_classRef draft.name).grows pool within.sound).trans
      ((Pool.interns_classRef draft.super).grows _ self.sound)
  have assembled := Program.assembled steps named.sound extends_ named.fits
  obtain ⟨analysis, analyzed⟩ := assembled.analyzes lowerable few resolved
  have texts : main.texts ⊆ program.requests vars lineOf draft := by
    obtain ⟨-, name, descriptor, -⟩ := assembled.did.signature
    have same : main.texts = mainStart.texts := by rw [Method.texts, name, descriptor, Method.texts]
    rw [same]
    intro r member
    simp [Program.requests, classRequests, member]
  have asked : ∀ frame ∈ analysis.frames, ∀ type ∈ frame.locals ++ frame.stack,
      ∀ r, type.request? = some r → r ∈ program.requests vars lineOf draft := by
    intro frame member type inside r asks
    rcases analyzed.frame_plain lowerable few member type inside with rfl | rfl | rfl <;> cases asks
    · simp [Program.requests, classRequests]
    · simp [Program.requests, classRequests]
  have last := Draft.lastPool_within code room named texts asked
    (by simp [Program.requests, classRequests]) (by simp [Program.requests, classRequests])
  exact ⟨analysis, assembled, extends_, analyzed, last,
    analyzed.finished assembled lowerable few resolved, method⟩

end

end

end Minilang
