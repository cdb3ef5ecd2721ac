import Mathlib.Algebra.Order.Ring.Nat
import Minilang.Proofs.Decoding
import Minilang.Proofs.StepEncoding
import Minilang.Proofs.TypeAnalysis

/-! Assembled method bodies. The code of a list of steps is the bytes of the steps one after
another, a label stands where the bytes before it end, and decoding the finished code gives one
instruction for each step that is not a mark or a line. -/

namespace Minilang.ClassFile

namespace Step

theorem poolAfter_grows {pool : Pool} (sound : pool.Sound) (s : Step) :
    (s.poolAfter pool).Sound ∧ pool.Extends (s.poolAfter pool) := by
  cases s with
  | push value =>
    have grown : (Method.pushBytes pool value).2 = pool ∨
        (Method.pushBytes pool value).2 = (pool.integer value).2 := by
      unfold Method.pushBytes
      simp only
      split
      · exact .inl rfl
      · split
        · exact .inl rfl
        · split
          · exact .inl rfl
          · split <;> exact .inr rfl
    simp only [poolAfter]
    rcases grown with same | same <;> rw [same]
    · exact ⟨sound, .refl pool⟩
    · exact ⟨(Pool.interns_integer value).sound pool sound,
        (Pool.interns_integer value).grows pool sound⟩
  | classOperand op name =>
    exact ⟨(Pool.interns_classRef name).sound pool sound,
      (Pool.interns_classRef name).grows pool sound⟩
  | fieldOperand op ref =>
    exact ⟨(Pool.interns_field ref).sound pool sound, (Pool.interns_field ref).grows pool sound⟩
  | methodOperand op ref =>
    exact ⟨(Pool.interns_method ref).sound pool sound, (Pool.interns_method ref).grows pool sound⟩
  | insn | localVar | jump | mark | line | nops => exact ⟨sound, .refl pool⟩

/-- Later pools give a step the same bytes. -/
theorem stable {pool larger : Pool} (sound : pool.Sound) (whole : larger.Sound) {s : Step}
    (extends_ : (s.poolAfter pool).Extends larger) (fits : larger.overflowed = false) :
    s.bytes larger = s.bytes pool ∧ s.poolAfter larger = larger := by
  cases s with
  | push value =>
    simp only [poolAfter, bytes] at extends_ ⊢
    unfold Method.pushBytes at extends_ ⊢
    simp only at extends_ ⊢
    split at extends_
    next tiny => simp [tiny]
    next tiny =>
      split at extends_
      next small => simp [tiny, small]
      next small =>
        split at extends_
        next short => simp [tiny, small, short]
        next short =>
          have grown : (pool.integer value).2.Extends larger := by
            split at extends_ <;> exact extends_
          rw [(Pool.interns_integer value).stable pool larger sound whole grown fits]
          simp only [tiny, small, short, if_false]
          split <;> exact ⟨rfl, rfl⟩
  | classOperand op name =>
    simp only [poolAfter, bytes] at extends_ ⊢
    simp [(Pool.interns_classRef name).stable pool larger sound whole extends_ fits]
  | fieldOperand op ref =>
    simp only [poolAfter, bytes] at extends_ ⊢
    simp [(Pool.interns_field ref).stable pool larger sound whole extends_ fits]
  | methodOperand op ref =>
    simp only [poolAfter, bytes] at extends_ ⊢
    simp [(Pool.interns_method ref).stable pool larger sound whole extends_ fits]
  | insn | localVar | jump | mark | line | nops => exact ⟨rfl, rfl⟩

end Step

namespace Step

/-- The jump of a step at an offset. -/
def jumps (offset : Nat) : Step → List Jump
  | .jump _ label => [⟨label, offset⟩]
  | _ => []

/-- How many locals a step needs. -/
def slots : Step → Nat
  | .localVar _ slot => slot.toNat + 1
  | _ => 0

/-- The label that a step marks. -/
def marked? : Step → Option Nat
  | .mark label => some label
  | _ => none

end Step

/-- The bytes of steps before jumps are patched. -/
def codeBytes (pool : Pool) (steps : List Step) : Bytes := steps.flatMap (Step.bytes pool)

@[simp] theorem codeBytes_nil (pool : Pool) : codeBytes pool [] = [] := rfl

@[simp] theorem codeBytes_cons (pool : Pool) (s : Step) (rest : List Step) :
    codeBytes pool (s :: rest) = s.bytes pool ++ codeBytes pool rest := List.flatMap_cons

@[simp] theorem codeBytes_append (pool : Pool) (first second : List Step) :
    codeBytes pool (first ++ second) = codeBytes pool first ++ codeBytes pool second :=
  List.flatMap_append

/-- The jumps of steps that start at an offset. -/
def jumpsFrom (pool : Pool) : Nat → List Step → List Jump
  | _, [] => []
  | offset, s :: rest => s.jumps offset ++ jumpsFrom pool (offset + (s.bytes pool).length) rest

/-- The finished bytes of steps that start at an offset. -/
def layout (pool : Pool) (target : Nat → Option Nat) : Nat → List Step → Bytes
  | _, [] => []
  | offset, s :: rest =>
      s.placed pool target offset ++ layout pool target (offset + (s.bytes pool).length) rest

/-- Every jump of steps that start at an offset is in reach of its label. -/
def AllReach (pool : Pool) (target : Nat → Option Nat) : Nat → List Step → Prop
  | _, [] => True
  | offset, s :: rest =>
      s.Reaches target offset ∧ AllReach pool target (offset + (s.bytes pool).length) rest

namespace Method

/-- What assembling one step changes in a method. -/
structure Did (pool : Pool) (s : Step) (before after : Method) : Prop where
  code : after.code.toList = before.code.toList ++ s.bytes pool
  jumps : after.jumps.toList = before.jumps.toList ++ s.jumps before.offset
  labels : ∀ label : Nat, after.labels[label]? =
    if s.marked? = some label then some before.offset else before.labels[label]?
  new : ∀ label, s.marked? = some label → before.labels[label]? = none
  maxLocals : after.maxLocals = max before.maxLocals s.slots
  signature : after.access = before.access ∧ after.name = before.name ∧
    after.descriptor = before.descriptor ∧ after.init = before.init

private theorem addLine_did (pool : Pool) (method : Method) (number : Int) :
    Did pool (.line number) method (method.addLine number) := by
  have same : ∀ (lines : Array LineEntry) (last : Int),
      Did pool (.line number) method { method with lines, lastLine := last } := fun lines last =>
    ⟨by simp [Step.bytes], by simp [Step.jumps], by simp [Step.marked?], by simp [Step.marked?],
      by simp [Step.slots], rfl, rfl, rfl, rfl⟩
  unfold addLine
  split
  · exact same _ _
  · simp only
    split
    · exact same _ _
    · split <;> exact same _ _

private theorem emit_did {pool : Pool} {s : Step} (method : Method)
    (jumps : ∀ offset, s.jumps offset = []) (slots : s.slots = 0) (marks : s.marked? = none) :
    Did pool s method (method.emit (s.bytes pool)) :=
  ⟨by simp [emit], by simp [emit, jumps], by simp [emit, marks], by simp [marks],
    by simp [emit, slots], rfl, rfl, rfl, rfl⟩

theorem step_did {method after : Method} {pool next : Pool} {s : Step}
    (stepped : method.step pool s = .ok (after, next)) :
    next = s.poolAfter pool ∧ Did pool s method after := by
  cases s with
  | insn op | nops count | push value | classOperand op name | fieldOperand op ref
  | methodOperand op ref =>
    simp only [step, Except.ok.injEq, Prod.mk.injEq] at stepped
    obtain ⟨rfl, rfl⟩ := stepped
    exact ⟨rfl, emit_did method (fun _ => rfl) rfl rfl⟩
  | localVar op slot =>
    simp only [step] at stepped
    split at stepped
    · cases stepped
    · split at stepped
      · cases stepped
      · cases stepped
        exact ⟨rfl, by simp [emit, Step.bytes], by simp [emit, Step.jumps],
          by simp [emit, Step.marked?], by simp [Step.marked?], by simp [emit, Step.slots],
          rfl, rfl, rfl, rfl⟩
  | jump op label =>
    simp only [step] at stepped
    split at stepped
    · cases stepped
    · cases stepped
      exact ⟨rfl, by simp [emit, Step.bytes], by simp [emit, Step.jumps],
        by simp [emit, Step.marked?], by simp [Step.marked?], by simp [emit, Step.slots],
        rfl, rfl, rfl, rfl⟩
  | mark label =>
    simp only [step] at stepped
    split at stepped
    · cases stepped
    next new =>
      cases stepped
      refine ⟨rfl, by simp [Step.bytes], by simp [Step.jumps], ?_, ?_, by simp [Step.slots],
        rfl, rfl, rfl, rfl⟩
      · intro other
        simp [Step.marked?, Std.HashMap.getElem?_insert]
      · intro other marks
        cases marks
        simpa using new
  | line number =>
    cases stepped
    exact ⟨rfl, addLine_did pool method number⟩

/-- A regular step can be assembled, unless it marks a label again. -/
theorem step_ok (method : Method) (pool : Pool) {s : Step} (regular : s.Regular)
    (new : ∀ label, s.marked? = some label → method.labels[label]? = none) :
    ∃ after next, method.step pool s = .ok (after, next) := by
  cases s with
  | insn | push | classOperand | fieldOperand | methodOperand | line | nops => exact ⟨_, _, rfl⟩
  | localVar op slot =>
    obtain ⟨moves, low, high⟩ := regular
    have range : ¬ (slot < 0 ∨ 65535 < slot) := by omega
    simp only [step, moves, Bool.not_true, Bool.false_eq_true, if_false, range]
    exact ⟨_, _, rfl⟩
  | jump op label =>
    have branch : op.isBranch = true := regular
    simp only [step, branch, Bool.not_true, Bool.false_eq_true, if_false]
    exact ⟨_, _, rfl⟩
  | mark label =>
    have unbound : method.labels.contains label = false := by
      have none := new label rfl
      rw [Std.HashMap.contains_eq_isSome_getElem?, none]
      rfl
    simp only [step, unbound, Bool.false_eq_true, if_false]
    exact ⟨_, _, rfl⟩

/-- What assembling steps changes in a method, in the terms of a later pool. -/
structure DidAll (pool : Pool) (steps : List Step) (before after : Method) : Prop where
  code : after.code.toList = before.code.toList ++ codeBytes pool steps
  jumps : after.jumps.toList = before.jumps.toList ++ jumpsFrom pool before.offset steps
  kept : ∀ (label : Nat) place, before.labels[label]? = some place →
    after.labels[label]? = some place
  marks : ∀ first label rest, steps = first ++ .mark label :: rest →
    after.labels[label]? = some (before.offset + (codeBytes pool first).length)
  maxLocals : after.maxLocals = steps.foldl (fun n s => max n s.slots) before.maxLocals
  signature : after.access = before.access ∧ after.name = before.name ∧
    after.descriptor = before.descriptor ∧ after.init = before.init

private theorem jumpsFrom_append (pool : Pool) (offset : Nat) (first second : List Step) :
    jumpsFrom pool offset (first ++ second) =
      jumpsFrom pool offset first ++ jumpsFrom pool (offset + (codeBytes pool first).length) second := by
  induction first generalizing offset with
  | nil => rfl
  | cons s rest ih =>
    simp only [List.cons_append, jumpsFrom, ih, codeBytes_cons, List.length_append,
      List.append_assoc, Nat.add_assoc]

theorem Did.one {pool : Pool} {s : Step} {before after : Method} (did : Did pool s before after) :
    DidAll pool [s] before after where
  code := by simp [did.code]
  jumps := by simp [did.jumps, jumpsFrom]
  kept := by
    intro label place found
    rw [did.labels label, if_neg]
    · exact found
    · intro marks
      rw [did.new label marks] at found
      cases found
  marks := by
    intro first label rest same
    cases first with
    | nil =>
      cases same
      rw [did.labels label]
      simp [Step.marked?]
    | cons head first => simp at same
  maxLocals := did.maxLocals
  signature := did.signature

theorem DidAll.append {pool : Pool} {first second : List Step} {before middle after : Method}
    (start : DidAll pool first before middle) (rest : DidAll pool second middle after) :
    DidAll pool (first ++ second) before after := by
  have offset : middle.offset = before.offset + (codeBytes pool first).length := by
    simp only [Method.offset, ← Array.length_toList, start.code, List.length_append]
  refine ⟨?_, ?_, fun label place found => rest.kept label place (start.kept label place found), ?_,
    ?_, ?_⟩
  · rw [rest.code, start.code, codeBytes_append, List.append_assoc]
  · rw [rest.jumps, start.jumps, offset, jumpsFrom_append, List.append_assoc]
  · intro front label back same
    rcases List.append_eq_append_iff.mp same with ⟨more, rfl, behind⟩ | ⟨more, inside, behind⟩
    · rw [rest.marks more label back behind, offset, codeBytes_append, List.length_append,
        Nat.add_assoc]
    · cases more with
      | nil =>
        rw [List.append_nil] at inside
        rw [rest.marks [] label back behind.symm, offset, inside]
        rfl
      | cons head more =>
        obtain ⟨rfl, -⟩ := List.cons.inj behind
        exact rest.kept label _ (start.marks front label more inside)
  · rw [rest.maxLocals, start.maxLocals, List.foldl_append]
  · obtain ⟨access, name, descriptor, init⟩ := start.signature
    rw [← access, ← name, ← descriptor, ← init]
    exact rest.signature

theorem steps_did {method after : Method} {pool next : Pool} {steps : List Step}
    (sound : pool.Sound) (assembled : method.steps pool steps = .ok (after, next)) :
    next.Sound ∧ pool.Extends next ∧ ∀ larger : Pool, larger.Sound → next.Extends larger →
      larger.overflowed = false →
        DidAll larger steps method after ∧ ∀ s ∈ steps, s.poolAfter larger = larger := by
  induction steps generalizing method pool with
  | nil =>
    cases assembled
    refine ⟨sound, .refl _, fun larger _ _ _ => ⟨⟨by simp, by simp [jumpsFrom], fun _ _ => id, ?_,
      rfl, rfl, rfl, rfl, rfl⟩, by simp⟩⟩
    intro first label rest same
    simp at same
  | cons s rest ih =>
    simp only [Method.steps] at assembled
    split at assembled
    · cases assembled
    next middle grown stepped =>
      obtain ⟨rfl, did⟩ := step_did stepped
      obtain ⟨soundAfter, grows⟩ := s.poolAfter_grows sound
      obtain ⟨soundLast, more, all⟩ := ih soundAfter assembled
      refine ⟨soundLast, grows.trans more, fun larger whole extends_ fits => ?_⟩
      obtain ⟨didAll, kept⟩ := all larger whole extends_ fits
      obtain ⟨bytes, stays⟩ := Step.stable sound whole (more.trans extends_) fits
      have didHere : Did larger s method middle :=
        { did with code := by rw [did.code, bytes] }
      exact ⟨didHere.one.append didAll, List.forall_mem_cons.mpr ⟨stays, kept⟩⟩

/-- How patching ends: all jumps are in reach of their labels, or the first that is not is named. -/
theorem patch_cases (labels : Std.HashMap Nat Nat) (jumps : List Jump) (code : Array UInt8) :
    ((∃ done, patch labels jumps code = .ok done) ∧
      ∀ jump ∈ jumps, ∀ place : Nat, labels[jump.label]? = some place →
        -32768 ≤ (place : Int) - jump.offset ∧ (place : Int) - jump.offset ≤ 32767) ∨
    (∃ jump ∈ jumps, labels[jump.label]? = none) ∨
    ∃ jump ∈ jumps, patch labels jumps code = .error (.tooFar jump.offset) ∧
      ∃ place : Nat, labels[jump.label]? = some place ∧
        ¬ (-32768 ≤ (place : Int) - jump.offset ∧ (place : Int) - jump.offset ≤ 32767) := by
  induction jumps generalizing code with
  | nil => exact .inl ⟨⟨code, rfl⟩, by simp⟩
  | cons jump rest ih =>
    rw [patch]
    cases found : labels[jump.label]? with
    | none => exact .inr (.inl ⟨jump, List.mem_cons_self, found⟩)
    | some place =>
      by_cases far : (place : Int) - jump.offset < -32768 ∨ 32767 < (place : Int) - jump.offset
      · simp only [far, if_true]
        exact .inr (.inr ⟨jump, List.mem_cons_self, rfl, place, found, by omega⟩)
      · simp only [far, if_false]
        rcases ih _ with ⟨done, near⟩ | ⟨other, member, unbound⟩ | ⟨other, member, stops, bad⟩
        · refine .inl ⟨done, fun other member => ?_⟩
          rcases List.mem_cons.mp member with rfl | member
          · intro place' found'
            obtain rfl : place = place' := Option.some.inj (found.symm.trans found')
            omega
          · exact near other member
        · exact .inr (.inl ⟨other, List.mem_cons_of_mem _ member, unbound⟩)
        · exact .inr (.inr ⟨other, List.mem_cons_of_mem _ member, stops, bad⟩)

private theorem set_operand (done : Bytes) (op high low : UInt8) (rest : Bytes) :
    ((done ++ [op, 0, 0] ++ rest).toArray.setIfInBounds (done.length + 1) high).setIfInBounds
      (done.length + 2) low = (done ++ [op, high, low] ++ rest).toArray := by
  simp

/-- Patching the jumps of steps behind finished code succeeds exactly when they are in reach. -/
private theorem patch_eq_ok (pool : Pool) (labels : Std.HashMap Nat Nat) (steps : List Step)
    (done : Bytes) (code : Array UInt8) :
    patch labels (jumpsFrom pool done.length steps) (done ++ codeBytes pool steps).toArray =
        .ok code ↔
      AllReach pool (labels[·]?) done.length steps ∧
        code = (done ++ layout pool (labels[·]?) done.length steps).toArray := by
  induction steps generalizing done with
  | nil => simp [jumpsFrom, patch, AllReach, layout, eq_comm]
  | cons s rest ih =>
    -- What is finished grows by the bytes of the first step.
    have grown := ih (done ++ s.placed pool (labels[·]?) done.length)
    rw [List.length_append, Step.length_placed, List.append_assoc, List.append_assoc] at grown
    simp only [jumpsFrom, codeBytes_cons, AllReach, layout]
    cases s with
    | jump op label =>
      simp only [Step.jumps, List.cons_append, List.nil_append, patch, Step.Reaches]
      cases found : labels[label]? with
      | none => simp
      | some place =>
        simp only [Option.some.injEq, exists_eq_left']
        split
        next far =>
          simp only [reduceCtorEq, false_iff]
          omega
        next near =>
          have patched := set_operand done op.byte
            ((((place : Int) - done.length) % 65536).toNat / 256).toUInt8
            (((place : Int) - done.length) % 65536).toNat.toUInt8 (codeBytes pool rest)
          simp only [Step.placed, found, Option.getD_some] at grown ⊢
          rw [← List.append_assoc]
          simp only [Step.bytes]
          rw [patched, List.append_assoc]
          have reach : -32768 ≤ (place : Int) - done.length ∧ (place : Int) - done.length ≤ 32767 := by
            omega
          simp only [reach, and_self, true_and]
          exact grown
    | insn | push | localVar | mark | classOperand | fieldOperand | methodOperand | line | nops =>
      simpa [Step.jumps, Step.Reaches, Step.placed] using grown

/-- The code of an assembled method can be finished exactly when it is not too large and every
jump is in reach, and then it is the layout of its steps. -/
theorem resolve_eq_ok {pool : Pool} {steps : List Step} {start method : Method}
    (did : DidAll pool steps start method) (code : start.code = #[]) (jumps : start.jumps = #[])
    {bytes : Bytes} :
    method.resolve = .ok bytes ↔ method.code.size ≤ 65535 ∧
      AllReach pool (method.labels[·]?) 0 steps ∧
      bytes = layout pool (method.labels[·]?) 0 steps := by
  have raw : method.code = ([] ++ codeBytes pool steps).toArray := by
    rw [← Array.toList_inj, did.code, code]
  have all : method.jumps.toList = jumpsFrom pool ([] : Bytes).length steps := by
    rw [did.jumps, jumps, Method.offset, code]
    rfl
  rw [resolve]
  split
  next large =>
    simp only [reduceCtorEq, false_iff]
    omega
  next fits =>
    have patched := patch_eq_ok pool method.labels steps []
    rw [all, raw]
    cases outcome : patch method.labels (jumpsFrom pool ([] : Bytes).length steps)
        ([] ++ codeBytes pool steps).toArray with
    | error fault =>
      simp only [Except.map, reduceCtorEq, false_iff]
      rintro ⟨-, reach, -⟩
      have succeeds := (patched _).mpr ⟨reach, rfl⟩
      rw [outcome] at succeeds
      cases succeeds
    | ok result =>
      obtain ⟨reach, rfl⟩ := (patched result).mp outcome
      have small : (codeBytes pool steps).length ≤ 65535 := by
        rw [raw] at fits
        simpa using fits
      simpa [Except.map, small, eq_comm] using fun _ => reach

end Method

/-- Instructions that mean the steps of a list, which start at an offset. -/
inductive Decoded (pool : Pool) (target : Nat → Option Nat) : Nat → List Step → List Insn → Prop where
  | nil {offset : Nat} : Decoded pool target offset [] []
  | silent {offset : Nat} {s : Step} {steps : List Step} {insns : List Insn} (size : s.size = 0)
      (bytes : s.bytes pool = []) (rest : Decoded pool target offset steps insns) :
      Decoded pool target offset (s :: steps) insns
  | insn {offset : Nat} {s : Step} {steps : List Step} {insn : Insn} {insns : List Insn}
      (size : s.size = 1) (start : insn.offset = offset)
      (length : insn.length = (s.bytes pool).length) (means : s.Means pool target insn.action)
      (rest : Decoded pool target (offset + insn.length) steps insns) :
      Decoded pool target offset (s :: steps) (insn :: insns)

/-- How many instructions there are in a list of steps. -/
def width (steps : List Step) : Nat := (steps.map Step.size).sum

theorem Step.Usual.size {s : Step} (usual : s.Usual) (pool : Pool) :
    s.size = 1 ∨ s.size = 0 ∧ s.bytes pool = [] := by
  cases s <;> first | exact .inl rfl | exact .inr ⟨rfl, rfl⟩ | exact usual.elim

/-- Decoding goes on behind the instruction of a step. -/
theorem Step.Encodes.decodeLoop {pool : Pool} {target : Nat → Option Nat} {offset : Nat} {s : Step}
    {insn : Insn} (encodes : s.Encodes pool target offset insn) (code : Bytes) (done : Array Insn) :
    decodeLoop offset (s.placed pool target offset ++ code) done =
      decodeLoop (offset + (s.bytes pool).length) code (done.push insn) := by
  obtain ⟨-, length, first, operand, placed, decoded⟩ := encodes
  obtain ⟨shorter, next⟩ := decoded code
  rw [placed, List.cons_append, ClassFile.decodeLoop]
  simp only [next, length]

/-- Decoding the layout of steps gives their instructions. -/
theorem decodeLoop_layout {pool : Pool} {target : Nat → Option Nat} (sound : pool.Sound)
    (fits : pool.overflowed = false) {steps : List Step} (usual : ∀ s ∈ steps, s.Usual)
    (kept : ∀ s ∈ steps, s.poolAfter pool = pool) {offset : Nat}
    (reach : AllReach pool target offset steps) (done : Array Insn) :
    ∃ insns, decodeLoop offset (layout pool target offset steps) done =
        .ok (done ++ insns.toArray) ∧ Decoded pool target offset steps insns := by
  induction steps generalizing offset done with
  | nil =>
    refine ⟨[], ?_, .nil⟩
    rw [layout, decodeLoop]
    simp
  | cons s rest ih =>
    obtain ⟨reaches, reachRest⟩ := reach
    obtain ⟨usualHere, usualRest⟩ := List.forall_mem_cons.mp usual
    obtain ⟨keptHere, keptRest⟩ := List.forall_mem_cons.mp kept
    have more := ih usualRest keptRest reachRest
    rw [layout]
    rcases usualHere.size pool with one | ⟨none, empty⟩
    · obtain ⟨insn, encodes, becomes⟩ := Step.realized usualHere.regular one reaches
      have means := becomes.means sound fits usualHere keptHere
      obtain ⟨insns, loop, all⟩ := more (done.push insn)
      refine ⟨insn :: insns, ?_, .insn one encodes.1 encodes.2.1 means (by rw [encodes.2.1]; exact all)⟩
      rw [encodes.decodeLoop, loop]
      simp
    · have silent : s.placed pool target offset = [] := by
        rw [List.eq_nil_iff_length_eq_zero, Step.length_placed, empty]
        rfl
      rw [empty] at more ⊢
      obtain ⟨insns, loop, all⟩ := more done
      rw [silent]
      exact ⟨insns, loop, .silent none empty all⟩

@[simp] theorem width_nil : width [] = 0 := rfl

@[simp] theorem width_cons (s : Step) (steps : List Step) :
    width (s :: steps) = s.size + width steps := List.sum_cons

@[simp] theorem width_append (first second : List Step) :
    width (first ++ second) = width first + width second := by
  simp [width]

theorem Decoded.length {pool : Pool} {target : Nat → Option Nat} {offset : Nat}
    {steps : List Step} {insns : List Insn} (decoded : Decoded pool target offset steps insns) :
    insns.length = width steps := by
  induction decoded with
  | nil => rfl
  | silent size _ _ ih => rw [width_cons, size, ih, Nat.zero_add]
  | insn size _ _ _ _ ih => rw [width_cons, size, List.length_cons, ih, Nat.add_comm]

/-- The instruction of a step stands behind those of the steps before it. -/
theorem Decoded.at {pool : Pool} {target : Nat → Option Nat} {offset : Nat} {first : List Step}
    {s : Step} {rest : List Step} {insns : List Insn}
    (decoded : Decoded pool target offset (first ++ s :: rest) insns) (one : s.size = 1) :
    ∃ insn, insns[width first]? = some insn ∧
      insn.offset = offset + (codeBytes pool first).length ∧ s.Means pool target insn.action := by
  induction first generalizing offset insns with
  | nil =>
    cases decoded with
    | silent size _ _ => rw [size] at one; cases one
    | insn _ start _ means _ => exact ⟨_, rfl, start, means⟩
  | cons head first ih =>
    cases decoded with
    | silent size bytes rest =>
      obtain ⟨insn, found, start, means⟩ := ih rest
      refine ⟨insn, ?_, ?_, means⟩
      · rw [width_cons, size, Nat.zero_add, found]
      · rw [start, codeBytes_cons, bytes, List.nil_append]
    | insn size start length _ rest =>
      obtain ⟨insn, found, there, means⟩ := ih rest
      refine ⟨insn, ?_, ?_, means⟩
      · rw [width_cons, size, Nat.add_comm, List.getElem?_cons_succ, found]
      · rw [there, codeBytes_cons, length, List.length_append, Nat.add_assoc]

end Minilang.ClassFile
