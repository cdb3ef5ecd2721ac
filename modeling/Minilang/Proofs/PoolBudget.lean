import Mathlib.Algebra.Order.BigOperators.Group.List
import Mathlib.Data.List.Perm.Subperm
import Minilang.ClassFile.Writer
import Minilang.Proofs.CodeLayout

/-! How large a constant pool can grow. Whatever is asked of a pool a second time is already there,
so a pool never holds more than one copy of everything that is asked of it. -/

namespace Minilang.ClassFile

namespace Request

private theorem mem_classRef {pool : Pool} {name text : Bytes}
    (member : .utf8 text ∈ (pool.classRef name).2.entries.toList) :
    .utf8 text ∈ pool.entries.toList ∨ text = name := by
  rw [Pool.classRef_eq] at member
  rcases Pool.mem_intern member with before | wrong
  swap
  · cases wrong
  rcases Pool.mem_intern before with before | same
  · exact .inl before
  · exact .inr (Constant.utf8.inj same)

private theorem mem_nameAndType {pool : Pool} {name descriptor text : Bytes}
    (member : .utf8 text ∈ (pool.nameAndType name descriptor).2.entries.toList) :
    .utf8 text ∈ pool.entries.toList ∨ text = name ∨ text = descriptor := by
  rw [Pool.nameAndType_eq] at member
  rcases Pool.mem_intern member with before | wrong
  swap
  · cases wrong
  rcases Pool.mem_intern before with before | same
  · rcases Pool.mem_intern before with before | same
    · exact .inl before
    · exact .inr (.inl (Constant.utf8.inj same))
  · exact .inr (.inr (Constant.utf8.inj same))

private theorem mem_memberRef {make : UInt16 → UInt16 → Constant} {ref : MemberRef} {pool : Pool}
    {text : Bytes} (other : ∀ i j, make i j ≠ .utf8 text)
    (member : .utf8 text ∈ (Pool.memberRef make ref pool).2.entries.toList) :
    .utf8 text ∈ pool.entries.toList ∨ text ∈ [ref.owner, ref.name, ref.descriptor] := by
  rw [Pool.memberRef] at member
  rcases Pool.mem_intern member with before | same
  · rcases mem_nameAndType before with before | named
    · rcases mem_classRef before with before | owner
      · exact .inl before
      · exact .inr (by simp [owner])
    · rcases named with same | same <;> exact .inr (by simp [same])
  · exact absurd same.symm (other _ _)

/-- A request adds no other texts than its own. -/
theorem mem_run {request : Request} {pool : Pool} {text : Bytes}
    (member : .utf8 text ∈ (request.run pool).2.entries.toList) :
    .utf8 text ∈ pool.entries.toList ∨ text ∈ request.texts := by
  cases request with
  | text value =>
    rcases Pool.mem_intern member with before | same
    · exact .inl before
    · exact .inr (by simp [texts, Constant.utf8.inj same])
  | number value =>
    rcases Pool.mem_intern member with before | wrong
    · exact .inl before
    · cases wrong
  | className name =>
    rcases mem_classRef member with before | same
    · exact .inl before
    · exact .inr (by simp [texts, same])
  | string value =>
    rw [run, Pool.string_eq] at member
    rcases Pool.mem_intern member with before | wrong
    swap
    · cases wrong
    rcases Pool.mem_intern before with before | same
    · exact .inl before
    · exact .inr (by simp [texts, Constant.utf8.inj same])
  | nameAndType name descriptor =>
    rcases mem_nameAndType member with before | same
    · exact .inl before
    · exact .inr (by simpa [texts] using same)
  | field ref =>
    rw [run, Pool.field_eq] at member
    exact mem_memberRef (fun _ _ wrong => by cases wrong) member
  | method ref =>
    rw [run, Pool.method_eq] at member
    exact mem_memberRef (fun _ _ wrong => by cases wrong) member

end Request

namespace Pool

/-- A pool that was asked for nothing but some of `all`, each of which it holds. -/
structure Within (all : List Request) (pool : Pool) : Prop where
  sound : pool.Sound
  fits : pool.overflowed = false
  named : ∀ text, .utf8 text ∈ pool.entries.toList → ∃ request ∈ all, text ∈ request.texts
  counted : ∃ done : List Request, done.Nodup ∧ done ⊆ all ∧
    pool.entries.size ≤ (done.map Request.cost).sum ∧ ∀ r ∈ done, (r.run pool).2 = pool

theorem within_empty (all : List Request) : Within all {} :=
  ⟨sound_empty, rfl, nofun, [], List.nodup_nil, List.nil_subset all, Nat.le_refl 0, nofun⟩

private theorem cost_le {done all : List Request} (once : done.Nodup) (inside : done ⊆ all) :
    (done.map Request.cost).sum ≤ (all.map Request.cost).sum := by
  obtain ⟨middle, same, part⟩ := List.subperm_of_subset once inside
  calc (done.map Request.cost).sum
      = (middle.map Request.cost).sum := ((same.map Request.cost).sum_eq).symm
    _ ≤ (all.map Request.cost).sum :=
      (part.map Request.cost).sum_le_sum fun _ _ => Nat.zero_le _

theorem Within.run {all : List Request} {pool : Pool} (within : pool.Within all)
    (room : (all.map Request.cost).sum < limit) {request : Request} (member : request ∈ all) :
    (request.run pool).2.Within all := by
  obtain ⟨done, once, inside, size, held⟩ := within.counted
  by_cases again : request ∈ done
  · rw [held request again]
    exact within
  · have fresh : (request :: done).Nodup := List.nodup_cons.mpr ⟨again, once⟩
    have still : request :: done ⊆ all := List.cons_subset.mpr ⟨member, inside⟩
    have bound := cost_le fresh still
    rw [List.map_cons, List.sum_cons] at bound
    have interns := request.interns
    have sound := interns.sound pool within.sound
    have grows := interns.grows pool within.sound
    have fits := interns.fits pool within.fits (by omega)
    have grown := interns.size pool
    refine ⟨sound, fits, ?_, request :: done, fresh, still, ?_, ?_⟩
    · intro text there
      rcases Request.mem_run there with before | new
      · exact within.named text before
      · exact ⟨request, member, new⟩
    · rw [List.map_cons, List.sum_cons]
      omega
    · intro other known
      rcases List.mem_cons.mp known with rfl | older
      · rw [interns.stable pool _ within.sound sound (.refl _) fits]
      · have back : (other.run pool).2.Extends (request.run pool).2 := by
          rw [held other older]
          exact grows
        rw [other.interns.stable pool _ within.sound sound back fits]

theorem Within.utf8 {all : List Request} {pool : Pool} (within : pool.Within all)
    (room : (all.map Request.cost).sum < limit) {text : Bytes} (member : .text text ∈ all) :
    (pool.utf8 text).2.Within all := within.run room member

theorem Within.classRef {all : List Request} {pool : Pool} (within : pool.Within all)
    (room : (all.map Request.cost).sum < limit) (name : Bytes) (member : .className name ∈ all) :
    (pool.classRef name).2.Within all := within.run room member

end Pool

namespace Step

/-- A number of the pool takes two bytes of code at least. -/
theorem number?_length (pool : Pool) (s : Step) :
    2 * s.number?.toList.length ≤ (s.bytes pool).length := by
  cases s with
  | push value =>
    rw [number?, bytes]
    split
    next => exact Nat.zero_le _
    next long => exact (pushBytes_long pool long).2
  | insn | localVar | jump | mark | classOperand | fieldOperand | methodOperand | line | nops =>
    exact Nat.zero_le _

end Step

namespace Method

/-- Assembling asks the pool for what its steps ask for, and the numbers take room in the code. -/
theorem steps_within {all : List Request} (room : (all.map Request.cost).sum < Pool.limit)
    {steps : List Step} (asked : ∀ s ∈ steps, ∀ r, s.request? = some r → r ∈ all)
    {method after : Method} {pool next : Pool} (within : pool.Within all)
    (assembled : method.steps pool steps = .ok (after, next)) : next.Within all := by
  induction steps generalizing method pool with
  | nil =>
    cases assembled
    exact within
  | cons s rest ih =>
    obtain ⟨here, later⟩ := List.forall_mem_cons.mp asked
    simp only [Method.steps] at assembled
    split at assembled
    · cases assembled
    next middle grown stepped =>
      obtain ⟨rfl, -⟩ := step_did stepped
      refine ih later ?_ assembled
      rw [Step.poolAfter_eq]
      cases asks : s.request? with
      | none => exact within
      | some r => exact within.run room (here r asks)

theorem steps_numbers {steps : List Step} {method after : Method} {pool next : Pool}
    (assembled : method.steps pool steps = .ok (after, next)) :
    method.code.size + 2 * (steps.filterMap Step.number?).length ≤ after.code.size := by
  induction steps generalizing method pool with
  | nil =>
    cases assembled
    exact Nat.le_refl _
  | cons s rest ih =>
    simp only [Method.steps] at assembled
    split at assembled
    · cases assembled
    next middle grown stepped =>
      obtain ⟨rfl, did⟩ := step_did stepped
      have more := ih assembled
      have size : middle.code.size = method.code.size + (s.bytes pool).length := by
        rw [← Array.length_toList, did.code, List.length_append, Array.length_toList]
      have long := s.number?_length pool
      have count : (List.filterMap Step.number? (s :: rest)).length =
          s.number?.toList.length + (rest.filterMap Step.number?).length := by
        cases asks : s.number? <;> simp [asks, Nat.add_comm]
      omega

end Method

/-- What a type in a frame asks of the pool. -/
def VType.request? : VType → Option Request
  | .object name => some (.className name)
  | _ => none

namespace Writing

/-- An attribute, unless there is nothing in it. -/
def partUnless (absent : Bool) (name : Bytes) (body : Writing Bytes) : Writing (List Bytes) :=
  if absent then pure [] else namedPart name body >>= fun part => pure [part]

/-- Writing that keeps an invariant of the pool. -/
def Keeps {α : Type} (I : Pool → Prop) (writing : Writing α) : Prop :=
  ∀ pool : Pool, I pool → I (writing.run pool).2

variable {α β : Type} {I : Pool → Prop} {asks : Request → Prop}

theorem Keeps.pure (value : α) : Keeps I (pure value) := fun _ within => within

theorem Keeps.bind {writing : Writing α} {next : α → Writing β} (first : Keeps I writing)
    (second : ∀ value, Keeps I (next value)) : Keeps I (writing >>= next) :=
  fun pool within => second _ _ (first pool within)

variable (kept : ∀ r, asks r → ∀ pool : Pool, I pool → I (r.run pool).2)

include kept

theorem keeps_utf8 {text : Bytes} (asked : asks (.text text)) : Keeps I (utf8 text) :=
  kept _ asked

theorem keeps_type {type : VType} (asked : ∀ r, type.request? = some r → asks r) :
    Keeps I (Writing.type type) := by
  cases type with
  | top | int | uninit => exact .pure _
  | object name =>
    have keeps : Keeps I (classRef name) := kept _ (asked _ rfl)
    exact keeps.bind fun _ => .pure _

theorem keeps_types {list : List VType} (asked : ∀ type ∈ list, ∀ r, type.request? = some r → asks r) :
    Keeps I (types list) := by
  have each : Keeps I (list.mapM Writing.type) := by
    induction list with
    | nil => exact .pure _
    | cons type rest ih =>
      obtain ⟨here, later⟩ := List.forall_mem_cons.mp asked
      rw [List.mapM_cons]
      exact (keeps_type kept here).bind fun _ => (ih later).bind fun _ => .pure _
  exact each.bind fun _ => .pure _

theorem keeps_frames {list : List Frame} (asked : ∀ frame ∈ list, ∀ type ∈ frame.locals ++ frame.stack,
    ∀ r, type.request? = some r → asks r) (previous : Option Nat) :
    Keeps I (frames previous list) := by
  induction list generalizing previous with
  | nil => exact .pure _
  | cons frame rest ih =>
    obtain ⟨here, later⟩ := List.forall_mem_cons.mp asked
    obtain ⟨locals, stack⟩ := List.forall_mem_append.mp here
    exact (keeps_types kept locals).bind fun _ => (keeps_types kept stack).bind fun _ =>
      (ih later _).bind fun _ => .pure _

theorem keeps_namedPart {name : Bytes} {body : Writing Bytes} (asked : asks (.text name))
    (keeps : Keeps I body) : Keeps I (namedPart name body) :=
  keeps.bind fun _ => (keeps_utf8 kept asked).bind fun _ => .pure _

theorem keeps_partUnless {absent : Bool} {name : Bytes} {body : Writing Bytes}
    (asked : asks (.text name)) (keeps : Keeps I body) :
    Keeps I (partUnless absent name body) := by
  cases absent with
  | true => exact .pure _
  | false => exact (keeps_namedPart kept asked keeps).bind fun _ => .pure _

end Writing

namespace Method

/-- The attributes of the code are its lines and its frames. -/
theorem attributes_eq (method : Method) (frames : List Frame) :
    method.attributes frames =
      Writing.partUnless method.lines.isEmpty "LineNumberTable" (lineTable method.lines) >>=
        fun lines => Writing.partUnless frames.isEmpty "StackMapTable" (stackMap frames) >>=
          fun maps => pure (lines ++ maps) := by
  unfold attributes
  cases method.lines.isEmpty <;> cases frames.isEmpty <;> rfl

/-- The texts that a method with its code needs. -/
def texts (method : Method) : List Request :=
  [.text "LineNumberTable", .text "StackMapTable", .text "Code", .text method.name,
    .text method.descriptor]

/-- Writing a method asks for its texts and for the classes in its frames. -/
theorem keeps_write {I : Pool → Prop} {asks : Request → Prop}
    (kept : ∀ r, asks r → ∀ pool : Pool, I pool → I (r.run pool).2) {method : Method} (code : Bytes)
    {analysis : Analysis} (named : ∀ r ∈ method.texts, asks r)
    (asked : ∀ frame ∈ analysis.frames, ∀ type ∈ frame.locals ++ frame.stack,
      ∀ r, type.request? = some r → asks r) :
    Writing.Keeps I (method.write code analysis) := by
  have parts : Writing.Keeps I (method.attributes analysis.frames) := by
    have maps : Writing.Keeps I (stackMap analysis.frames) :=
      (Writing.keeps_frames kept asked none).bind fun _ => .pure _
    rw [attributes_eq]
    exact (Writing.keeps_partUnless kept (named _ (by simp [texts])) (.pure _)).bind fun _ =>
      (Writing.keeps_partUnless kept (named _ (by simp [texts])) maps).bind fun _ => .pure _
  exact parts.bind fun _ => (Writing.keeps_utf8 kept (named _ (by simp [texts]))).bind fun _ =>
    (Writing.keeps_utf8 kept (named _ (by simp [texts]))).bind fun _ =>
      (Writing.keeps_namedPart kept (named _ (by simp [texts])) (.pure _)).bind fun _ => .pure _

end Method

end Minilang.ClassFile
