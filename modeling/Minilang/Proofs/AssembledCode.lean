import Minilang.Proofs.DraftRoundTrip
import Minilang.Proofs.PoolRepresentation

/-! Code that was assembled among other edits of a class. The methods of a class share a pool that
grows while they are assembled, so each is described in the terms of any later pool: its code
decodes to one instruction for every operation, and its jumps are finished unless a label is
missing or too far away. -/

namespace Minilang.ClassFile

namespace Step

variable {pool larger : Pool}

/-- A step keeps a pool faithful. -/
theorem poolAfter_faithful (faithful : pool.Faithful) (s : Step) :
    (s.poolAfter pool).Faithful ∧ pool.Extends (s.poolAfter pool) := by
  rw [poolAfter_eq]
  cases s.request? with
  | none => exact ⟨faithful, .refl pool⟩
  | some request => exact faithful.run request

/-- A step whose operand has the same index in two pools has the same bytes. -/
private theorem bytes_congr {s : Step}
    (same : ∀ r, s.request? = some r → (r.run larger).1 = (r.run pool).1) :
    s.bytes larger = s.bytes pool := by
  cases s with
  | push value =>
    rw [request?, number?] at same
    simp only [bytes, Method.pushBytes]
    split
    · rfl
    · split
      · rfl
      · split
        · rfl
        next long =>
          have index : (larger.integer value).1 = (pool.integer value).1 :=
            same (.number value) (if_neg long)
          rw [index]
          split <;> rfl
  | classOperand op name =>
    exact congrArg (fun i : UInt16 => op.byte :: u2 i.toNat) (same (.className name) rfl)
  | fieldOperand op ref =>
    exact congrArg (fun i : UInt16 => op.byte :: u2 i.toNat) (same (.field ref) rfl)
  | methodOperand op ref =>
    exact congrArg (fun i : UInt16 => op.byte :: u2 i.toNat) (same (.method ref) rfl)
  | insn | localVar | jump | mark | line | nops => rfl

/-- Later pools give a step the same bytes, also once they are full. -/
theorem stays (faithful : pool.Faithful) (whole : larger.Faithful) {s : Step}
    (extends_ : (s.poolAfter pool).Extends larger) :
    s.bytes larger = s.bytes pool ∧ s.poolAfter larger = larger := by
  rw [poolAfter_eq] at extends_
  have again : ∀ r, s.request? = some r → r.run larger = ((r.run pool).1, larger) := by
    intro r asks
    rw [asks] at extends_
    exact r.answers.again faithful trivial whole extends_
  refine ⟨bytes_congr fun r asks => by rw [again r asks], ?_⟩
  rw [poolAfter_eq]
  cases asks : s.request? with
  | none => rfl
  | some r => exact congrArg Prod.snd (again r asks)

/-- What a step becomes depends on the indices of its own operand only. -/
theorem Becomes.mono {operand other : Request → UInt16 → Prop} {target : Nat → Option Nat}
    {s : Step} {insn : Insn} (becomes : s.Becomes operand target insn)
    (weaken : ∀ r i, s.request? = some r → operand r i → other r i) :
    s.Becomes other target insn := by
  have takes : s.Takes operand insn → s.Takes other insn := fun ⟨r, i, asks, arg, known⟩ =>
    ⟨r, i, asks, arg, weaken r i asks known⟩
  cases s with
  | push value => exact becomes.imp_right (And.imp_right takes)
  | classOperand | fieldOperand | methodOperand => exact becomes.imp_right takes
  | insn | localVar | jump | mark | line | nops => exact becomes

end Step

/-- The instructions that operations become one after another, from an offset on. A label is marked
at the offset that the instructions before it have reached. -/
inductive Recovered (operand : Request → UInt16 → Prop) (target : Nat → Option Nat) :
    Nat → List Step → List Insn → Prop where
  | nil {offset : Nat} : Recovered operand target offset [] []
  | mark {offset label : Nat} {steps : List Step} {insns : List Insn}
      (place : target label = some offset) (rest : Recovered operand target offset steps insns) :
      Recovered operand target offset (.mark label :: steps) insns
  | line {offset : Nat} {number : Int} {steps : List Step} {insns : List Insn}
      (rest : Recovered operand target offset steps insns) :
      Recovered operand target offset (.line number :: steps) insns
  | insn {offset : Nat} {s : Step} {steps : List Step} {insn : Insn} {insns : List Insn}
      (start : insn.offset = offset) (becomes : s.Becomes operand target insn)
      (rest : Recovered operand target (offset + insn.length) steps insns) :
      Recovered operand target offset (s :: steps) (insn :: insns)

theorem Recovered.mono {operand other : Request → UInt16 → Prop} {target : Nat → Option Nat}
    {offset : Nat} {steps : List Step} {insns : List Insn}
    (recovered : Recovered operand target offset steps insns)
    (weaken : ∀ s ∈ steps, ∀ r i, s.request? = some r → operand r i → other r i) :
    Recovered other target offset steps insns := by
  induction recovered with
  | nil => exact .nil
  | mark place _ ih => exact .mark place (ih (List.forall_mem_cons.mp weaken).2)
  | line _ ih => exact .line (ih (List.forall_mem_cons.mp weaken).2)
  | insn start becomes _ ih =>
    obtain ⟨here, later⟩ := List.forall_mem_cons.mp weaken
    exact .insn start (becomes.mono here) (ih later)

theorem Recovered.becomes {operand : Request → UInt16 → Prop} {target : Nat → Option Nat}
    {offset : Nat} {steps : List Step} {insns : List Insn}
    (recovered : Recovered operand target offset steps insns) :
    ∀ insn ∈ insns, ∃ s ∈ steps, s.Becomes operand target insn := by
  induction recovered with
  | nil => nofun
  | mark _ _ ih | line _ ih =>
    intro insn member
    obtain ⟨s, inside, becomes⟩ := ih insn member
    exact ⟨s, List.mem_cons_of_mem _ inside, becomes⟩
  | insn _ becomes _ ih =>
    intro insn member
    rcases List.mem_cons.mp member with rfl | later
    · exact ⟨_, List.mem_cons_self, becomes⟩
    · obtain ⟨s, inside, becomes⟩ := ih insn later
      exact ⟨s, List.mem_cons_of_mem _ inside, becomes⟩

/-- Every label of the steps from an offset on is known where it is marked. -/
def Placed (pool : Pool) (target : Nat → Option Nat) (offset : Nat) (steps : List Step) : Prop :=
  ∀ first label rest, steps = first ++ .mark label :: rest →
    target label = some (offset + (codeBytes pool first).length)

theorem Placed.tail {pool : Pool} {target : Nat → Option Nat} {offset : Nat} {s : Step}
    {rest : List Step} (placed : Placed pool target offset (s :: rest)) :
    Placed pool target (offset + (s.bytes pool).length) rest := by
  intro first label more same
  rw [placed (s :: first) label more (by rw [same]; rfl), codeBytes_cons, List.length_append,
    Nat.add_assoc]

/-- Decoding the layout of regular steps gives an instruction for each that is not a mark or a
line. -/
theorem decodeLoop_recovered {pool : Pool} {target : Nat → Option Nat} {steps : List Step}
    (regular : ∀ s ∈ steps, s.Regular) {offset : Nat} (reach : AllReach pool target offset steps)
    (placed : Placed pool target offset steps) (done : Array Insn) :
    ∃ insns, decodeLoop offset (layout pool target offset steps) done =
      .ok (done ++ insns.toArray) ∧ Recovered pool.Answered target offset steps insns := by
  induction steps generalizing offset done with
  | nil =>
    refine ⟨[], ?_, .nil⟩
    rw [layout, decodeLoop]
    simp
  | cons s rest ih =>
    obtain ⟨reaches, reachRest⟩ := reach
    obtain ⟨here, later⟩ := List.forall_mem_cons.mp regular
    have more := ih later reachRest placed.tail
    rw [layout]
    have one : s.size = 1 → ∃ insns, decodeLoop offset (s.placed pool target offset ++
        layout pool target (offset + (s.bytes pool).length) rest) done =
          .ok (done ++ insns.toArray) ∧ Recovered pool.Answered target offset (s :: rest) insns := by
      intro one
      obtain ⟨insn, encodes, becomes⟩ := Step.realized here one reaches
      obtain ⟨insns, loop, all⟩ := more (done.push insn)
      refine ⟨insn :: insns, ?_, .insn encodes.1 becomes (by rw [encodes.2.1]; exact all)⟩
      rw [encodes.decodeLoop, loop]
      simp
    cases s with
    | mark label =>
      obtain ⟨insns, loop, all⟩ := more done
      exact ⟨insns, loop, .mark (placed [] label rest rfl) all⟩
    | line number =>
      obtain ⟨insns, loop, all⟩ := more done
      exact ⟨insns, loop, .line all⟩
    | nops count => exact here.elim
    | insn | push | localVar | jump | classOperand | fieldOperand | methodOperand => exact one rfl

/-- All jumps are in reach when each is. -/
theorem allReach_iff {pool : Pool} {target : Nat → Option Nat} {offset : Nat} {steps : List Step} :
    AllReach pool target offset steps ↔ ∀ first op label rest, steps = first ++ .jump op label :: rest →
      (Step.jump op label).Reaches target (offset + (codeBytes pool first).length) := by
  induction steps generalizing offset with
  | nil => simp [AllReach]
  | cons s rest ih =>
    rw [AllReach, ih]
    constructor
    · rintro ⟨here, later⟩ first op label more same
      cases first with
      | nil =>
        cases same
        exact here
      | cons head first =>
        cases same
        have reaches := later first op label more rfl
        rwa [Nat.add_assoc, ← List.length_append, ← codeBytes_cons] at reaches
    · intro all
      refine ⟨?_, fun first op label more same => ?_⟩
      · cases s with
        | jump op label => exact all [] op label rest rfl
        | insn | push | localVar | mark | classOperand | fieldOperand | methodOperand | line | nops =>
          trivial
      · have reaches := all (s :: first) op label more (by rw [same]; rfl)
        rwa [codeBytes_cons, List.length_append, ← Nat.add_assoc] at reaches

/-- Why code cannot be finished: it is too large, or a jump goes to a label that is never marked or
too far away. -/
def Unfinishable (pool : Pool) (steps : List Step) : Prop :=
  65535 < (codeBytes pool steps).length ∨
  (∃ op label, .jump op label ∈ steps ∧ .mark label ∉ steps) ∨
  ∃ first op label rest before after, steps = first ++ .jump op label :: rest ∧
    steps = before ++ .mark label :: after ∧
    ¬ (-32768 ≤ ((codeBytes pool before).length : Int) - (codeBytes pool first).length ∧
      ((codeBytes pool before).length : Int) - (codeBytes pool first).length ≤ 32767)

/-- Operations that can all be assembled: of regular forms, with no label marked twice. -/
structure Assemblable (steps : List Step) : Prop where
  regular : ∀ s ∈ steps, s.Regular
  once : (steps.filterMap Step.marked?).Nodup

theorem Assemblable.before {first rest : List Step} (both : Assemblable (first ++ rest)) :
    Assemblable first where
  regular := fun s member => both.regular s (List.mem_append_left rest member)
  once := by
    have once := both.once
    rw [List.filterMap_append] at once
    exact (List.nodup_append.mp once).1

namespace Method

/-- A method that operations made, in the terms of any later pool. -/
structure Built (pool : Pool) (steps : List Step) (method : Method) : Prop where
  did : ∀ larger : Pool, larger.Faithful → pool.Extends larger →
    DidAll larger steps (.make method.access method.name method.descriptor method.init) method
  kept : ∀ larger : Pool, larger.Faithful → pool.Extends larger →
    ∀ s ∈ steps, s.poolAfter larger = larger
  unmarked : ∀ label, .mark label ∉ steps → method.labels[label]? = none

variable {pool : Pool} {steps : List Step} {method : Method}

theorem Built.later {larger : Pool} (built : method.Built pool steps) (extends_ : pool.Extends larger) :
    method.Built larger steps where
  did := fun last whole more => built.did last whole (extends_.trans more)
  kept := fun last whole more => built.kept last whole (extends_.trans more)
  unmarked := built.unmarked

theorem built_make (pool : Pool) (access : UInt16) (name descriptor : Bytes) (init : List VType) :
    (make access name descriptor init).Built pool [] where
  did := fun _ _ _ =>
    ⟨by simp [make], by simp [make, jumpsFrom], fun _ _ => id, by simp, rfl, rfl, rfl, rfl, rfl⟩
  kept := fun _ _ _ _ member => absurd member List.not_mem_nil
  unmarked := fun _ _ => by simp [make]

/-- One more operation succeeds and leaves what the operations made. -/
theorem Built.step (built : method.Built pool steps) (faithful : pool.Faithful) {s : Step}
    (both : Assemblable (steps ++ [s])) :
    ∃ after, method.step pool s = .ok (after, s.poolAfter pool) ∧
      after.Built (s.poolAfter pool) (steps ++ [s]) := by
  have free : ∀ label, s.marked? = some label → method.labels[label]? = none := by
    intro label marks
    refine built.unmarked label fun earlier => ?_
    have once := both.once
    rw [List.filterMap_append, List.filterMap_cons_some marks] at once
    exact (List.nodup_append.mp once).2.2 label (List.mem_filterMap.mpr ⟨_, earlier, rfl⟩) label
      List.mem_cons_self rfl
  obtain ⟨after, next, stepped⟩ := step_ok method pool (both.regular s (by simp)) free
  obtain ⟨rfl, did⟩ := step_did stepped
  obtain ⟨access, name, descriptor, init⟩ := did.signature
  have grows := (s.poolAfter_faithful faithful).2
  refine ⟨after, stepped, fun larger whole more => ?_, fun larger whole more => ?_,
    fun label unmarked => ?_⟩
  · obtain ⟨bytes, -⟩ := Step.stays faithful whole more
    have here : Did larger s method after := { did with code := by rw [did.code, bytes] }
    rw [access, name, descriptor, init]
    exact (built.did larger whole (grows.trans more)).append here.one
  · rw [List.forall_mem_append, List.forall_mem_singleton]
    exact ⟨built.kept larger whole (grows.trans more), (Step.stays faithful whole more).2⟩
  · rw [List.mem_append, List.mem_singleton, not_or] at unmarked
    rw [did.labels label, if_neg]
    · exact built.unmarked label unmarked.1
    · intro marks
      cases s with
      | mark other =>
        cases marks
        exact unmarked.2 rfl
      | insn | push | localVar | jump | classOperand | fieldOperand | methodOperand | line | nops =>
        cases marks

/-- The labels of a built method are where they are marked. -/
theorem Built.placed (built : method.Built pool steps) (faithful : pool.Faithful) :
    Placed pool (method.labels[·]?) 0 steps :=
  (built.did pool faithful (.refl pool)).marks

/-- Finishing the jumps of a built method gives the layout of its operations. -/
theorem Built.resolve_eq_ok (built : method.Built pool steps) (faithful : pool.Faithful)
    {code : Bytes} : method.resolve = .ok code ↔ (codeBytes pool steps).length ≤ 65535 ∧
      AllReach pool (method.labels[·]?) 0 steps ∧
      code = layout pool (method.labels[·]?) 0 steps := by
  have did := built.did pool faithful (.refl pool)
  have size : method.code.size = (codeBytes pool steps).length := by
    rw [← Array.length_toList, did.code, List.length_append]
    exact Nat.zero_add _
  rw [Method.resolve_eq_ok did rfl rfl, size]

/-- Finishing a built method fails for one of three reasons. -/
theorem Built.unresolved_iff (built : method.Built pool steps) (faithful : pool.Faithful) :
    (∀ code, method.resolve ≠ .ok code) ↔ Unfinishable pool steps := by
  have placed := built.placed faithful
  have resolves : (∃ code, method.resolve = .ok code) ↔ (codeBytes pool steps).length ≤ 65535 ∧
      AllReach pool (method.labels[·]?) 0 steps := by
    constructor
    · rintro ⟨code, resolved⟩
      obtain ⟨small, reach, -⟩ := (built.resolve_eq_ok faithful).mp resolved
      exact ⟨small, reach⟩
    · rintro ⟨small, reach⟩
      exact ⟨_, (built.resolve_eq_ok faithful).mpr ⟨small, reach, rfl⟩⟩
  rw [← not_exists, resolves, allReach_iff, Unfinishable]
  constructor
  · intro fails
    by_contra none
    simp only [not_or, not_exists, not_and, not_lt, not_not] at none
    obtain ⟨small, marked, near⟩ := none
    refine fails ⟨small, fun first op label rest same => ?_⟩
    obtain ⟨before, after, marks⟩ := List.append_of_mem (marked op label (by simp [same]))
    refine ⟨_, placed before label after marks, ?_⟩
    simpa using near first op label rest before after same marks
  · rintro wrong ⟨small, reach⟩
    rcases wrong with large | ⟨op, label, jumps, missing⟩ |
      ⟨first, op, label, rest, before, after, jumps, marks, far⟩
    · omega
    · obtain ⟨first, rest, same⟩ := List.append_of_mem jumps
      obtain ⟨place, found, -⟩ := reach first op label rest same
      cases found.symm.trans (built.unmarked label missing)
    · obtain ⟨place, found, near⟩ := reach first op label rest jumps
      obtain rfl := Option.some.inj (found.symm.trans (placed before label after marks))
      simp at near
      exact far (by simpa using near)

/-- The finished code of a built method decodes to its operations. -/
theorem Built.recovered (built : method.Built pool steps) (faithful : pool.Faithful)
    (regular : ∀ s ∈ steps, s.Regular) {code : Bytes} (resolved : method.resolve = .ok code) :
    ∃ insns : Array Insn, decode code = .ok insns ∧
      Recovered pool.Answered (method.labels[·]?) 0 steps insns.toList := by
  obtain ⟨-, reach, rfl⟩ := (built.resolve_eq_ok faithful).mp resolved
  obtain ⟨insns, decoded, recovered⟩ :=
    decodeLoop_recovered regular reach (built.placed faithful) #[]
  exact ⟨insns.toArray, by simpa [decode] using decoded, recovered⟩

end Method

namespace Draft

/-- The operations of each method after one more edit. -/
def Edit.record (bodies : List (List Step)) : Edit → List (List Step)
  | .method .. => bodies ++ [[]]
  | .step number s => bodies.modify number (· ++ [s])
  | .intern _ => bodies

/-- The operations that edits ask of each method, in order. -/
def bodies (list : List Edit) : List (List Step) := list.foldl Edit.record []

/-- A draft whose methods are what some operations make. -/
structure Records (draft : Draft) (bodies : List (List Step)) : Prop where
  faithful : draft.pool.Faithful
  count : draft.methods.size = bodies.length
  built : ∀ (n : Nat) steps, bodies[n]? = some steps → Assemblable steps →
    ∃ method : Method, draft.methods[n]? = some method ∧ method.Built draft.pool steps

/-- A step either changes nothing, because its method cannot take it, or its method takes it. -/
theorem edit_step_cases (draft : Draft) (number : Nat) (s : Step) :
    draft.edit (.step number s) = draft ∧ (∀ method after pool, draft.methods[number]? = some method →
      method.step draft.pool s ≠ .ok (after, pool)) ∨
    ∃ method after, draft.methods[number]? = some method ∧
      method.step draft.pool s = .ok (after, s.poolAfter draft.pool) ∧
      draft.edit (.step number s) =
        { draft with
          pool := s.poolAfter draft.pool, methods := draft.methods.setIfInBounds number after } := by
  simp only [Draft.edit]
  cases there : draft.methods[number]? with
  | none => exact .inl ⟨rfl, by simp⟩
  | some method =>
    cases stepped : method.step draft.pool s with
    | error fault =>
      refine .inl ⟨by simp only [stepped], fun other after pool same => ?_⟩
      cases same
      simp [stepped]
    | ok result =>
      obtain ⟨after, pool⟩ := result
      obtain ⟨rfl, -⟩ := Method.step_did stepped
      exact .inr ⟨method, after, rfl, stepped, by simp only [stepped]⟩

theorem Records.edit {draft : Draft} {bodies : List (List Step)} (records : draft.Records bodies)
    (edit : Edit) : (draft.edit edit).Records (edit.record bodies) := by
  cases edit with
  | method access name descriptor init =>
    refine ⟨records.faithful, by simp [Draft.edit, Edit.record, records.count], ?_⟩
    intro n steps found assemblable
    simp only [Edit.record, List.getElem?_append] at found
    simp only [Draft.edit, Array.getElem?_push, records.count]
    split at found
    next inside =>
      rw [if_neg (by omega)]
      exact records.built n steps found assemblable
    next outside =>
      obtain ⟨same, empty⟩ := List.getElem?_eq_some_iff.mp found
      have last : n = bodies.length := by
        rw [List.length_singleton] at same
        omega
      simp only [last, Nat.sub_self, List.getElem_cons_zero] at empty
      subst empty
      exact ⟨_, if_pos last, Method.built_make _ access name descriptor init⟩
  | intern request =>
    obtain ⟨faithful, grows⟩ := records.faithful.run request
    refine ⟨faithful, records.count, fun n steps found assemblable => ?_⟩
    obtain ⟨method, there, built⟩ := records.built n steps found assemblable
    exact ⟨method, there, built.later grows⟩
  | step number s =>
    have split_ : ∀ n steps, (bodies.modify number (· ++ [s]))[n]? = some steps →
        ∃ first, bodies[n]? = some first ∧ steps = if number = n then first ++ [s] else first := by
      intro n steps found
      rw [List.getElem?_modify] at found
      obtain ⟨first, known, rfl⟩ := Option.map_eq_some_iff.mp found
      exact ⟨first, known, rfl⟩
    rcases draft.edit_step_cases number s with ⟨same, refused⟩ | ⟨method, after, there, stepped, same⟩ <;>
      rw [same]
    · refine ⟨records.faithful, by simp [Edit.record, records.count], fun n steps found assemblable => ?_⟩
      obtain ⟨first, known, rfl⟩ := split_ n steps found
      split at assemblable
      next here =>
        obtain ⟨method, there, built⟩ := records.built n first known assemblable.before
        obtain ⟨after, stepped, -⟩ := built.step records.faithful assemblable
        exact absurd stepped (refused method after _ (here ▸ there))
      next elsewhere =>
        rw [if_neg elsewhere]
        exact records.built n first known assemblable
    · obtain ⟨faithful, grows⟩ := s.poolAfter_faithful records.faithful
      refine ⟨faithful, by simp [Edit.record, records.count], fun n steps found assemblable => ?_⟩
      obtain ⟨first, known, rfl⟩ := split_ n steps found
      split at assemblable
      next here =>
        subst here
        obtain ⟨other, same, built⟩ := records.built number first known assemblable.before
        obtain rfl := Option.some.inj (there.symm.trans same)
        obtain ⟨result, again, made⟩ := built.step records.faithful assemblable
        rw [stepped] at again
        cases again
        rw [if_pos rfl]
        refine ⟨after, ?_, made⟩
        rw [Array.getElem?_setIfInBounds_self_of_lt (Array.getElem?_eq_some_iff.mp there).1]
      next elsewhere =>
        obtain ⟨other, known, built⟩ := records.built n first known assemblable
        rw [if_neg elsewhere]
        refine ⟨other, ?_, built.later grows⟩
        rwa [Array.getElem?_setIfInBounds_ne elsewhere]

theorem Records.edits {draft : Draft} {bodies : List (List Step)} (records : draft.Records bodies)
    (list : List Edit) : (draft.edits list).Records (list.foldl Edit.record bodies) := by
  induction list generalizing draft bodies with
  | nil => exact records
  | cons edit rest ih => exact ih (records.edit edit)

theorem records_blank (major access : UInt16) (name super sourceFile : Bytes) :
    (blank major access name super sourceFile).Records [] :=
  ⟨Pool.Faithful.empty, rfl, nofun⟩

theorem namedPool_faithful {draft : Draft} (faithful : draft.pool.Faithful) :
    draft.namedPool.Faithful ∧ draft.pool.Extends draft.namedPool := by
  obtain ⟨self, grows⟩ := faithful.run (.className draft.name)
  obtain ⟨super, more⟩ := self.run (.className draft.super)
  exact ⟨super, grows.trans more⟩

theorem sourcePart_faithful (draft : Draft) {pool : Pool} (faithful : pool.Faithful) :
    (draft.sourcePart pool).2.Faithful ∧ pool.Extends (draft.sourcePart pool).2 := by
  rw [sourcePart]
  split
  · exact ⟨faithful, .refl pool⟩
  · obtain ⟨named, grows⟩ := faithful.run (.text "SourceFile")
    obtain ⟨valued, more⟩ := named.run (.text draft.sourceFile)
    exact ⟨valued, grows.trans more⟩

end Draft

theorem Method.finish_faithful {method : Method} {pool next : Pool} {part : Bytes}
    (faithful : pool.Faithful) (finished : method.finish pool = .ok (part, next)) :
    next.Faithful ∧ pool.Extends next := by
  obtain ⟨code, analysis, -, written⟩ := finish_eq_ok.mp finished
  have kept : ∀ r : Request, True → ∀ larger : Pool, larger.Faithful ∧ pool.Extends larger →
      (r.run larger).2.Faithful ∧ pool.Extends (r.run larger).2 := fun r _ larger known =>
    have ⟨last, more⟩ := known.1.run r
    ⟨last, known.2.trans more⟩
  have keeps : Writing.Keeps (fun larger => larger.Faithful ∧ pool.Extends larger)
      (method.write code analysis) :=
    keeps_write kept code (fun _ _ => trivial) fun _ _ _ _ _ _ => trivial
  have last := keeps pool ⟨faithful, .refl pool⟩
  rwa [← written] at last

theorem Method.finishAll_faithful {methods : List Method} {pool last : Pool} {done parts : List Bytes}
    (faithful : pool.Faithful) (finished : finishAll methods pool done = .ok (parts, last)) :
    last.Faithful ∧ pool.Extends last := by
  induction methods generalizing pool done with
  | nil =>
    cases finished
    exact ⟨faithful, .refl _⟩
  | cons method rest ih =>
    rw [finishAll] at finished
    split at finished
    · cases finished
    next text next one =>
      obtain ⟨middle, grows⟩ := finish_faithful faithful one
      obtain ⟨last, more⟩ := ih middle finished
      exact ⟨last, grows.trans more⟩

namespace Draft

/-- Whatever was done to a class before, in between and after, as long as its pool has not
overflowed: the finished code of a method decodes to one instruction for each of its operations,
with the operands that were asked for, and finishing it fails exactly when it is too large or a
label is missing or too far away. -/
theorem edits_decode (major access : UInt16) (name super sourceFile : Bytes) (list : List Edit)
    {draft : Draft} (built : draft = (blank major access name super sourceFile).edits list)
    (fits : draft.pool.overflowed = false) {n : Nat} {steps : List Step}
    (body : (bodies list)[n]? = some steps) (assemblable : Assemblable steps) :
    ∃ method, draft.methods[n]? = some method ∧
      (∀ code, method.resolve = .ok code → ∃ insns : Array Insn, decode code = .ok insns ∧
        Recovered (fun request i => request.Denotes draft.pool i) (method.labels[·]?) 0 steps
          insns.toList) ∧
      ((∀ code, method.resolve ≠ .ok code) ↔ Unfinishable draft.pool steps) := by
  subst built
  have records := (records_blank major access name super sourceFile).edits list
  obtain ⟨method, there, built⟩ := records.built n steps body assemblable
  refine ⟨method, there, fun code resolved => ?_, built.unresolved_iff records.faithful⟩
  obtain ⟨insns, decoded, recovered⟩ :=
    built.recovered records.faithful assemblable.regular resolved
  refine ⟨insns, decoded, recovered.mono fun s member request i asks answered => ?_⟩
  have kept := built.kept _ records.faithful (.refl _) s member
  rw [Step.poolAfter_eq, asks] at kept
  have yields := request.answers.answer records.faithful trivial
  rw [answered] at yields
  have stays : (request.run _).2 = _ := kept
  rw [stays] at yields
  rcases yields with ⟨-, exceeded⟩ | ⟨-, means⟩
  · rw [fits] at exceeded
    cases exceeded
  · exact means

/-- A loop that takes a number from the pool. -/
def loopSteps : List Step := [.mark 0, .push 100000, .insn .pop, .jump .goto 0]

def loopDraft : Draft :=
  (blank 52 33 "A" "B" "a").edits (.method 9 "f" "()V" [] :: loopSteps.map (.step 0))

private def loopMethod : Method :=
  { access := 9, name := "f", descriptor := "()V", code := #[18, 1, 87, 167, 0, 0]
    jumps := #[⟨0, 3⟩], labels := Std.HashMap.insert {} 0 0 }

private theorem loopDraft_eq : loopDraft = { blank 52 33 "A" "B" "a" with
    pool := Pool.append {} (.integer 100000), methods := #[loopMethod] } := by
  have interned : Pool.integer {} 100000 = (1, Pool.append {} (.integer 100000)) := by
    simp [Pool.integer, Pool.intern, Pool.count, Pool.limit]
  have pushed : Method.pushBytes {} 100000 = ([18, 1], Pool.append {} (.integer 100000)) := by
    rw [Method.pushBytes, interned]
    rfl
  have branch : Opcode.goto.isBranch = true := by decide
  have ops : Opcode.goto.byte = 167 ∧ Opcode.pop.byte = 87 := ⟨rfl, rfl⟩
  simp [loopDraft, loopSteps, edits, edit, Method.step, Method.make, Method.emit, Method.offset,
    loopMethod, blank, pushed, branch, ops]

/-- The loop is finished and recovered. -/
theorem loop_recovered : ∃ method code insns, loopDraft.methods[0]? = some method ∧
    method.resolve = .ok code ∧ decode code = .ok insns ∧
    Recovered (fun request i => request.Denotes loopDraft.pool i) (method.labels[·]?) 0 loopSteps
      insns.toList := by
  have assemblable : Assemblable loopSteps := by
    refine ⟨fun s member => ?_, by decide⟩
    simp only [loopSteps, List.mem_cons, List.not_mem_nil, or_false] at member
    rcases member with rfl | rfl | rfl | rfl
    · trivial
    · trivial
    · exact ⟨by decide, "pop", rfl⟩
    · exact (by decide : Opcode.goto.isBranch = true)
  have fits : loopDraft.pool.overflowed = false := by rw [loopDraft_eq]; rfl
  have body : (bodies (.method 9 "f" "()V" [] :: loopSteps.map (.step 0)))[0]? = some loopSteps := rfl
  obtain ⟨method, there, decodes, -⟩ :=
    edits_decode 52 33 "A" "B" "a" _ rfl fits body assemblable
  have same : method = loopMethod := by
    have first : loopDraft.methods[0]? = some loopMethod := by rw [loopDraft_eq]; rfl
    exact Option.some.inj (there.symm.trans first)
  have resolved : loopMethod.resolve = .ok [18, 1, 87, 167, 255, 253] := by cbv
  subst same
  obtain ⟨insns, decoded, recovered⟩ := decodes _ resolved
  exact ⟨_, _, insns, there, resolved, decoded, recovered⟩

end Draft

end Minilang.ClassFile
