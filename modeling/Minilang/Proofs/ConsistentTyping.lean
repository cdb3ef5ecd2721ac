import Minilang.Proofs.TypeAnalysis

/-! The analysis accepts every body that has a consistent typing and no dead code: what it finds
stays below the typing at every step, so no join can fail. -/

namespace Minilang.ClassFile

/-- Control can go from one instruction to another. -/
def Body.Leads (body : Body) (i j : Nat) : Prop :=
  ∃ insn next, body.insns[i]? = some insn ∧ body.successors i insn = .ok next ∧ j ∈ next

/-- A typing lets an instruction run within a stack depth and hands on what is expected. -/
def TypedAt (body : Body) (pool : Pool) (typing : Nat → TypeState) (depth i : Nat) : Prop :=
  ∃ insn after next, body.insns[i]? = some insn ∧ Rule pool insn.offset (typing i) insn.action after ∧
    body.successors i insn = .ok next ∧ (typing i).stack.length ≤ depth ∧ after.stack.length ≤ depth ∧
    (∀ j ∈ next, (typing j).Covers after) ∧
    ∀ target, insn.action.target? = some target → ∃ j, body.indexOf? target = some j

/-- A typing of a whole body in which control can come to every instruction. -/
structure Consistent (body : Body) (pool : Pool) (entry : TypeState) (depth : Nat)
    (typing : Nat → TypeState) : Prop where
  indexed : body.Indexed
  entry : (typing 0).Covers entry
  typed : ∀ i < body.insns.size, TypedAt body pool typing depth i
  entered : ∀ j, 0 < j → j < body.insns.size → ∃ i < j, body.Leads i j

namespace Flow

/-- What has been found is below a typing. -/
structure Below (typing : Nat → TypeState) (depth : Nat) (flow : Flow) : Prop where
  covers : ∀ i types, flow.types? i = some types → (typing i).Covers types
  depth : flow.maxStack ≤ depth

theorem Below.put {typing : Nat → TypeState} {depth : Nat} {flow : Flow}
    (below : flow.Below typing depth) {j : Nat} {types : TypeState} (inside : j < flow.states.size)
    (covers : (typing j).Covers types) : (flow.put j types).Below typing depth := by
  refine ⟨fun i known found => ?_, below.depth⟩
  rw [put_types? flow i types inside] at found
  split at found
  next same =>
    cases found
    rw [same]
    exact covers
  next => exact below.covers i known found

theorem joinAll_below {body : Body} {typing : Nat → TypeState} {depth : Nat} {after : TypeState}
    (next : List Nat) {flow : Flow} (below : flow.Below typing depth)
    (inside : ∀ j ∈ next, j < flow.states.size) (expected : ∀ j ∈ next, (typing j).Covers after) :
    ∃ last, joinAll body after flow next = .ok last ∧ last.Below typing depth := by
  induction next generalizing flow with
  | nil => exact ⟨flow, rfl, below⟩
  | cons j rest ih =>
    obtain ⟨here, others⟩ := List.forall_mem_cons.mp inside
    obtain ⟨wanted, later⟩ := List.forall_mem_cons.mp expected
    rw [joinAll_cons]
    cases known : flow.types? j with
    | none => exact ih (below.put here wanted) (by simpa using others) later
    | some types =>
      obtain ⟨result, joined, kept⟩ := TypeState.join_below (below.covers j types known) wanted
      rw [joined]
      cases result with
      | none => exact ih below others later
      | some met => exact ih (below.put here (kept met rfl)) (by simpa using others) later

theorem visit_below {body : Body} {pool : Pool} {typing : Nat → TypeState} {depth : Nat}
    (indexed : body.Indexed) {flow : Flow} (size : flow.states.size = body.insns.size)
    (below : flow.Below typing depth) (i : Nat)
    (typed : i < body.insns.size → TypedAt body pool typing depth i) :
    ∃ last, visit body pool flow i = .ok last ∧ last.Below typing depth := by
  unfold visit
  split
  next insn types present found =>
    change flow.types? i = some types at found
    have here : i < body.insns.size := (Array.getElem?_eq_some_iff.mp present).1
    obtain ⟨known, wide, next, again, rule, follow, shallow, peak, expected, -⟩ := typed here
    rw [present] at again
    cases again
    have covers := below.covers i types found
    obtain ⟨after, narrow, above⟩ := rule.below covers
    rw [narrow.step]
    simp only [follow]
    refine joinAll_below next ⟨below.covers, ?_⟩ ?_ fun j member => (expected j member).trans above
    · rw [covers.stack] at shallow
      rw [above.stack] at peak
      exact max_le below.depth (max_le shallow peak)
    · rw [show flow.states.size = body.insns.size from size]
      exact Body.successors_inside indexed follow
  next => exact ⟨flow, rfl, below⟩

/-- Visits that stay below a typing settle, unless one of them fails. -/
theorem settle_below_or {body : Body} {pool : Pool} {typing : Nat → TypeState} {depth : Nat}
    {start : TypeState} {P : AnalysisFault → Prop} (indexed : body.Indexed)
    (each : ∀ (i : Nat) (flow : Flow), flow.states.size = body.insns.size → flow.Below typing depth →
      (∃ last, visit body pool flow i = .ok last ∧ last.Below typing depth) ∨
        ∃ fault, visit body pool flow i = .error fault ∧ P fault)
    (fuel : Nat) {flow : Flow} (sound : flow.Sound body pool start) (below : flow.Below typing depth) :
    (∃ last, settle body pool fuel flow = .ok last ∧ last.Below typing depth) ∨
      ∃ fault, settle body pool fuel flow = .error fault ∧ P fault := by
  induction fuel generalizing flow with
  | zero => exact .inl ⟨flow, rfl, below⟩
  | succ fuel ih =>
    unfold settle
    split
    next => exact .inl ⟨flow, rfl, below⟩
    next i rest work =>
      let popped : Flow := { flow with work := rest }
      have size : popped.states.size = body.insns.size := sound.size
      rcases each i popped size ⟨below.covers, below.depth⟩ with
        ⟨middle, visited, kept⟩ | ⟨fault, visited, failed⟩ <;> rw [visited]
      · exact ih (visit_sound indexed sound work visited).1 kept
      · exact .inr ⟨fault, rfl, failed⟩

theorem settle_below {body : Body} {pool : Pool} {typing : Nat → TypeState} {depth : Nat}
    {start : TypeState} (indexed : body.Indexed)
    (typed : ∀ i < body.insns.size, TypedAt body pool typing depth i) (fuel : Nat) {flow : Flow}
    (sound : flow.Sound body pool start) (below : flow.Below typing depth) :
    ∃ last, settle body pool fuel flow = .ok last ∧ last.Below typing depth := by
  have settles := settle_below_or (P := fun _ => False) indexed
    (fun i _ size below => .inl (visit_below indexed size below i (typed i))) fuel sound below
  exact settles.resolve_right fun ⟨_, _, failed⟩ => failed

end Flow

theorem reachedAll_ok {body : Body} {states : Array (Option TypeState)}
    (reached : ∀ i, i < body.insns.size → ∃ types, (states[i]?).join = some types) :
    ∃ all, reachedAll body states = .ok all := by
  unfold reachedAll
  split
  next insn missing found =>
    have none : missing.isNone = true := by simpa using Array.find?_some found
    obtain ⟨i, bound, here⟩ := Array.mem_iff_getElem.mp (Array.mem_of_find?_eq_some found)
    obtain ⟨inside, within⟩ : i < body.insns.size ∧ i < states.size := by simpa using bound
    obtain ⟨types, there⟩ := reached i inside
    have same : states[i]? = some missing := by
      have second : states[i] = missing := by simpa using congrArg Prod.snd here
      rw [← second]
      exact Array.getElem?_eq_getElem within
    rw [same] at there
    rw [Option.isNone_iff_eq_none] at none
    rw [none] at there
    cases there
  next => exact ⟨_, rfl⟩

/-- A flow in which nothing is left to do has types for every instruction that can be entered. -/
private theorem Flow.Sound.all_reached {body : Body} {pool : Pool} {start : TypeState} {flow : Flow}
    (sound : flow.Sound body pool start) (empty : flow.work = [])
    (entered : ∀ j, 0 < j → j < body.insns.size → ∃ i < j, body.Leads i j) (j : Nat)
    (inside : j < body.insns.size) : ∃ types, flow.types? j = some types := by
  induction j using Nat.strongRecOn with
  | ind j ih =>
    rcases Nat.eq_zero_or_pos j with rfl | later
    · obtain ⟨first, found, -⟩ := sound.entry
      exact ⟨first, found⟩
    · obtain ⟨i, before, insn, next, present, follow, member⟩ := entered j later inside
      obtain ⟨types, found⟩ := ih i before (by omega)
      obtain ⟨after, others, -, again, -, -, received⟩ :=
        (sound.handled i insn types present found).resolve_left (by simp [empty])
      rw [follow] at again
      cases again
      obtain ⟨known, there, -⟩ := received j member
      exact ⟨known, there⟩

theorem Flow.start_below {insns : Array Insn} {entry : TypeState} {typing : Nat → TypeState}
    (covers : (typing 0).Covers entry) (nonempty : 0 < insns.size) (depth : Nat) :
    (Flow.start insns entry).Below typing depth := by
  refine ⟨?_, Nat.zero_le _⟩
  intro i types found
  rw [Flow.start_types? nonempty] at found
  split at found
  next first =>
    cases found
    rw [first]
    exact covers
  next => cases found

/-- A body with a consistent typing is accepted, and what is found is below that typing. -/
theorem analyze_complete {code : Bytes} {pool : Pool} {init : List VType} {maxLocals depth : Nat}
    {insns : Array Insn} {typing : Nat → TypeState} (decoded : decode code = .ok insns)
    (some_ : 0 < insns.size)
    (consistent : Consistent (Body.ofInsns insns) pool (entryTypes init maxLocals) depth typing) :
    ∃ analysis, analyze code pool init maxLocals = .ok analysis ∧
      analysis.body = Body.ofInsns insns ∧ analysis.maxStack ≤ depth ∧
      analysis.states.size = insns.size ∧
      ∀ i types, analysis.states[i]? = some types → (typing i).Covers types := by
  obtain ⟨startSound, enough⟩ := Flow.start_sound pool (entryTypes init maxLocals) some_
  have startBelow := Flow.start_below consistent.entry some_ depth
  obtain ⟨flow, settled, below⟩ := Flow.settle_below consistent.indexed consistent.typed
    (insns.size * ((entryTypes init maxLocals).locals.size + 1) + 1) startSound startBelow
  obtain ⟨sound, empty⟩ := Flow.settle_sound consistent.indexed _ startSound enough settled
  obtain ⟨states, all⟩ := reachedAll_ok (sound.all_reached empty consistent.entered)
  have same := reachedAll_inv sound.size all
  have clean : (Body.ofInsns insns).badBranch? = none := by
    refine List.findSome?_eq_none_iff.mpr fun insn member => ?_
    obtain ⟨i, here⟩ := List.mem_iff_getElem?.mp member
    cases branch : insn.action.target? with
    | none => rfl
    | some target =>
      have present : (Body.ofInsns insns).insns[i]? = some insn := by simpa using here
      obtain ⟨_, _, _, again, -, -, -, -, -, inside⟩ :=
        consistent.typed i (Array.getElem?_eq_some_iff.mp present).1
      rw [present] at again
      cases again
      obtain ⟨j, found⟩ := inside target branch
      simp [found]
  refine ⟨⟨Body.ofInsns insns, flow.maxStack, states⟩, ?_, rfl, below.depth, ?_, ?_⟩
  · unfold analyze
    have nonempty : insns.isEmpty = false := by simpa using Nat.ne_of_gt some_
    simp only [decoded, nonempty, clean, Bool.false_eq_true, if_false]
    simp only [bind_eq_ok]
    exact ⟨flow, settled, by simp [all]⟩
  · have size := sound.size
    rw [same, Array.size_map] at size
    exact size
  · intro i types found
    refine below.covers i types ?_
    rw [Flow.types?, same, Array.getElem?_map, found]
    rfl

end Minilang.ClassFile
