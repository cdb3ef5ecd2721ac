import Mathlib.Algebra.Group.Action.Defs
import Mathlib.Algebra.Order.BigOperators.Group.Finset
import Mathlib.Data.Finset.Card
import Minilang.Proofs.TypeRules

/-! What the type analysis of a method body establishes. The work list only ever replaces the
types of an instruction by types that cover them, so instructions that were visited stay typed
until one of their own types changes. The number of locals that can still become unknown pays
for every round, so the work list is empty when the analysis returns. -/

namespace Minilang.ClassFile

namespace TypeState

/-- Whatever has the incoming types has the known ones: the stacks are the same, and a local is
unknown or has the same type. -/
structure Covers (known incoming : TypeState) : Prop where
  stack : known.stack = incoming.stack
  size : known.locals.size = incoming.locals.size
  locals : ∀ (slot : Nat) (type : VType), known.locals[slot]? = some type →
    type = .top ∨ incoming.locals[slot]? = some type

theorem Covers.refl (types : TypeState) : types.Covers types :=
  ⟨rfl, rfl, fun _ _ found => .inr found⟩

theorem Covers.trans {top middle bottom : TypeState} (first : top.Covers middle)
    (second : middle.Covers bottom) : top.Covers bottom := by
  refine ⟨first.stack.trans second.stack, first.size.trans second.size, ?_⟩
  intro slot type found
  rcases first.locals slot type found with unknown | found
  · exact .inl unknown
  · exact second.locals slot type found

/-- A type that is known is also the type of what is covered. -/
theorem Covers.known {types incoming : TypeState} (covers : types.Covers incoming) {slot : Nat}
    {type : VType} (found : types.locals[slot]? = some type) (known : type ≠ .top) :
    incoming.locals[slot]? = some type :=
  (covers.locals slot type found).resolve_left known

/-- The slots whose types are known. -/
def knownSlots (types : TypeState) : Finset Nat :=
  (Finset.range types.locals.size).filter fun slot => types.locals[slot]? ≠ some .top

theorem mem_knownSlots {types : TypeState} {slot : Nat} :
    slot ∈ types.knownSlots ↔ ∃ type, types.locals[slot]? = some type ∧ type ≠ .top := by
  unfold knownSlots
  constructor
  · intro member
    obtain ⟨inside, known⟩ := Finset.mem_filter.mp member
    have bound : slot < types.locals.size := Finset.mem_range.mp inside
    refine ⟨types.locals[slot], Array.getElem?_eq_getElem bound, ?_⟩
    intro unknown
    exact known (by rw [Array.getElem?_eq_getElem bound, unknown])
  · rintro ⟨type, found, known⟩
    obtain ⟨bound, -⟩ := Array.getElem?_eq_some_iff.mp found
    refine Finset.mem_filter.mpr ⟨Finset.mem_range.mpr bound, ?_⟩
    rw [found]
    simpa using known

theorem card_knownSlots_le (types : TypeState) : types.knownSlots.card ≤ types.locals.size := by
  have filtered := Finset.card_filter_le (Finset.range types.locals.size)
    fun slot => types.locals[slot]? ≠ some .top
  simpa [knownSlots] using filtered

theorem Covers.knownSlots_subset {known incoming : TypeState} (covers : known.Covers incoming) :
    known.knownSlots ⊆ incoming.knownSlots := by
  intro slot member
  obtain ⟨type, found, settled⟩ := mem_knownSlots.mp member
  exact mem_knownSlots.mpr ⟨type, covers.known found settled, settled⟩

end TypeState

private theorem agreesFrom_iff (known incoming : Array VType) (fuel slot : Nat)
    (enough : known.size ≤ slot + fuel) :
    agreesFrom known incoming fuel slot = true ↔
      ∀ i, slot ≤ i → ∀ type : VType, known[i]? = some type → type = .top ∨ incoming[i]? = some type := by
  induction fuel generalizing slot with
  | zero =>
    refine ⟨fun _ i behind type found => ?_, fun _ => rfl⟩
    obtain ⟨bound, -⟩ := Array.getElem?_eq_some_iff.mp found
    omega
  | succ fuel ih =>
    unfold agreesFrom
    split
    next missing =>
      refine ⟨fun _ i behind type found => ?_, fun _ => rfl⟩
      have past : known.size ≤ slot := Array.getElem?_eq_none_iff.mp missing
      obtain ⟨bound, -⟩ := Array.getElem?_eq_some_iff.mp found
      omega
    next here found =>
      rw [Bool.and_eq_true, Bool.or_eq_true, beq_iff_eq, beq_iff_eq, ih (slot + 1) (by omega)]
      constructor
      · rintro ⟨first, rest⟩ i behind type present
        rcases Nat.eq_or_lt_of_le behind with rfl | later
        · rw [found] at present
          cases present
          exact first
        · exact rest i later type present
      · intro all
        exact ⟨all slot (le_refl slot) here found, fun i later => all i (Nat.le_of_lt later)⟩

theorem localsAgree_iff (known incoming : Array VType) :
    localsAgree known incoming = true ↔
      ∀ (slot : Nat) (type : VType), known[slot]? = some type →
        type = .top ∨ incoming[slot]? = some type := by
  unfold localsAgree
  rw [agreesFrom_iff known incoming known.size 0 (by omega)]
  exact ⟨fun all slot => all slot (Nat.zero_le slot), fun all slot _ => all slot⟩

theorem meetLocals_size (known incoming : Array VType) :
    (meetLocals known incoming).size = known.size := by
  simp [meetLocals]

theorem meetLocals_getElem? (known incoming : Array VType) (slot : Nat) :
    (meetLocals known incoming)[slot]? =
      known[slot]?.map fun type => if incoming[slot]? == some type then type else .top := by
  simp [meetLocals, Array.getElem?_mapIdx]

private theorem stackMismatch_none {known incoming : List VType} {slot : Nat}
    (same : known.length = incoming.length) (none : stackMismatch known incoming slot = none) :
    known = incoming := by
  induction known generalizing incoming slot with
  | nil => exact (List.eq_nil_of_length_eq_zero same.symm).symm
  | cons first rest ih =>
    cases incoming with
    | nil => cases same
    | cons other others =>
      unfold stackMismatch at none
      split at none
      next equal => rw [equal, ih (Nat.succ.inj same) none]
      next => cases none

private theorem stackMismatch_self (stack : List VType) (slot : Nat) :
    stackMismatch stack stack slot = none := by
  induction stack generalizing slot with
  | nil => rfl
  | cons first rest ih =>
    unfold stackMismatch
    rw [if_pos rfl]
    exact ih (slot + 1)

namespace TypeState

private theorem meet_covers (known incoming : TypeState)
    (size : known.locals.size = incoming.locals.size) (stack : known.stack = incoming.stack) :
    let met : TypeState := { known with locals := meetLocals known.locals incoming.locals }
    met.Covers known ∧ met.Covers incoming := by
  have shape : ∀ (slot : Nat) (type : VType), (meetLocals known.locals incoming.locals)[slot]? = some type →
      type = .top ∨ known.locals[slot]? = some type ∧ incoming.locals[slot]? = some type := by
    intro slot type found
    rw [meetLocals_getElem?] at found
    obtain ⟨old, present, chosen⟩ := Option.map_eq_some_iff.mp found
    split at chosen
    next same =>
      subst chosen
      exact .inr ⟨present, beq_iff_eq.mp same⟩
    next => exact .inl chosen.symm
  refine ⟨⟨rfl, meetLocals_size _ _, ?_⟩, ⟨stack, (meetLocals_size _ _).trans size, ?_⟩⟩
  · exact fun slot type found => (shape slot type found).imp_right And.left
  · exact fun slot type found => (shape slot type found).imp_right And.right

/-- A join with known types either adds nothing, because they cover what comes in, or makes at
least one more local unknown. -/
theorem join_some {known incoming : TypeState} {result : Option TypeState}
    (size : known.locals.size = incoming.locals.size)
    (joined : TypeState.join (some known) incoming = .ok result) :
    result = none ∧ known.Covers incoming ∨
    ∃ met, result = some met ∧ met.Covers known ∧ met.Covers incoming ∧
      met.knownSlots ⊂ known.knownSlots := by
  simp only [TypeState.join] at joined
  split at joined
  · cases joined
  next sameLength =>
    split at joined
    · cases joined
    next agree =>
      have reversed := stackMismatch_none (by simpa using sameLength) agree
      have stack : known.stack = incoming.stack := List.reverse_injective reversed
      split at joined
      next covered =>
        cases joined
        exact .inl ⟨rfl, stack, size, (localsAgree_iff _ _).mp covered⟩
      next differ =>
        cases joined
        obtain ⟨overKnown, overIncoming⟩ := meet_covers known incoming size stack
        refine .inr ⟨_, rfl, overKnown, overIncoming, overKnown.knownSlots_subset, ?_⟩
        intro back
        apply differ
        rw [localsAgree_iff]
        intro slot type found
        by_cases unknown : type = .top
        · exact .inl unknown
        · obtain ⟨kept, still, settled⟩ :=
            mem_knownSlots.mp (back (mem_knownSlots.mpr ⟨type, found, unknown⟩))
          have same := overKnown.known still settled
          rw [found] at same
          cases same
          exact .inr (overIncoming.known still settled)

/-- Types below a common cover can always be joined, and stay below it. -/
theorem join_below {cover known incoming : TypeState} (first : cover.Covers known)
    (second : cover.Covers incoming) :
    ∃ result, TypeState.join (some known) incoming = .ok result ∧
      ∀ met, result = some met → cover.Covers met := by
  have stack : known.stack = incoming.stack := first.stack.symm.trans second.stack
  simp only [TypeState.join, stack, ne_eq, not_true_eq_false, if_false, stackMismatch_self]
  split
  · exact ⟨none, rfl, fun met wrong => nomatch wrong⟩
  · refine ⟨_, rfl, ?_⟩
    rintro met ⟨⟩
    refine ⟨first.stack.trans stack, first.size.trans (meetLocals_size _ _).symm, ?_⟩
    intro slot type found
    by_cases unknown : type = .top
    · exact .inl unknown
    · right
      rw [meetLocals_getElem?, first.known found unknown]
      simp [second.known found unknown]

end TypeState

theorem Rule.size {pool : Pool} {offset : Nat} {types after : TypeState} {action : Action}
    (rule : Rule pool offset types action after) : after.locals.size = types.locals.size := by
  cases rule <;> simp [TypeState.initialise]

private theorem covers_set {cover types : TypeState} (covers : cover.Covers types)
    (stack : List VType) (slot : Nat) (type : VType) :
    TypeState.Covers ⟨cover.locals.setIfInBounds slot type, stack⟩
      ⟨types.locals.setIfInBounds slot type, stack⟩ := by
  refine ⟨rfl, by simpa using covers.size, ?_⟩
  intro other found
  simp only [Array.getElem?_setIfInBounds, covers.size]
  split
  · exact fun same => .inr same
  · exact covers.locals other found

private theorem covers_initialise {cover types : TypeState} (covers : cover.Covers types)
    (raw : Nat) (owner : Bytes) (stack : List VType) :
    (TypeState.initialise ⟨cover.locals, stack⟩ (.uninit raw) owner).Covers
      (TypeState.initialise ⟨types.locals, stack⟩ (.uninit raw) owner) := by
  refine ⟨rfl, by simpa [TypeState.initialise] using covers.size, ?_⟩
  intro slot type found
  simp only [TypeState.initialise, Array.getElem?_map] at found ⊢
  obtain ⟨old, present, rfl⟩ := Option.map_eq_some_iff.mp found
  rcases covers.locals slot old present with rfl | held
  · exact .inl (if_neg nofun)
  · exact .inr (by rw [held]; rfl)

private theorem covers_pushResult {cover types : TypeState} (covers : cover.Covers types)
    (result : Option VType) : (cover.pushResult result).Covers (types.pushResult result) := by
  refine ⟨?_, by simpa using covers.size, by simpa using covers.locals⟩
  simp [covers.stack]

private theorem covers_push {cover types : TypeState} (covers : cover.Covers types)
    (type : VType) : (cover.push type).Covers (types.push type) :=
  ⟨congrArg (type :: ·) covers.stack, covers.size, covers.locals⟩

private theorem covers_stack {cover types : TypeState} (covers : cover.Covers types)
    (stack : List VType) : TypeState.Covers ⟨cover.locals, stack⟩ ⟨types.locals, stack⟩ :=
  ⟨rfl, covers.size, covers.locals⟩

/-- An instruction that is typed for some types is typed for all that they cover. -/
theorem Rule.below {pool : Pool} {offset : Nat} {cover covered types : TypeState} {action : Action}
    (rule : Rule pool offset cover action covered) (covers : cover.Covers types) :
    ∃ after, Rule pool offset types action after ∧ covered.Covers after := by
  obtain ⟨locals, stack⟩ := types
  have sameStack := covers.stack
  have sameSize := covers.size
  cases rule <;> simp only at sameStack <;> (try subst sameStack)
  case nop => exact ⟨_, .nop, covers⟩
  case goto => exact ⟨_, .goto, covers⟩
  case ret => exact ⟨_, .ret, covers⟩
  case push => exact ⟨_, .push, covers_push covers _⟩
  case integer found => exact ⟨_, .integer found, covers_push covers _⟩
  case string found => exact ⟨_, .string found, covers_push covers _⟩
  case intLoad held => exact ⟨_, .intLoad (covers.known held nofun), covers_push covers _⟩
  case refLoad held => exact ⟨_, .refLoad (covers.known held nofun), covers_push covers _⟩
  case intStore inside => exact ⟨_, .intStore (sameSize ▸ inside), covers_set covers _ _ _⟩
  case refStore inside => exact ⟨_, .refStore (sameSize ▸ inside), covers_set covers _ _ _⟩
  case shuffle done => exact ⟨_, .shuffle done, covers_stack covers _⟩
  case compute => exact ⟨_, .compute, covers_stack covers _⟩
  case negate => exact ⟨_, .negate, covers_stack covers _⟩
  case branchZero => exact ⟨_, .branchZero, covers_stack covers _⟩
  case branchInts => exact ⟨_, .branchInts, covers_stack covers _⟩
  case getStatic found known => exact ⟨_, .getStatic found known, covers_push covers _⟩
  case staticCall found known fits =>
    exact ⟨_, .staticCall found known fits, covers_pushResult (covers_stack covers _) _⟩
  case call found known fits instanceCall plain isRef =>
    exact ⟨_, .call found known fits instanceCall plain isRef,
      covers_pushResult (covers_stack covers _) _⟩
  case construct found known fits isInit =>
    exact ⟨_, .construct found known fits isInit,
      covers_pushResult (covers_initialise covers _ _ _) _⟩
  case new found => exact ⟨_, .new found, covers_push covers _⟩

namespace Body

private abbrev indexStep (state : Nat × Std.HashMap Nat Nat) (insn : Insn) :
    Nat × Std.HashMap Nat Nat :=
  (state.1 + 1, state.2.insert insn.offset state.1)

private theorem index_fold_absent (insns : List Insn) (start : Nat × Std.HashMap Nat Nat)
    (offset : Nat) (absent : ∀ insn ∈ insns, insn.offset ≠ offset) :
    (insns.foldl indexStep start).2[offset]? = start.2[offset]? := by
  induction insns generalizing start with
  | nil => rfl
  | cons first rest ih =>
    rw [List.foldl_cons, ih _ fun insn member => absent insn (List.mem_cons_of_mem _ member)]
    have other : first.offset ≠ offset := absent first List.mem_cons_self
    simp [Std.HashMap.getElem?_insert, other]

private theorem index_fold_found (insns : List Insn) (start : Nat × Std.HashMap Nat Nat)
    (offset i : Nat) (found : (insns.foldl indexStep start).2[offset]? = some i) :
    start.2[offset]? = some i ∨
    ∃ k insn, insns[k]? = some insn ∧ insn.offset = offset ∧ i = start.1 + k := by
  induction insns generalizing start with
  | nil => exact .inl found
  | cons first rest ih =>
    rcases ih _ found with earlier | ⟨k, insn, present, here, place⟩
    · simp only [Std.HashMap.getElem?_insert] at earlier
      split at earlier
      next same => exact .inr ⟨0, first, rfl, beq_iff_eq.mp same, by simpa using earlier.symm⟩
      next => exact .inl earlier
    · refine .inr ⟨k + 1, insn, present, here, ?_⟩
      rw [place]
      simp only
      omega

private theorem index_fold_at (insns : List Insn) (start : Nat × Std.HashMap Nat Nat)
    (distinct : (insns.map Insn.offset).Nodup) {k : Nat} {insn : Insn}
    (present : insns[k]? = some insn) :
    (insns.foldl indexStep start).2[insn.offset]? = some (start.1 + k) := by
  induction insns generalizing start k with
  | nil => cases present
  | cons first rest ih =>
    obtain ⟨fresh, others⟩ := List.nodup_cons.mp distinct
    cases k with
    | zero =>
      cases present
      rw [List.foldl_cons, index_fold_absent rest _ _ ?_]
      · simp
      · intro insn member same
        exact fresh (List.mem_map.mpr ⟨insn, member, same⟩)
    | succ k =>
      rw [List.foldl_cons, ih _ others present]
      simp only [Option.some.injEq]
      omega

private theorem ofInsns_index (insns : Array Insn) :
    (Body.ofInsns insns).index = (insns.toList.foldl indexStep (0, {})).2 := by
  simp [Body.ofInsns]

/-- An index that is looked up is the place of an instruction with that offset. -/
theorem ofInsns_indexOf? {insns : Array Insn} {target : Int} {i : Nat}
    (found : (Body.ofInsns insns).indexOf? target = some i) :
    ∃ insn, insns[i]? = some insn ∧ (insn.offset : Int) = target := by
  unfold Body.indexOf? at found
  split at found
  · cases found
  next notNegative =>
    rw [ofInsns_index] at found
    rcases index_fold_found _ _ _ _ found with empty | ⟨k, insn, present, here, place⟩
    · simp at empty
    · refine ⟨insn, ?_, by omega⟩
      rw [place]
      simpa using present

/-- Instructions with distinct offsets are found by them. -/
theorem ofInsns_indexOf?_at {insns : Array Insn}
    (distinct : (insns.toList.map Insn.offset).Nodup) {i : Nat} {insn : Insn}
    (present : insns[i]? = some insn) :
    (Body.ofInsns insns).indexOf? insn.offset = some i := by
  unfold Body.indexOf?
  rw [if_neg (by omega), ofInsns_index]
  have listed : insns.toList[i]? = some insn := by simpa using present
  simpa using index_fold_at insns.toList (0, {}) distinct listed

end Body

namespace Flow

/-- The types found so far for an instruction. -/
def types? (flow : Flow) (i : Nat) : Option TypeState := (flow.states[i]?).join

/-- New types for an instruction, which has to be visited again. -/
def put (flow : Flow) (j : Nat) (types : TypeState) : Flow :=
  ⟨flow.states.setIfInBounds j (some types), flow.maxStack, j :: flow.work⟩

theorem types?_lt {flow : Flow} {i : Nat} {types : TypeState} (found : flow.types? i = some types) :
    i < flow.states.size := by
  unfold types? at found
  by_contra outside
  rw [Array.getElem?_eq_none (by omega)] at found
  cases found

theorem put_types? (flow : Flow) {j : Nat} (i : Nat) (types : TypeState)
    (inside : j < flow.states.size) :
    (flow.put j types).types? i = if i = j then some types else flow.types? i := by
  simp only [types?, put, Array.getElem?_setIfInBounds]
  by_cases same : j = i
  · subst same
    simp [inside]
  · simp [same, Ne.symm same]

@[simp] theorem put_size (flow : Flow) (j : Nat) (types : TypeState) :
    (flow.put j types).states.size = flow.states.size := by
  simp [put]

theorem joinAll_cons (body : Body) (types : TypeState) (flow : Flow) (j : Nat) (rest : List Nat) :
    joinAll body types flow (j :: rest) =
      match TypeState.join (flow.types? j) types with
      | .error cause => .error (.verify ((body.insns[j]?.map Insn.offset).getD 0) cause)
      | .ok none => joinAll body types flow rest
      | .ok (some state) => joinAll body types (flow.put j state) rest := by
  cases flow
  rfl

/-- One flow goes on from another: types are only replaced by types that cover them, and whatever
changed is on the work list. -/
structure Grows (before after : Flow) : Prop where
  size : after.states.size = before.states.size
  depth : before.maxStack ≤ after.maxStack
  kept : ∀ i known, before.types? i = some known →
    ∃ types, after.types? i = some types ∧ types.Covers known ∧ (types = known ∨ i ∈ after.work)
  fresh : ∀ i types, after.types? i = some types → before.types? i = none → i ∈ after.work
  work : ∀ i ∈ before.work, i ∈ after.work

theorem Grows.refl (flow : Flow) : flow.Grows flow where
  size := rfl
  depth := le_refl _
  kept := fun _ known found => ⟨known, found, .refl known, .inl rfl⟩
  fresh := fun _ _ found missing => by rw [missing] at found; cases found
  work := fun _ member => member

theorem Grows.trans {first second third : Flow} (before : first.Grows second)
    (after : second.Grows third) : first.Grows third where
  size := after.size.trans before.size
  depth := before.depth.trans after.depth
  kept := by
    intro i known found
    obtain ⟨middle, there, covers, changed⟩ := before.kept i known found
    obtain ⟨types, last, above, again⟩ := after.kept i middle there
    refine ⟨types, last, above.trans covers, ?_⟩
    rcases again with rfl | listed
    · exact changed.imp_right (after.work i)
    · exact .inr listed
  fresh := by
    intro i types found missing
    cases middle : second.types? i with
    | none => exact after.fresh i types found middle
    | some known => exact after.work i (before.fresh i known middle missing)
  work := fun i member => after.work i (before.work i member)

theorem put_grows (flow : Flow) {j : Nat} {types : TypeState} (inside : j < flow.states.size)
    (above : ∀ known, flow.types? j = some known → types.Covers known) :
    flow.Grows (flow.put j types) where
  size := put_size flow j types
  depth := le_refl _
  kept := by
    intro i known found
    rw [put_types? flow i types inside]
    split
    next same =>
      subst same
      exact ⟨types, rfl, above known found, .inr List.mem_cons_self⟩
    next => exact ⟨known, found, .refl known, .inl rfl⟩
  fresh := by
    intro i new found missing
    rw [put_types? flow i types inside] at found
    split at found
    next same => exact same ▸ List.mem_cons_self
    next => rw [missing] at found; cases found
  work := fun i member => List.mem_cons_of_mem j member

/-- How often the types of an instruction can still change. -/
def credit (slots : Nat) : Option TypeState → Nat
  | none => slots + 1
  | some types => types.knownSlots.card

/-- The rounds that are left at most. -/
def rank (flow : Flow) (slots : Nat) : Nat :=
  flow.work.length + ∑ i ∈ Finset.range flow.states.size, credit slots (flow.types? i)

theorem put_rank (flow : Flow) {slots j : Nat} {types : TypeState} (inside : j < flow.states.size)
    (cheaper : types.knownSlots.card < credit slots (flow.types? j)) :
    (flow.put j types).rank slots ≤ flow.rank slots := by
  have spent : ∑ i ∈ Finset.range flow.states.size, credit slots ((flow.put j types).types? i) <
      ∑ i ∈ Finset.range flow.states.size, credit slots (flow.types? i) := by
    refine Finset.sum_lt_sum ?_ ⟨j, Finset.mem_range.mpr inside, ?_⟩
    · intro i _
      rw [put_types? flow i types inside]
      split
      next same => exact same ▸ cheaper.le
      next => exact le_refl _
    · rw [put_types? flow j types inside, if_pos rfl]
      exact cheaper
  simp only [rank, put_size]
  simp only [put, List.length_cons] at spent ⊢
  omega

/-- All types found so far are about the same locals. -/
def Sized (flow : Flow) (slots : Nat) : Prop :=
  ∀ i types, flow.types? i = some types → types.locals.size = slots

theorem Sized.put {flow : Flow} {slots j : Nat} {types : TypeState} (sized : flow.Sized slots)
    (inside : j < flow.states.size) (fits : types.locals.size = slots) :
    (flow.put j types).Sized slots := by
  intro i known found
  rw [put_types? flow i types inside] at found
  split at found
  next => cases found; exact fits
  next => exact sized i known found

/-- What handing the types `after` on to the instructions `next` does to a flow. -/
structure Joined (slots : Nat) (after : TypeState) (next : List Nat) (flow last : Flow) : Prop where
  grows : flow.Grows last
  sized : last.Sized slots
  depth : last.maxStack = flow.maxStack
  received : ∀ j ∈ next, ∃ known, last.types? j = some known ∧ known.Covers after
  rank : last.rank slots ≤ flow.rank slots

theorem joinAll_joined {body : Body} {after : TypeState} {slots : Nat} {next : List Nat}
    {flow last : Flow} (sized : flow.Sized slots) (fits : after.locals.size = slots)
    (inside : ∀ j ∈ next, j < flow.states.size)
    (joined : joinAll body after flow next = .ok last) : Joined slots after next flow last := by
  induction next generalizing flow with
  | nil =>
    cases joined
    exact ⟨.refl _, sized, rfl, fun _ member => (List.not_mem_nil member).elim, le_refl _⟩
  | cons j rest ih =>
    have here : j < flow.states.size := inside j List.mem_cons_self
    have others : ∀ k ∈ rest, k < flow.states.size := fun k member =>
      inside k (List.mem_cons_of_mem j member)
    -- What the rest of the list receives is covered by what `j` already has in `middle`.
    have assemble : ∀ middle, flow.Grows middle → middle.maxStack = flow.maxStack →
        middle.rank slots ≤ flow.rank slots →
        (∃ known, middle.types? j = some known ∧ known.Covers after) →
        Joined slots after rest middle last → Joined slots after (j :: rest) flow last := by
      rintro middle grows depth spent ⟨known, found, covers⟩ done
      refine ⟨grows.trans done.grows, done.sized, done.depth.trans depth, ?_, done.rank.trans spent⟩
      intro k member
      rcases List.mem_cons.mp member with rfl | later
      · obtain ⟨types, there, above, -⟩ := done.grows.kept k known found
        exact ⟨types, there, above.trans covers⟩
      · exact done.received k later
    rw [joinAll_cons] at joined
    cases known : flow.types? j with
    | none =>
      rw [known] at joined
      have cheaper : after.knownSlots.card < credit slots (flow.types? j) := by
        rw [known]
        exact Nat.lt_succ_of_le (fits ▸ after.card_knownSlots_le)
      refine assemble (flow.put j after) ?_ rfl (put_rank flow here cheaper) ?_ ?_
      · exact put_grows flow here fun old present => by rw [known] at present; cases present
      · exact ⟨after, by rw [put_types? flow j after here, if_pos rfl], .refl after⟩
      · exact ih (sized.put here fits) (by simpa using others) joined
    | some types =>
      rw [known] at joined
      split at joined
      next => cases joined
      next result =>
        rcases TypeState.join_some ((sized j types known).trans fits.symm) result with
          ⟨-, covers⟩ | ⟨met, wrong, -⟩
        · exact assemble flow (.refl flow) rfl (le_refl _) ⟨types, known, covers⟩
            (ih sized others joined)
        · cases wrong
      next met result =>
        rcases TypeState.join_some ((sized j types known).trans fits.symm) result with
          ⟨wrong, -⟩ | ⟨_, same, overKnown, overAfter, fewer⟩
        · cases wrong
        · cases same
          have cheaper : met.knownSlots.card < credit slots (flow.types? j) := by
            rw [known]
            exact Finset.card_lt_card fewer
          have size : met.locals.size = slots := overAfter.size.trans fits
          refine assemble (flow.put j met) ?_ rfl (put_rank flow here cheaper) ?_ ?_
          · exact put_grows flow here fun old present => by
              rw [known] at present; cases present; exact overKnown
          · exact ⟨met, by rw [put_types? flow j met here, if_pos rfl], overAfter⟩
          · exact ih (sized.put here size) (by simpa using others) joined

end Flow

/-- An instruction whose types let it run, within a stack depth, and that hands on to its
successors what they expect. -/
def Handled (body : Body) (pool : Pool) (typing : Nat → Option TypeState) (depth i : Nat)
    (insn : Insn) (types : TypeState) : Prop :=
  ∃ after next, Rule pool insn.offset types insn.action after ∧ body.successors i insn = .ok next ∧
    types.stack.length ≤ depth ∧ after.stack.length ≤ depth ∧
    ∀ j ∈ next, ∃ known, typing j = some known ∧ known.Covers after

theorem Handled.grows {body : Body} {pool : Pool} {flow last : Flow} {i : Nat} {insn : Insn}
    {types : TypeState} (handled : Handled body pool flow.types? flow.maxStack i insn types)
    (grows : flow.Grows last) : Handled body pool last.types? last.maxStack i insn types := by
  obtain ⟨after, next, rule, follow, shallow, peak, received⟩ := handled
  refine ⟨after, next, rule, follow, shallow.trans grows.depth, peak.trans grows.depth, ?_⟩
  intro j member
  obtain ⟨known, found, covers⟩ := received j member
  obtain ⟨new, there, above, -⟩ := grows.kept j known found
  exact ⟨new, there, above.trans covers⟩

/-- Every index that is looked up belongs to an instruction. -/
def Body.Indexed (body : Body) : Prop :=
  ∀ target i, body.indexOf? target = some i → i < body.insns.size

theorem Body.ofInsns_indexed (insns : Array Insn) : (Body.ofInsns insns).Indexed := by
  intro target i found
  obtain ⟨insn, present, -⟩ := Body.ofInsns_indexOf? found
  exact (Array.getElem?_eq_some_iff.mp present).1

theorem Body.successors_inside {body : Body} (indexed : body.Indexed) {i : Nat} {insn : Insn}
    {next : List Nat} (follow : body.successors i insn = .ok next) :
    ∀ j ∈ next, j < body.insns.size := by
  have target : ∀ j ∈ (insn.action.target?.bind body.indexOf?).toList, j < body.insns.size := by
    intro j member
    obtain ⟨goal, -, found⟩ := Option.bind_eq_some_iff.mp (Option.mem_toList.mp member)
    exact indexed goal j found
  simp only [Body.successors] at follow
  split at follow
  · split at follow
    next below =>
      cases follow
      intro j member
      rcases List.mem_append.mp member with jump | following
      · exact target j jump
      · rw [List.mem_singleton.mp following]
        exact below
    next => cases follow
  · cases follow
    exact target

namespace Flow

/-- Every instruction with types is still to be visited or hands its types on. -/
structure Sound (body : Body) (pool : Pool) (start : TypeState) (flow : Flow) : Prop where
  size : flow.states.size = body.insns.size
  sized : flow.Sized start.locals.size
  entry : ∃ first, flow.types? 0 = some first ∧ first.Covers start
  handled : ∀ i insn types, body.insns[i]? = some insn → flow.types? i = some types →
    i ∈ flow.work ∨ Handled body pool flow.types? flow.maxStack i insn types

/-- A visit takes an instruction off the work list and leaves a sound flow. -/
theorem visit_sound {body : Body} {pool : Pool} {start : TypeState} {flow last : Flow} {i : Nat}
    {rest : List Nat} (indexed : body.Indexed) (sound : flow.Sound body pool start)
    (work : flow.work = i :: rest)
    (visited : visit body pool { flow with work := rest } i = .ok last) :
    last.Sound body pool start ∧ last.rank start.locals.size < flow.rank start.locals.size := by
  -- Until `i` is visited it is the only instruction that may be unhandled off the work list.
  have waiting : ∀ k insn types, body.insns[k]? = some insn → flow.types? k = some types →
      k ≠ i → k ∈ rest ∨ Handled body pool flow.types? flow.maxStack k insn types := by
    intro k insn types present found other
    refine (sound.handled k insn types present found).imp_left fun member => ?_
    rw [work] at member
    exact (List.mem_cons.mp member).resolve_left other
  have popped : flow.rank start.locals.size =
      Flow.rank { flow with work := rest } start.locals.size + 1 := by
    simp only [rank, work, List.length_cons, types?]
    omega
  unfold visit at visited
  split at visited
  next insn types present found =>
    change flow.types? i = some types at found
    split at visited
    · cases visited
    next after stepped =>
      have rule := rule_of_step stepped
      simp only at visited
      split at visited
      · cases visited
      next next follow =>
        have fits : after.locals.size = start.locals.size :=
          rule.size.trans (sound.sized i types found)
        have inside : ∀ j ∈ next, j < flow.states.size := by
          rw [sound.size]
          exact Body.successors_inside indexed follow
        let opened : Flow := { flow with
          work := rest
          maxStack := max flow.maxStack (max types.stack.length after.stack.length) }
        have joined : Joined start.locals.size after next opened last :=
          joinAll_joined sound.sized fits inside visited
        have grows : Flow.Grows { flow with work := rest } last :=
          ⟨joined.grows.size, le_trans (le_max_left _ _) joined.grows.depth, joined.grows.kept,
            joined.grows.fresh, joined.grows.work⟩
        refine ⟨⟨grows.size.trans sound.size, joined.sized, ?_, ?_⟩, ?_⟩
        · obtain ⟨first, there, covers⟩ := sound.entry
          obtain ⟨new, now, above, -⟩ := grows.kept 0 first there
          exact ⟨new, now, above.trans covers⟩
        · intro k other known placed now
          cases before : flow.types? k with
          | none => exact .inl (grows.fresh k known now before)
          | some old =>
            obtain ⟨new, there, -, changed⟩ := grows.kept k old before
            rw [now] at there
            cases there
            rcases changed with rfl | listed
            · by_cases self : k = i
              · subst self
                rw [found] at before
                rw [present] at placed
                cases before
                cases placed
                have peak : max types.stack.length after.stack.length ≤ last.maxStack := by
                  rw [joined.depth]
                  exact le_max_right _ _
                exact .inr ⟨after, next, rule, follow, le_trans (le_max_left _ _) peak,
                  le_trans (le_max_right _ _) peak, joined.received⟩
              · refine (waiting k other known placed before self).imp (grows.work k) ?_
                intro (handled : Handled body pool (types? { flow with work := rest }) _ _ _ _)
                exact handled.grows grows
            · exact .inl listed
        · rw [popped]
          exact Nat.lt_succ_of_le joined.rank
  next missing =>
    cases visited
    refine ⟨⟨sound.size, sound.sized, sound.entry, ?_⟩, by rw [popped]; exact Nat.lt_succ_self _⟩
    intro k insn types present found
    by_cases self : k = i
    · subst self
      exact (missing insn types present found).elim
    · exact waiting k insn types present found self

/-- Fuel as large as the rank empties the work list. -/
theorem settle_sound {body : Body} {pool : Pool} {start : TypeState} (indexed : body.Indexed)
    (fuel : Nat) {flow last : Flow} (sound : flow.Sound body pool start)
    (enough : flow.rank start.locals.size ≤ fuel) (settled : settle body pool fuel flow = .ok last) :
    last.Sound body pool start ∧ last.work = [] := by
  induction fuel generalizing flow with
  | zero =>
    cases settled
    refine ⟨sound, List.eq_nil_of_length_eq_zero ?_⟩
    simp only [rank] at enough
    omega
  | succ fuel ih =>
    unfold settle at settled
    split at settled
    next empty =>
      cases settled
      exact ⟨sound, empty⟩
    next i rest work =>
      split at settled
      · cases settled
      next middle visited =>
        obtain ⟨kept, less⟩ := visit_sound indexed sound work visited
        exact ih kept (by omega) settled

end Flow

/-- The types on entry to a method: its arguments, and nothing known of the other locals. -/
def entryTypes (init : List VType) (maxLocals : Nat) : TypeState :=
  { locals := (init ++ List.replicate (maxLocals - init.length) VType.top).toArray, stack := [] }

/-- The flow before the first round. -/
def Flow.start (insns : Array Insn) (entry : TypeState) : Flow :=
  { states := (Array.replicate insns.size none).setIfInBounds 0 (some entry), work := [0] }

theorem Flow.start_types? {insns : Array Insn} (some_ : 0 < insns.size) (entry : TypeState) (i : Nat) :
    (Flow.start insns entry).types? i = if i = 0 then some entry else none := by
  simp only [Flow.start, Flow.types?, Array.getElem?_setIfInBounds, Array.getElem?_replicate]
  by_cases first : i = 0
  · simp [first, some_]
  · simp only [first, Ne.symm first, if_false]
    split <;> rfl

theorem Flow.start_sound {insns : Array Insn} (pool : Pool) (entry : TypeState)
    (some_ : 0 < insns.size) :
    (Flow.start insns entry).Sound (Body.ofInsns insns) pool entry ∧
      (Flow.start insns entry).rank entry.locals.size ≤ insns.size * (entry.locals.size + 1) + 1 := by
  have found := Flow.start_types? some_ entry
  have size : (Flow.start insns entry).states.size = insns.size := by simp [Flow.start]
  refine ⟨⟨size, ?_, ⟨entry, by rw [found, if_pos rfl], .refl entry⟩, ?_⟩, ?_⟩
  · intro i types present
    rw [found] at present
    split at present <;> cases present
    rfl
  · intro i insn types _ present
    rw [found] at present
    split at present
    next first => exact .inl (by simp [first, Flow.start])
    next => cases present
  · have bound : ∀ i ∈ Finset.range (Flow.start insns entry).states.size,
        Flow.credit entry.locals.size ((Flow.start insns entry).types? i) ≤ entry.locals.size + 1 := by
      intro i _
      rw [found]
      split
      · exact Nat.le_succ_of_le entry.card_knownSlots_le
      · exact le_refl _
    have total := Finset.sum_le_card_nsmul _ _ _ bound
    simp only [Finset.card_range, size, smul_eq_mul] at total
    simp only [Flow.rank, size]
    have queue : (Flow.start insns entry).work.length = 1 := rfl
    omega

/-- The result of an analysis types every instruction: each lets the one before it go on, within
the reported stack depth. -/
structure Analysis.Typed (analysis : Analysis) (pool : Pool) (entry : TypeState) : Prop where
  size : analysis.states.size = analysis.body.insns.size
  indexed : analysis.body.Indexed
  branches : ∀ (i : Nat) (insn : Insn) target, analysis.body.insns[i]? = some insn →
    insn.action.target? = some target → ∃ j, analysis.body.indexOf? target = some j
  entry : ∃ first, analysis.states[0]? = some first ∧ first.Covers entry
  handled : ∀ i insn, analysis.body.insns[i]? = some insn → ∃ types, analysis.states[i]? = some types ∧
    Handled analysis.body pool (fun j => analysis.states[j]?) analysis.maxStack i insn types

theorem Body.badBranch?_none {body : Body} (none : body.badBranch? = none) {i : Nat} {insn : Insn}
    {target : Int} (present : body.insns[i]? = some insn) (branch : insn.action.target? = some target) :
    ∃ j, body.indexOf? target = some j := by
  have member : insn ∈ body.insns.toList :=
    List.mem_of_getElem? (i := i) (by simpa using present)
  have checked := List.findSome?_eq_none_iff.mp none insn member
  rw [branch] at checked
  simp only [ite_eq_left_iff, reduceCtorEq, imp_false, not_not] at checked
  exact Option.isSome_iff_exists.mp checked

theorem reachedAll_inv {body : Body} {states : Array (Option TypeState)}
    {all : Array TypeState} (size : states.size = body.insns.size)
    (reached : reachedAll body states = .ok all) : states = all.map some := by
  unfold reachedAll at reached
  split at reached
  · cases reached
  next none =>
    cases reached
    have present : ∀ state ∈ states.toList, ∃ types, state = some types := by
      intro state member
      obtain ⟨i, bound, here⟩ := List.mem_iff_getElem.mp member
      have inside : i < (body.insns.zip states).size := by
        simpa [size] using bound
      have checked := Array.find?_eq_none.mp none _ (Array.getElem_mem inside)
      rw [Array.getElem_zip] at checked
      simp only [Bool.not_eq_true, Option.isNone_eq_false_iff, Option.isSome_iff_exists] at checked
      obtain ⟨types, same⟩ := checked
      exact ⟨types, by rw [← here]; simpa using same⟩
    apply Array.ext'
    rw [Array.toList_map, Array.toList_filterMap]
    clear none size
    generalize states.toList = list at present
    induction list with
    | nil => rfl
    | cons state rest ih =>
      obtain ⟨types, rfl⟩ := present state List.mem_cons_self
      simpa using ih fun other member => present other (List.mem_cons_of_mem _ member)

theorem analyze_typed {code : Bytes} {pool : Pool} {init : List VType} {maxLocals : Nat}
    {analysis : Analysis} (analyzed : analyze code pool init maxLocals = .ok analysis) :
    ∃ insns, decode code = .ok insns ∧ insns.size ≠ 0 ∧ analysis.body = Body.ofInsns insns ∧
      analysis.Typed pool (entryTypes init maxLocals) := by
  unfold analyze at analyzed
  split at analyzed
  · cases analyzed
  next insns decoded =>
    simp only [throw_eq_error, error_bind] at analyzed
    split at analyzed
    · cases analyzed
    next nonempty =>
      split at analyzed
      · cases analyzed
      next clean =>
        have checked : (Body.ofInsns insns).badBranch? = none := by
          cases outcome : (Body.ofInsns insns).badBranch? with
          | none => rfl
          | some bad => exact (clean bad.1 bad.2 outcome).elim
        simp only [bind_eq_ok, pure_eq_ok] at analyzed
        obtain ⟨flow, settled, states, reached, done⟩ := analyzed
        have some_ : 0 < insns.size := by
          simpa [Array.isEmpty_iff_size_eq_zero, Nat.pos_iff_ne_zero] using nonempty
        cases done
        obtain ⟨sound, enough⟩ := Flow.start_sound pool (entryTypes init maxLocals) some_
        obtain ⟨sound, empty⟩ := Flow.settle_sound (Body.ofInsns_indexed insns) _ sound enough settled
        have all := reachedAll_inv sound.size reached
        have typing : flow.types? = fun j => states[j]? := by
          funext j
          simp only [Flow.types?, all, Array.getElem?_map]
          cases states[j]? <;> rfl
        refine ⟨insns, decoded, Nat.pos_iff_ne_zero.mp some_, rfl, ?_,
          Body.ofInsns_indexed insns, fun i insn target => Body.badBranch?_none checked, ?_, ?_⟩
        · simpa [all] using sound.size
        · simpa [typing] using sound.entry
        · intro i insn present
          have bound : i < states.size := by
            have size := sound.size
            rw [all, Array.size_map] at size
            rw [size]
            exact (Array.getElem?_eq_some_iff.mp present).1
          have found : flow.types? i = some states[i] := by
            rw [typing]
            exact Array.getElem?_eq_getElem bound
          refine ⟨states[i], Array.getElem?_eq_getElem bound, ?_⟩
          have handled := (sound.handled i insn _ present found).resolve_left (by simp [empty])
          rwa [typing] at handled

end Minilang.ClassFile
