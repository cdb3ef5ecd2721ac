import Mathlib.Logic.Relation
import Minilang.Proofs.AnalysisFrames
import Minilang.Proofs.ConsistentTyping

/-! The analysis finds the most precise typing that fits together, and it succeeds exactly when
there is one. Instructions may be visited in any order: a round takes one of those that wait, the
rank bounds the number of rounds, and whatever is found stays below every typing, so all orders
end with the same types. -/

namespace Minilang.ClassFile

/-- Control can go from one place to another. Behind the last instruction there is a place where
control falls off. -/
inductive Edge (insns : Array Insn) : Nat → Nat → Prop where
  | jump {i j : Nat} {insn goal : Insn} (present : insns[i]? = some insn)
      (there : insns[j]? = some goal) (branch : insn.action.target? = some (goal.offset : Int)) :
      Edge insns i j
  | next {i : Nat} {insn : Insn} (present : insns[i]? = some insn)
      (falls : insn.action.fallsThrough = true) : Edge insns i (i + 1)

/-- Control can come to a place from the first instruction. -/
def Reachable (insns : Array Insn) (i : Nat) : Prop := Relation.ReflTransGen (Edge insns) 0 i

theorem Edge.of_successor {insns : Array Insn} {i j : Nat} {insn : Insn} {next : List Nat}
    (present : insns[i]? = some insn) (follow : (Body.ofInsns insns).successors i insn = .ok next)
    (member : j ∈ next) : Edge insns i j := by
  have jump : j ∈ (insn.action.target?.bind (Body.ofInsns insns).indexOf?).toList →
      Edge insns i j := by
    intro found
    obtain ⟨target, branch, there⟩ := Option.bind_eq_some_iff.mp (Option.mem_toList.mp found)
    obtain ⟨goal, placed, same⟩ := Body.ofInsns_indexOf? there
    exact .jump present placed (by rw [same]; exact branch)
  simp only [Body.successors] at follow
  split at follow
  next falls =>
    split at follow <;> cases follow
    rcases List.mem_append.mp member with found | following
    · exact jump found
    · rw [List.mem_singleton.mp following]
      exact .next present falls
  next =>
    cases follow
    exact jump member

theorem Edge.successor {insns : Array Insn} (distinct : (insns.toList.map Insn.offset).Nodup)
    {i j : Nat} {insn : Insn} {next : List Nat} (edge : Edge insns i j)
    (present : insns[i]? = some insn) (follow : (Body.ofInsns insns).successors i insn = .ok next) :
    j ∈ next := by
  simp only [Body.successors] at follow
  cases edge with
  | jump here there branch =>
    rw [present] at here
    cases here
    have found := Body.ofInsns_indexOf?_at distinct there
    rw [branch, Option.bind_some, found] at follow
    split at follow
    · split at follow <;> cases follow
      exact List.mem_append_left _ (List.mem_singleton.mpr rfl)
    · cases follow
      exact List.mem_singleton.mpr rfl
  | next here falls =>
    rw [present] at here
    cases here
    rw [if_pos falls] at follow
    split at follow <;> cases follow
    exact List.mem_append_right _ (List.mem_singleton.mpr rfl)

/-- Types for the instructions that fit together. The first instruction is entered with the types
the method starts from, every instruction can be executed, and what it leaves has the same stack
as each place it leads to and the same locals, unless they are unknown there. -/
structure FitsTogether (insns : Array Insn) (pool : Pool) (entry : TypeState)
    (typing : Nat → TypeState) : Prop where
  entry : (typing 0).Covers entry
  steps : ∀ (i : Nat) insn, insns[i]? = some insn →
    ∃ after, (typing i).step pool insn.offset insn.action = .ok after ∧
      ∀ j, Edge insns i j → (typing j).Covers after

theorem TypeState.Covers.antisymm {left right : TypeState} (above : left.Covers right)
    (below : right.Covers left) : left = right := by
  obtain ⟨locals, stack⟩ := left
  obtain ⟨others, stack'⟩ := right
  have same : locals = others := by
    refine Array.ext above.size fun slot inside within => ?_
    have here := Array.getElem?_eq_getElem inside
    have there := Array.getElem?_eq_getElem within
    rcases above.locals slot _ here with unknown | found
    · rcases below.locals slot _ there with alsoUnknown | found
      · rw [unknown, alsoUnknown]
      · rw [here] at found
        exact Option.some.inj found
    · rw [there] at found
      exact (Option.some.inj found).symm
  rw [same, show stack = stack' from above.stack]

namespace Flow

/-- Some rounds of the analysis. Each takes any instruction off the work list. -/
inductive Rounds (body : Body) (pool : Pool) : Nat → Flow → Flow → Prop where
  | done {flow : Flow} : Rounds body pool 0 flow flow
  | round {count i : Nat} {rest : List Nat} {flow middle last : Flow}
      (chosen : flow.work.Perm (i :: rest))
      (visited : visit body pool { flow with work := rest } i = .ok middle)
      (more : Rounds body pool count middle last) : Rounds body pool (count + 1) flow last

variable {body : Body} {pool : Pool}

theorem settle_rounds {fuel : Nat} {flow last : Flow} (settled : settle body pool fuel flow = .ok last) :
    ∃ count, Rounds body pool count flow last := by
  induction fuel generalizing flow with
  | zero =>
    cases settled
    exact ⟨0, .done⟩
  | succ fuel ih =>
    unfold settle at settled
    split at settled
    · cases settled
      exact ⟨0, .done⟩
    next i rest work =>
      split at settled
      · cases settled
      next middle visited =>
        obtain ⟨count, more⟩ := ih settled
        exact ⟨count + 1, .round (by rw [work]) visited more⟩

/-- The order of the work list does not matter. -/
theorem Sound.reorder {start : TypeState} {flow : Flow} (sound : flow.Sound body pool start)
    {work : List Nat} (same : flow.work.Perm work) :
    Sound body pool start { flow with work } ∧
      Flow.rank { flow with work } start.locals.size = flow.rank start.locals.size := by
  refine ⟨⟨sound.size, sound.sized, sound.entry, ?_⟩, ?_⟩
  · intro i insn types present found
    rcases sound.handled i insn types present found with waiting | handled
    · exact .inl (same.mem_iff.mp waiting)
    · exact .inr handled
  · simp only [rank, same.length_eq]
    rfl

theorem Rounds.sound {start : TypeState} {count : Nat} {flow last : Flow} (indexed : body.Indexed)
    (rounds : Rounds body pool count flow last) (sound : flow.Sound body pool start) :
    last.Sound body pool start ∧
      last.rank start.locals.size + count ≤ flow.rank start.locals.size := by
  induction rounds with
  | done => exact ⟨sound, le_refl _⟩
  | round chosen visited more ih =>
    obtain ⟨reordered, sameRank⟩ := sound.reorder chosen
    obtain ⟨kept, less⟩ := visit_sound indexed reordered rfl visited
    obtain ⟨last, spent⟩ := ih kept
    refine ⟨last, ?_⟩
    omega

theorem Rounds.stays_below {start : TypeState} {typing : Nat → TypeState} {depth count : Nat}
    {flow last : Flow} (indexed : body.Indexed)
    (typed : ∀ i < body.insns.size, TypedAt body pool typing depth i)
    (rounds : Rounds body pool count flow last) (sound : flow.Sound body pool start)
    (below : flow.Below typing depth) : last.Below typing depth := by
  induction rounds with
  | done => exact below
  | @round _ i rest flow _ _ chosen visited more ih =>
    obtain ⟨reordered, -⟩ := sound.reorder chosen
    have lower : Flow.Below typing depth { flow with work := rest } := ⟨below.covers, below.depth⟩
    obtain ⟨found, again, kept⟩ := visit_below indexed (by exact sound.size) lower i (typed i)
    rw [visited] at again
    cases again
    exact ih (visit_sound indexed reordered rfl visited).1 kept

theorem joinAll_found {after : TypeState} {next : List Nat} {flow last : Flow}
    (inside : ∀ j ∈ next, j < flow.states.size) (joined : joinAll body after flow next = .ok last)
    {i : Nat} {types : TypeState} (found : last.types? i = some types) :
    i ∈ next ∨ ∃ known, flow.types? i = some known := by
  induction next generalizing flow with
  | nil =>
    cases joined
    exact .inr ⟨types, found⟩
  | cons j rest ih =>
    obtain ⟨here, others⟩ := List.forall_mem_cons.mp inside
    rw [joinAll_cons] at joined
    split at joined
    · cases joined
    · exact (ih others joined).imp_left (List.mem_cons_of_mem j)
    next met =>
      rcases ih (by simpa using others) joined with member | ⟨known, earlier⟩
      · exact .inl (List.mem_cons_of_mem j member)
      · rw [put_types? flow i _ here] at earlier
        split at earlier
        next same => exact .inl (same ▸ List.mem_cons_self)
        next => exact .inr ⟨known, earlier⟩

/-- Only instructions that control can come to get types. -/
theorem Rounds.reachable {insns : Array Insn} {start : TypeState} {count : Nat} {flow last : Flow}
    (rounds : Rounds (Body.ofInsns insns) pool count flow last)
    (sound : flow.Sound (Body.ofInsns insns) pool start)
    (found : ∀ i types, flow.types? i = some types → Reachable insns i) :
    ∀ i types, last.types? i = some types → Reachable insns i := by
  induction rounds with
  | done => exact found
  | @round _ i rest flow middle _ chosen visited more ih =>
    have indexed := Body.ofInsns_indexed insns
    obtain ⟨reordered, -⟩ := sound.reorder chosen
    refine ih (visit_sound indexed reordered rfl visited).1 ?_
    intro j types present
    unfold visit at visited
    split at visited
    next insn known placed here =>
      split at visited
      · cases visited
      next after stepped =>
        simp only at visited
        split at visited
        · cases visited
        next next follow =>
          have inside : ∀ j ∈ next, j < flow.states.size := by
            rw [sound.size]
            exact Body.successors_inside indexed follow
          rcases joinAll_found (by exact inside) visited present with
            member | ⟨earlier, old⟩
          · exact (found i known here).tail (.of_successor placed follow member)
          · exact found j earlier old
    · cases visited
      exact found j types present

/-- Where nothing is left to do, control falls off nowhere and all that it can come to has
types. -/
theorem Sound.settled {insns : Array Insn} {start : TypeState} {flow : Flow}
    (distinct : (insns.toList.map Insn.offset).Nodup)
    (sound : flow.Sound (Body.ofInsns insns) pool start) (empty : flow.work = []) {i : Nat}
    (reachable : Reachable insns i) : i < insns.size ∧ ∃ types, flow.types? i = some types := by
  have typed : ∀ i types, flow.types? i = some types → i < insns.size := by
    intro i types found
    have bound := types?_lt found
    rwa [sound.size] at bound
  induction reachable with
  | refl =>
    obtain ⟨first, found, -⟩ := sound.entry
    exact ⟨typed 0 first found, first, found⟩
  | @tail i j reachable edge ih =>
    obtain ⟨inside, types, found⟩ := ih
    have present : (Body.ofInsns insns).insns[i]? = some insns[i] := Array.getElem?_eq_getElem inside
    obtain ⟨after, next, -, follow, -, -, received⟩ :=
      (sound.handled i _ types present found).resolve_left (by simp [empty])
    obtain ⟨known, there, -⟩ := received j (edge.successor distinct present follow)
    exact ⟨typed j known there, known, there⟩

/-- The types of a flow in which nothing is left to do fit together. -/
theorem Sound.fits {insns : Array Insn} {start : TypeState} {flow : Flow}
    (distinct : (insns.toList.map Insn.offset).Nodup)
    (sound : flow.Sound (Body.ofInsns insns) pool start) (empty : flow.work = [])
    (reached : ∀ i < insns.size, Reachable insns i) :
    FitsTogether insns pool start fun i => (flow.types? i).getD default := by
  refine ⟨?_, ?_⟩
  · obtain ⟨first, found, covers⟩ := sound.entry
    simpa [found] using covers
  · intro i insn present
    obtain ⟨types, found⟩ := (sound.settled distinct empty
      (reached i (Array.getElem?_eq_some_iff.mp present).1)).2
    obtain ⟨after, next, rule, follow, -, -, received⟩ :=
      (sound.handled i insn types present found).resolve_left (by simp [empty])
    refine ⟨after, by simpa [found] using rule.step, ?_⟩
    intro j edge
    obtain ⟨known, there, covers⟩ := received j (edge.successor distinct present follow)
    simpa [there] using covers

end Flow

theorem common_bound {P : Nat → Nat → Prop} (size : Nat)
    (each : ∀ i < size, ∃ bound, ∀ larger, bound ≤ larger → P larger i) :
    ∃ bound, ∀ i < size, P bound i := by
  choose! bound holds using each
  refine ⟨(Finset.range size).sup bound, fun i inside => holds i inside _ ?_⟩
  exact Finset.le_sup (Finset.mem_range.mpr inside)

/-- Code in which every branch has a target, control can come to every instruction, and it stays
inside. -/
structure Traversable (insns : Array Insn) : Prop where
  nonempty : 0 < insns.size
  branches : ∀ insn ∈ insns, ∀ target, insn.action.target? = some target →
    ∃ goal ∈ insns, (goal.offset : Int) = target
  reached : ∀ i < insns.size, Reachable insns i
  stays : ∀ i, Reachable insns i → i < insns.size

theorem Traversable.edge_inside {insns : Array Insn} (traversable : Traversable insns) (i j : Nat)
    (edge : Edge insns i j) : j < insns.size := by
  have inside : i < insns.size := by
    cases edge with
    | jump present => exact (Array.getElem?_eq_some_iff.mp present).1
    | next present => exact (Array.getElem?_eq_some_iff.mp present).1
  exact traversable.stays j ((traversable.reached i inside).tail edge)

/-- An instruction that can be executed and hands on what is expected is typed, at any depth that is
large enough. -/
theorem Traversable.typedAt {insns : Array Insn} {pool : Pool} {typing : Nat → TypeState}
    (traversable : Traversable insns) (distinct : (insns.toList.map Insn.offset).Nodup) {i : Nat}
    {insn : Insn} (present : insns[i]? = some insn) {after : TypeState}
    (stepped : (typing i).step pool insn.offset insn.action = .ok after)
    (covers : ∀ j, Edge insns i j → (typing j).Covers after) :
    ∃ depth, ∀ deeper, depth ≤ deeper → TypedAt (Body.ofInsns insns) pool typing deeper i := by
  have follow : ∃ next, (Body.ofInsns insns).successors i insn = .ok next := by
    simp only [Body.successors]
    split
    next falls =>
      have behind : i + 1 < (Body.ofInsns insns).insns.size :=
        traversable.edge_inside i _ (.next present falls)
      rw [if_pos behind]
      exact ⟨_, rfl⟩
    next => exact ⟨_, rfl⟩
  obtain ⟨next, follow⟩ := follow
  refine ⟨max (typing i).stack.length after.stack.length, fun deeper enough => ?_⟩
  refine ⟨insn, after, next, present, rule_of_step stepped, follow,
    (le_max_left _ _).trans enough, (le_max_right _ _).trans enough, ?_, ?_⟩
  · exact fun j member => covers j (.of_successor present follow member)
  · intro target branch
    obtain ⟨goal, member, same⟩ :=
      traversable.branches _ (Array.mem_of_getElem? present) target branch
    obtain ⟨j, bound, at_⟩ := Array.mem_iff_getElem.mp member
    have there : insns[j]? = some goal := by rw [Array.getElem?_eq_getElem bound, at_]
    exact ⟨j, same ▸ Body.ofInsns_indexOf?_at distinct there⟩

theorem FitsTogether.typed {insns : Array Insn} {pool : Pool} {entry : TypeState}
    {typing : Nat → TypeState} (fits : FitsTogether insns pool entry typing)
    (traversable : Traversable insns) (distinct : (insns.toList.map Insn.offset).Nodup) :
    ∃ depth, ∀ i < insns.size, TypedAt (Body.ofInsns insns) pool typing depth i := by
  refine common_bound insns.size fun i here => ?_
  have present : insns[i]? = some insns[i] := Array.getElem?_eq_getElem here
  obtain ⟨after, stepped, covers⟩ := fits.steps i _ present
  exact traversable.typedAt distinct present stepped covers

private theorem start_reachable {insns : Array Insn} {entry : TypeState} (nonempty : 0 < insns.size)
    (i : Nat) (types : TypeState) (found : (Flow.start insns entry).types? i = some types) :
    Reachable insns i := by
  rw [Flow.start_types? nonempty] at found
  split at found
  next first =>
    rw [first]
    exact .refl
  next => cases found

/-- What a successful analysis has gone through. -/
private theorem analyze_settled {code : Bytes} {pool : Pool} {init : List VType} {maxLocals : Nat}
    {analysis : Analysis} (analyzed : analyze code pool init maxLocals = .ok analysis) :
    ∃ insns flow count, decode code = .ok insns ∧ analysis.body = Body.ofInsns insns ∧
      Traversable insns ∧ (insns.toList.map Insn.offset).Nodup ∧
      Flow.Rounds (Body.ofInsns insns) pool count (Flow.start insns (entryTypes init maxLocals)) flow ∧
      flow.Sound (Body.ofInsns insns) pool (entryTypes init maxLocals) ∧ flow.work = [] ∧
      flow.states = analysis.states.map some := by
  obtain ⟨insns, flow, states, decoded, nonempty, clean, settled, reached, rfl⟩ :=
    analyze_eq_ok.mp analyzed
  have some_ : 0 < insns.size := by
    simpa [Array.isEmpty_iff_size_eq_zero, Nat.pos_iff_ne_zero] using nonempty
  have distinct := (decode_tiles decoded).offsets_nodup
  obtain ⟨startSound, enough⟩ := Flow.start_sound pool (entryTypes init maxLocals) some_
  obtain ⟨sound, empty⟩ :=
    Flow.settle_sound (Body.ofInsns_indexed insns) _ startSound enough settled
  obtain ⟨count, rounds⟩ := Flow.settle_rounds settled
  have all := reachedAll_inv sound.size reached
  have size : states.size = insns.size := by
    have size := sound.size
    rwa [all, Array.size_map] at size
  refine ⟨insns, flow, count, decoded, rfl, ⟨some_, ?_, ?_, ?_⟩, distinct, rounds, sound, empty, all⟩
  · intro insn member target branch
    obtain ⟨i, inside, here⟩ := Array.mem_iff_getElem.mp member
    have present : (Body.ofInsns insns).insns[i]? = some insn := by
      rw [← here]
      exact Array.getElem?_eq_getElem inside
    obtain ⟨j, found⟩ := Body.badBranch?_none clean present branch
    obtain ⟨goal, there, same⟩ := Body.ofInsns_indexOf? found
    exact ⟨goal, Array.mem_of_getElem? there, same⟩
  · intro i inside
    have found : flow.types? i = some states[i] := by
      rw [Flow.types?, all, Array.getElem?_map, Array.getElem?_eq_getElem (size ▸ inside)]
      rfl
    exact rounds.reachable startSound (start_reachable some_) i _ found
  · intro i reachable
    exact (sound.settled distinct empty reachable).1

/-- The analysis of code that can be traversed succeeds, unless one of its visits fails. -/
theorem analyze_below_or {code : Bytes} {pool : Pool} {init : List VType} {maxLocals depth : Nat}
    {insns : Array Insn} {typing : Nat → TypeState} {P : AnalysisFault → Prop}
    (decoded : decode code = .ok insns) (traversable : Traversable insns)
    (covers : (typing 0).Covers (entryTypes init maxLocals))
    (each : ∀ (i : Nat) (flow : Flow), flow.states.size = insns.size → flow.Below typing depth →
      (∃ last, Flow.visit (Body.ofInsns insns) pool flow i = .ok last ∧ last.Below typing depth) ∨
        ∃ fault, Flow.visit (Body.ofInsns insns) pool flow i = .error fault ∧ P fault) :
    (∃ analysis, analyze code pool init maxLocals = .ok analysis) ∨
      ∃ fault, analyze code pool init maxLocals = .error fault ∧ P fault := by
  have distinct := (decode_tiles decoded).offsets_nodup
  have indexed := Body.ofInsns_indexed insns
  obtain ⟨startSound, enough⟩ :=
    Flow.start_sound pool (entryTypes init maxLocals) traversable.nonempty
  have clean : (Body.ofInsns insns).badBranch? = none := by
    refine List.findSome?_eq_none_iff.mpr fun insn member => ?_
    cases branch : insn.action.target? with
    | none => rfl
    | some target =>
      have listed : insn ∈ insns := Array.mem_toList_iff.mp member
      obtain ⟨goal, there, same⟩ := traversable.branches insn listed target branch
      obtain ⟨j, bound, at_⟩ := Array.mem_iff_getElem.mp there
      have found := Body.ofInsns_indexOf?_at distinct
        (show insns[j]? = some goal by rw [Array.getElem?_eq_getElem bound, at_])
      rw [same] at found
      simp [found]
  have nonempty : insns.isEmpty = false := by simpa using Nat.ne_of_gt traversable.nonempty
  rcases Flow.settle_below_or indexed each
    (insns.size * ((entryTypes init maxLocals).locals.size + 1) + 1) startSound
    (Flow.start_below covers traversable.nonempty depth) with ⟨flow, settled, -⟩ | ⟨fault, settled, failed⟩
  · obtain ⟨sound, empty⟩ := Flow.settle_sound indexed _ startSound enough settled
    obtain ⟨states, reached⟩ : ∃ all, reachedAll (Body.ofInsns insns) flow.states = .ok all :=
      reachedAll_ok fun i inside => (sound.settled distinct empty (traversable.reached i inside)).2
    exact .inl ⟨_, analyze_eq_ok.mpr
      ⟨insns, flow, states, decoded, nonempty, clean, settled, reached, rfl⟩⟩
  · refine .inr ⟨fault, ?_, failed⟩
    simp only [analyze, decoded, nonempty, clean, Bool.false_eq_true, if_false]
    exact congrArg (· >>= _) settled

/-- Code that can be traversed and has a typing is accepted. -/
private theorem analyze_of_fits {code : Bytes} {pool : Pool} {init : List VType} {maxLocals : Nat}
    {insns : Array Insn} {typing : Nat → TypeState} (decoded : decode code = .ok insns)
    (traversable : Traversable insns)
    (fits : FitsTogether insns pool (entryTypes init maxLocals) typing) :
    ∃ analysis, analyze code pool init maxLocals = .ok analysis := by
  obtain ⟨depth, typed⟩ := fits.typed traversable (decode_tiles decoded).offsets_nodup
  have accepted := analyze_below_or (P := fun _ => False) decoded traversable fits.entry
    fun i _ size below =>
      .inl (Flow.visit_below (Body.ofInsns_indexed insns) size below i (typed i))
  exact accepted.resolve_right fun ⟨_, _, failed⟩ => failed

/-- The types of an analysis, as a typing. -/
def Analysis.typing (analysis : Analysis) (i : Nat) : TypeState := (analysis.states[i]?).getD default

/-- The most precise typing: it fits together, and where it leaves a local unknown, so does every
other typing that does. -/
structure MostPrecise (insns : Array Insn) (pool : Pool) (entry : TypeState)
    (typing : Nat → TypeState) : Prop where
  fits : FitsTogether insns pool entry typing
  least : ∀ other, FitsTogether insns pool entry other → ∀ i < insns.size,
    (other i).Covers (typing i)

private theorem MostPrecise.of_rounds {insns : Array Insn} {pool : Pool} {entry : TypeState}
    {count : Nat} {flow : Flow} (traversable : Traversable insns)
    (distinct : (insns.toList.map Insn.offset).Nodup)
    (rounds : Flow.Rounds (Body.ofInsns insns) pool count (Flow.start insns entry) flow)
    (empty : flow.work = []) :
    MostPrecise insns pool entry fun i => (flow.types? i).getD default := by
  have indexed := Body.ofInsns_indexed insns
  have startSound := (Flow.start_sound pool entry traversable.nonempty).1
  have sound := (rounds.sound indexed startSound).1
  refine ⟨sound.fits distinct empty traversable.reached, ?_⟩
  intro other fits i inside
  obtain ⟨depth, typed⟩ := fits.typed traversable distinct
  have below := rounds.stays_below indexed typed startSound (Flow.start_below fits.entry traversable.nonempty depth)
  obtain ⟨-, types, found⟩ := sound.settled distinct empty (traversable.reached i inside)
  simpa [found] using below.covers i types found

theorem MostPrecise.unique {insns : Array Insn} {pool : Pool} {entry : TypeState}
    {first second : Nat → TypeState} (one : MostPrecise insns pool entry first)
    (two : MostPrecise insns pool entry second) (i : Nat) (inside : i < insns.size) :
    first i = second i :=
  (two.least first one.fits i inside).antisymm (one.least second two.fits i inside)

/-- Where no instruction leads back to the first one, it has the types the method starts from. -/
theorem MostPrecise.first {insns : Array Insn} {pool : Pool} {entry : TypeState}
    {typing : Nat → TypeState} (precise : MostPrecise insns pool entry typing)
    (nonempty : 0 < insns.size) (straight : ∀ i, ¬ Edge insns i 0) : typing 0 = entry := by
  have fits := precise.fits
  let other := Function.update typing 0 entry
  have later : ∀ j, j ≠ 0 → other j = typing j := fun j behind => Function.update_of_ne behind _ _
  have start : other 0 = entry := Function.update_self ..
  have moved : FitsTogether insns pool entry other := by
    refine ⟨start ▸ .refl entry, ?_⟩
    intro i insn present
    obtain ⟨after, stepped, covers⟩ := fits.steps i insn present
    have behind : ∀ j, Edge insns i j → j ≠ 0 := fun j edge same => straight i (same ▸ edge)
    by_cases first : i = 0
    · subst first
      obtain ⟨narrow, rule, above⟩ := (rule_of_step stepped).below fits.entry
      refine ⟨narrow, by rw [start]; exact rule.step, fun j edge => ?_⟩
      rw [later j (behind j edge)]
      exact (covers j edge).trans above
    · refine ⟨after, by rw [later i first]; exact stepped, fun j edge => ?_⟩
      rw [later j (behind j edge)]
      exact covers j edge
  have below := precise.least other moved 0 nonempty
  rw [start] at below
  exact fits.entry.antisymm below

/-- Visits in any order: there are at most as many as the rank allows, none of them fails, and
when none is left the instructions have the types of the analysis. -/
private theorem rounds_agree {insns : Array Insn} {pool : Pool} {entry : TypeState}
    {typing : Nat → TypeState} (traversable : Traversable insns)
    (distinct : (insns.toList.map Insn.offset).Nodup)
    (precise : MostPrecise insns pool entry typing) {count : Nat} {flow : Flow}
    (rounds : Flow.Rounds (Body.ofInsns insns) pool count (Flow.start insns entry) flow) :
    (∀ i rest, flow.work.Perm (i :: rest) →
      ∃ next, Flow.visit (Body.ofInsns insns) pool { flow with work := rest } i = .ok next) ∧
    (flow.work = [] → ∀ i < insns.size, flow.types? i = some (typing i)) := by
  have indexed := Body.ofInsns_indexed insns
  have startSound := (Flow.start_sound pool entry traversable.nonempty).1
  have sound := (rounds.sound indexed startSound).1
  refine ⟨?_, ?_⟩
  · intro i rest _
    obtain ⟨depth, typed⟩ := precise.fits.typed traversable distinct
    have below :=
      rounds.stays_below indexed typed startSound (Flow.start_below precise.fits.entry traversable.nonempty depth)
    have lower : Flow.Below typing depth { flow with work := rest } := ⟨below.covers, below.depth⟩
    obtain ⟨next, visited, -⟩ := Flow.visit_below indexed (by exact sound.size) lower i (typed i)
    exact ⟨next, visited⟩
  · intro empty i inside
    obtain ⟨-, types, found⟩ := sound.settled distinct empty (traversable.reached i inside)
    have same := (MostPrecise.of_rounds traversable distinct rounds empty).unique precise i inside
    simp only [found, Option.getD_some] at same
    rw [found, same]

/-- The analysis succeeds exactly on code that can be traversed and has a typing that fits
together. What it finds is the most precise such typing, in whatever order the instructions are
visited, and there is no order in which the visits go on for ever. -/
theorem analysis_is_most_precise (code : Bytes) (pool : Pool) (init : List VType) (maxLocals : Nat) :
    ((∃ analysis, analyze code pool init maxLocals = .ok analysis) ↔
      ∃ insns, decode code = .ok insns ∧ Traversable insns ∧
        ∃ typing, FitsTogether insns pool (entryTypes init maxLocals) typing) ∧
    (∀ analysis, analyze code pool init maxLocals = .ok analysis →
      ∃ insns, decode code = .ok insns ∧ analysis.body = Body.ofInsns insns ∧
        analysis.states.size = insns.size ∧
        MostPrecise insns pool (entryTypes init maxLocals) analysis.typing ∧
        ((∀ i, ¬ Edge insns i 0) → analysis.typing 0 = entryTypes init maxLocals) ∧
        ∀ count flow, Flow.Rounds (Body.ofInsns insns) pool count
            (Flow.start insns (entryTypes init maxLocals)) flow →
          (∀ i rest, flow.work.Perm (i :: rest) →
            ∃ next, Flow.visit (Body.ofInsns insns) pool { flow with work := rest } i = .ok next) ∧
          (flow.work = [] → flow.states = analysis.states.map some)) ∧
    (∀ insns, decode code = .ok insns → 0 < insns.size →
      ∀ count flow, Flow.Rounds (Body.ofInsns insns) pool count
          (Flow.start insns (entryTypes init maxLocals)) flow →
        count ≤ insns.size * ((entryTypes init maxLocals).locals.size + 1) + 1) := by
  have indexed := fun insns => Body.ofInsns_indexed insns
  refine ⟨⟨?_, ?_⟩, ?_, ?_⟩
  · rintro ⟨analysis, analyzed⟩
    obtain ⟨insns, flow, count, decoded, -, traversable, distinct, -, sound, empty, -⟩ :=
      analyze_settled analyzed
    exact ⟨insns, decoded, traversable, _, sound.fits distinct empty traversable.reached⟩
  · rintro ⟨insns, decoded, traversable, typing, fits⟩
    exact analyze_of_fits decoded traversable fits
  · intro analysis analyzed
    obtain ⟨insns, flow, count, decoded, body, traversable, distinct, rounds, sound, empty, all⟩ :=
      analyze_settled analyzed
    have size : analysis.states.size = insns.size := by
      have size := sound.size
      rwa [all, Array.size_map] at size
    have typing : (fun i => (flow.types? i).getD default) = analysis.typing := by
      funext i
      simp only [Flow.types?, all, Array.getElem?_map, Analysis.typing]
      cases analysis.states[i]? <;> rfl
    have precise := MostPrecise.of_rounds traversable distinct rounds empty
    rw [typing] at precise
    refine ⟨insns, decoded, body, size, precise, precise.first traversable.nonempty, ?_⟩
    intro others last anyOrder
    obtain ⟨goes, ends⟩ := rounds_agree traversable distinct precise anyOrder
    refine ⟨goes, fun finished => ?_⟩
    have lastSize : last.states.size = insns.size :=
      (anyOrder.sound (indexed insns) (Flow.start_sound pool _ traversable.nonempty).1).1.size
    refine Array.ext (by simp [lastSize, size]) fun i inside within => ?_
    have here := ends finished i (lastSize ▸ inside)
    rw [Flow.types?, Array.getElem?_eq_getElem inside] at here
    have bound : i < analysis.states.size := by simpa using within
    simpa [Analysis.typing, Array.getElem?_eq_getElem bound] using here
  · intro insns decoded nonempty count flow rounds
    obtain ⟨startSound, enough⟩ := Flow.start_sound pool (entryTypes init maxLocals) nonempty
    have spent := (rounds.sound (indexed insns) startSound).2
    omega

/-- A loop that puts a number where it was entered with an object. -/
def forgettingLoop : Bytes := [0x03, 0x3b, 0xa7, 0xff, 0xfe]

theorem forgettingLoop_is_most_precise :
    ∃ analysis, analyze forgettingLoop {} [.object "A"] 1 = .ok analysis ∧
      ∃ insns, decode forgettingLoop = .ok insns ∧
        MostPrecise insns {} (entryTypes [.object "A"] 1) analysis.typing := by
  let insns : Array Insn := #[{ offset := 0, op := ⟨0x03⟩, arg := 0, length := 1 },
    { offset := 1, op := ⟨0x3b⟩, arg := 0, length := 1 },
    { offset := 2, op := .goto, arg := 0, length := 3 }]
  let typing : Nat → TypeState := fun
    | 0 => ⟨#[.top], []⟩
    | 1 => ⟨#[.top], [.int]⟩
    | _ => ⟨#[.int], []⟩
  have decoded : decode forgettingLoop = .ok insns := by decide +kernel
  have covers : ∀ type, TypeState.Covers ⟨#[.top], []⟩ ⟨#[type], []⟩ := by
    intro type
    refine ⟨rfl, rfl, fun slot known found => .inl ?_⟩
    cases slot <;> simp_all
  have edges : ∀ i j, Edge insns i j → i = 0 ∧ j = 1 ∨ i = 1 ∧ j = 2 ∨ i = 2 ∧ j = 0 := by
    intro i j edge
    cases edge with
    | jump present there branch =>
      match i, j, present, there with
      | 2, 0, rfl, rfl => decide
      | 2, 1, rfl, rfl | 2, 2, rfl, rfl => cases branch
      | 0, _, rfl, _ | 1, _, rfl, _ => cases branch
    | next present falls =>
      match i, present with
      | 0, rfl | 1, rfl => decide
      | 2, rfl => cases falls
  have traversable : Traversable insns := by
    have one : Edge insns 0 1 := .next rfl rfl
    have two : Edge insns 1 2 := .next rfl rfl
    refine ⟨by decide, by decide, ?_, ?_⟩
    · intro i inside
      match i, inside with
      | 0, _ => exact .refl
      | 1, _ => exact .single one
      | 2, _ => exact .tail (.single one) two
    · intro i reachable
      cases reachable with
      | refl => decide
      | tail _ edge => rcases edges _ _ edge with ⟨-, rfl⟩ | ⟨-, rfl⟩ | ⟨-, rfl⟩ <;> decide
  have fits : FitsTogether insns {} (entryTypes [.object "A"] 1) typing := by
    refine ⟨covers _, ?_⟩
    intro i insn present
    match i, present with
    | 0, rfl =>
      refine ⟨_, rfl, fun j edge => ?_⟩
      obtain rfl : j = 1 := by have := edges _ _ edge; omega
      exact .refl _
    | 1, rfl =>
      refine ⟨_, rfl, fun j edge => ?_⟩
      obtain rfl : j = 2 := by have := edges _ _ edge; omega
      exact .refl _
    | 2, rfl =>
      refine ⟨_, rfl, fun j edge => ?_⟩
      obtain rfl : j = 0 := by have := edges _ _ edge; omega
      exact covers _
  obtain ⟨accepts, found, -⟩ := analysis_is_most_precise forgettingLoop {} [.object "A"] 1
  obtain ⟨analysis, analyzed⟩ := accepts.mpr ⟨insns, decoded, traversable, typing, fits⟩
  obtain ⟨insns, decoded, -, -, precise, -⟩ := found analysis analyzed
  exact ⟨analysis, analyzed, insns, decoded, precise⟩

end Minilang.ClassFile
