import Mathlib.Tactic.Tauto
import Minilang.Proofs.Decoding
import Minilang.Proofs.PoolInterning
import Minilang.Proofs.TypeAnalysis

/-! The types and the frames that an analysis reports. A property of types that holds on entry
and that every instruction keeps holds of all types found; the frames stand at ascending offsets;
and an analysis comes out the same in every pool that knows what the instructions look up. -/

namespace Minilang.ClassFile

theorem analyze_eq_ok {code : Bytes} {pool : Pool} {init : List VType} {maxLocals : Nat}
    {analysis : Analysis} : analyze code pool init maxLocals = .ok analysis ↔
      ∃ insns flow states, decode code = .ok insns ∧ insns.isEmpty = false ∧
        (Body.ofInsns insns).badBranch? = none ∧
        Flow.settle (Body.ofInsns insns) pool
          (insns.size * ((entryTypes init maxLocals).locals.size + 1) + 1)
          (Flow.start insns (entryTypes init maxLocals)) = .ok flow ∧
        reachedAll (Body.ofInsns insns) flow.states = .ok states ∧
        analysis = { body := Body.ofInsns insns, maxStack := flow.maxStack, states } := by
  unfold analyze
  cases decode code with
  | error fault => simp
  | ok insns =>
    simp only [throw_eq_error, error_bind]
    cases empty : insns.isEmpty with
    | true =>
      refine ⟨nofun, ?_⟩
      rintro ⟨_, flow, states, ⟨⟩, wrong, -⟩
      rw [empty] at wrong
      cases wrong
    | false =>
      cases bad : (Body.ofInsns insns).badBranch? with
      | some branch =>
        refine ⟨nofun, ?_⟩
        rintro ⟨_, flow, states, ⟨⟩, -, wrong, -⟩
        rw [bad] at wrong
        cases wrong
      | none =>
        rw [if_neg (by simp)]
        simp only [bind_eq_ok]
        constructor
        · rintro ⟨flow, settled, states, reached, done⟩
          exact ⟨insns, flow, states, rfl, empty, bad, settled, reached, (Except.ok.inj done).symm⟩
        · rintro ⟨_, flow, states, ⟨⟩, -, -, settled, reached, rfl⟩
          exact ⟨flow, settled, states, reached, rfl⟩

namespace Flow

variable {P : TypeState → Prop}

/-- All types found so far have a property. -/
def All (P : TypeState → Prop) (flow : Flow) : Prop := ∀ i types, flow.types? i = some types → P types

theorem All.put {flow : Flow} (all : flow.All P) {types : TypeState} (here : P types) (j : Nat) :
    (flow.put j types).All P := by
  intro i found there
  by_cases inside : j < flow.states.size
  · rw [put_types? flow i types inside] at there
    split at there
    · cases there
      exact here
    · exact all i found there
  · simp only [types?, Flow.put, Array.setIfInBounds, inside, dif_neg, not_false_eq_true] at there
    exact all i found there

variable {body : Body} {pool : Pool}
  (meets : ∀ known incoming met, P known → TypeState.join (some known) incoming = .ok (some met) →
    P met)
include meets

theorem joinAll_all {after : TypeState} (fresh : P after) {next : List Nat} {flow last : Flow}
    (all : flow.All P) (joined : joinAll body after flow next = .ok last) : last.All P := by
  induction next generalizing flow with
  | nil =>
    cases joined
    exact all
  | cons j rest ih =>
    rw [joinAll_cons] at joined
    split at joined
    · cases joined
    · exact ih all joined
    next met meet =>
      refine ih (all.put ?_ j) joined
      cases known : flow.types? j with
      | none =>
        rw [known] at meet
        cases meet
        exact fresh
      | some types =>
        rw [known] at meet
        exact meets types after met (all j types known) meet

theorem settle_all
    (steps : ∀ insn ∈ body.insns, ∀ types after, P types →
      Rule pool insn.offset types insn.action after → P after)
    (fuel : Nat) {flow last : Flow} (all : flow.All P)
    (settled : settle body pool fuel flow = .ok last) : last.All P := by
  induction fuel generalizing flow with
  | zero =>
    cases settled
    exact all
  | succ fuel ih =>
    unfold settle at settled
    split at settled
    · cases settled
      exact all
    next i rest work =>
      split at settled
      · cases settled
      next middle visited =>
        refine ih ?_ settled
        unfold visit at visited
        split at visited
        next insn types present found =>
          split at visited
          · cases visited
          next after stepped =>
            simp only at visited
            split at visited
            · cases visited
            next next follow =>
              refine joinAll_all meets ?_ ?_ visited
              · exact steps insn (Array.mem_of_getElem? present) types after (all i types found)
                  (rule_of_step stepped)
              · exact all
        · cases visited
          exact all

end Flow

private theorem reachedAll_mem {body : Body} {states : Array (Option TypeState)}
    {all : Array TypeState} (reached : reachedAll body states = .ok all) {types : TypeState}
    (member : types ∈ all) : ∃ i : Nat, states[i]? = some (some types) := by
  unfold reachedAll at reached
  split at reached
  · cases reached
  · cases reached
    obtain ⟨known, there, same⟩ := Array.mem_filterMap.mp member
    cases same
    exact Array.getElem?_of_mem there

/-- A property of the types on entry that joins and instructions keep. -/
theorem analyze_all {P : TypeState → Prop} {code : Bytes} {pool : Pool} {init : List VType}
    {maxLocals : Nat} {analysis : Analysis}
    (analyzed : analyze code pool init maxLocals = .ok analysis)
    (entry : P (entryTypes init maxLocals))
    (meets : ∀ known incoming met, P known → TypeState.join (some known) incoming = .ok (some met) →
      P met)
    (steps : ∀ insn ∈ analysis.body.insns, ∀ types after, P types →
      Rule pool insn.offset types insn.action after → P after) :
    ∀ types ∈ analysis.states, P types := by
  obtain ⟨insns, flow, states, -, some_, -, settled, reached, rfl⟩ := analyze_eq_ok.mp analyzed
  have start : (Flow.start insns (entryTypes init maxLocals)).All P := by
    intro i types found
    have present : 0 < insns.size := by
      simpa [Array.isEmpty_iff_size_eq_zero, Nat.pos_iff_ne_zero] using some_
    rw [Flow.start_types? present] at found
    split at found
    · cases found
      exact entry
    · cases found
  have all := Flow.settle_all meets steps _ start settled
  intro types member
  obtain ⟨i, found⟩ := reachedAll_mem reached member
  exact all i types (by rw [Flow.types?, found]; rfl)

/-- A join that changes known types makes some of their locals unknown. -/
theorem TypeState.join_met {known incoming met : TypeState}
    (joined : TypeState.join (some known) incoming = .ok (some met)) :
    met = { known with locals := meetLocals known.locals incoming.locals } := by
  unfold TypeState.join at joined
  simp only at joined
  split at joined
  · cases joined
  split at joined
  · cases joined
  split at joined
  · cases joined
  · cases joined
    rfl

/-- Types that have a property one by one. -/
structure TypeState.Each (P : VType → Prop) (types : TypeState) : Prop where
  locals : ∀ type ∈ types.locals, P type
  stack : ∀ type ∈ types.stack, P type

/-- The types that instructions make out of nothing have a property. -/
structure TypesMade (P : VType → Prop) (pool : Pool) (offset : Nat) : Prop where
  int : P .int
  string : P (.object "java/lang/String")
  raw : P (.uninit offset)
  owner : ∀ index ref, pool.member index = .ok ref → P (.object ref.owner)
  field : ∀ index ref type, pool.member index = .ok ref → fieldType ref.descriptor = .ok type → P type
  result : ∀ index ref params type, pool.member index = .ok ref →
    methodType ref.descriptor = .ok (params, some type) → P type

namespace TypeState.Each

variable {P : VType → Prop} {types : TypeState}

theorem push (each : types.Each P) {type : VType} (here : P type) : (types.push type).Each P :=
  ⟨each.locals, List.forall_mem_cons.mpr ⟨here, each.stack⟩⟩

theorem pushResult (each : types.Each P) {result : Option VType}
    (here : ∀ type, result = some type → P type) : (types.pushResult result).Each P := by
  cases result with
  | none => exact each
  | some type => exact each.push (here type rfl)

theorem setLocal {locals : Array VType} {stack : List VType} {type : VType}
    (each : Each P ⟨locals, type :: stack⟩) (slot : Nat) :
    Each P ⟨locals.setIfInBounds slot type, stack⟩ := by
  obtain ⟨here, others⟩ := List.forall_mem_cons.mp each.stack
  refine ⟨fun found member => ?_, others⟩
  rcases Array.mem_or_eq_of_mem_setIfInBounds member with known | rfl
  · exact each.locals found known
  · exact here

theorem drop {locals : Array VType} (first : List VType) {second : List VType}
    (each : Each P ⟨locals, first ++ second⟩) : Each P ⟨locals, second⟩ :=
  ⟨each.locals, (List.forall_mem_append.mp each.stack).2⟩

theorem initialise (each : types.Each P) (raw : VType) {owner : Bytes} (made : P (.object owner)) :
    (types.initialise raw owner).Each P := by
  have done : ∀ type, P type → P (if type = raw then .object owner else type) := by
    intro type here
    split
    · exact made
    · exact here
  refine ⟨fun type member => ?_, fun type member => ?_⟩
  · obtain ⟨old, known, rfl⟩ := Array.mem_map.mp member
    exact done old (each.locals old known)
  · obtain ⟨old, known, rfl⟩ := List.mem_map.mp member
    exact done old (each.stack old known)

/-- Shuffling a stack makes no other values. -/
theorem shuffle {stack shuffled : List VType} {kind : Shuffle} (all : ∀ type ∈ stack, P type)
    (done : kind.apply stack = some shuffled) : ∀ type ∈ shuffled, P type := by
  unfold Shuffle.apply at done
  split at done <;> cases done <;> simp only [List.forall_mem_cons] at all ⊢ <;> tauto

/-- Instructions keep the property of the types they know and give it to those they make. -/
theorem rule {pool : Pool} {offset : Nat} (made : TypesMade P pool offset) {after : TypeState}
    {action : Action} (each : types.Each P) (rule : Rule pool offset types action after) :
    after.Each P := by
  cases rule with
  | nop | goto | ret => exact each
  | push | integer _ | intLoad _ => exact each.push made.int
  | string _ => exact each.push made.string
  | refLoad held => exact each.push (each.locals _ (Array.mem_of_getElem? held))
  | intStore _ | refStore _ => exact each.setLocal _
  | shuffle done => exact ⟨each.locals, shuffle each.stack done⟩
  | compute => exact (drop [.int, .int] each).push made.int
  | negate => exact each
  | branchZero => exact drop [.int] each
  | branchInts => exact drop [.int, .int] each
  | getStatic found described => exact each.push (made.field _ _ _ found described)
  | staticCall found described _ =>
    exact (each.drop _).pushResult fun type same => made.result _ _ _ _ found (same ▸ described)
  | call found described _ _ _ _ =>
    rw [List.append_cons] at each
    exact (each.drop _).pushResult fun type same => made.result _ _ _ _ found (same ▸ described)
  | construct found described _ _ =>
    rw [List.append_cons] at each
    refine ((each.drop _).initialise _ (made.owner _ _ found)).pushResult fun type same => ?_
    exact made.result _ _ _ _ found (same ▸ described)
  | new _ => exact each.push made.raw

theorem join (top : P .top) {known incoming met : TypeState} (each : known.Each P)
    (joined : TypeState.join (some known) incoming = .ok (some met)) : met.Each P := by
  rw [join_met joined]
  refine ⟨fun type member => ?_, each.stack⟩
  obtain ⟨slot, found⟩ := Array.getElem?_of_mem member
  rw [meetLocals_getElem?] at found
  obtain ⟨old, there, rfl⟩ := Option.map_eq_some_iff.mp found
  split
  · exact each.locals old (Array.mem_of_getElem? there)
  · exact top

end TypeState.Each

/-- All types that an analysis finds have a property of those it starts from and of those that
instructions make. -/
theorem analyze_each {P : VType → Prop} {code : Bytes} {pool : Pool} {init : List VType}
    {maxLocals : Nat} {analysis : Analysis}
    (analyzed : analyze code pool init maxLocals = .ok analysis) (top : P .top)
    (entry : ∀ type ∈ init, P type)
    (made : ∀ insn ∈ analysis.body.insns, TypesMade P pool insn.offset) :
    ∀ types ∈ analysis.states, types.Each P := by
  refine analyze_all analyzed ⟨fun type member => ?_, nofun⟩
    (fun _ _ _ each joined => each.join top joined)
    (fun insn member _ _ each rule => each.rule (made insn member) rule)
  simp only [entryTypes, List.mem_toArray, List.mem_append, List.mem_replicate] at member
  rcases member with known | ⟨-, rfl⟩
  · exact entry type known
  · exact top

theorem Analysis.mem_frames {analysis : Analysis} {frame : Frame}
    (member : frame ∈ analysis.frames) :
    ∃ types ∈ analysis.states, frame.offset ∈ analysis.body.targets ∧
      frame.locals = trimTop types.locals.toList ∧ frame.stack = types.stack.reverse := by
  obtain ⟨offset, target, found⟩ := List.mem_filterMap.mp member
  simp only [Option.bind_eq_bind, Option.bind_eq_some_iff] at found
  obtain ⟨i, -, types, there, same⟩ := found
  cases same
  exact ⟨types, Array.mem_of_getElem? there, target, rfl, rfl⟩

theorem Analysis.frames_offsets (analysis : Analysis) :
    (analysis.frames.map Frame.offset).Sublist (analysis.body.insns.toList.map Insn.offset) := by
  have kept : (analysis.frames.map Frame.offset).Sublist analysis.body.targets := by
    unfold Analysis.frames
    induction analysis.body.targets with
    | nil => exact .slnil
    | cons offset rest ih =>
      rw [List.filterMap_cons]
      split
      · exact ih.cons offset
      next frame found =>
        simp only [Option.bind_eq_bind, Option.bind_eq_some_iff] at found
        obtain ⟨i, -, types, there, same⟩ := found
        cases same
        exact ih.cons_cons offset
  exact kept.trans List.filter_sublist

/-- Instructions that tile the code start at ascending offsets inside of it. -/
theorem Tiles.ascending {first last : Nat} {insns : List Insn} (tiles : Tiles first insns last) :
    (insns.map Insn.offset).Pairwise (· < ·) ∧ (∀ insn ∈ insns, insn.offset < last) ∧
      first + insns.length ≤ last := by
  induction tiles with
  | nil => exact ⟨.nil, nofun, Nat.le_refl _⟩
  | @cons insn rest last positive tail ih =>
    obtain ⟨ascending, inside, room⟩ := ih
    refine ⟨List.Pairwise.cons ?_ ascending, List.forall_mem_cons.mpr ⟨by omega, inside⟩, ?_⟩
    · intro offset member
      obtain ⟨other, later, rfl⟩ := List.mem_map.mp member
      have := tail.offset_ge other later
      omega
    · rw [List.length_cons]
      omega

section

variable {code : Bytes} {pool : Pool} {init : List VType} {maxLocals : Nat} {analysis : Analysis}
  (analyzed : analyze code pool init maxLocals = .ok analysis)
include analyzed

theorem analyze_tiles : Tiles 0 analysis.body.insns.toList code.length := by
  obtain ⟨insns, flow, states, decoded, -, -, -, -, rfl⟩ := analyze_eq_ok.mp analyzed
  exact decode_tiles decoded

theorem analyze_frames_ascending :
    (analysis.frames.map Frame.offset).Pairwise (· < ·) ∧ analysis.frames.length ≤ code.length := by
  obtain ⟨ascending, -, room⟩ := (analyze_tiles analyzed).ascending
  have kept := analysis.frames_offsets
  have fewer := kept.length_le
  rw [List.length_map, List.length_map] at fewer
  exact ⟨ascending.sublist kept, by omega⟩

theorem analyze_frame_inside {frame : Frame} (member : frame ∈ analysis.frames) :
    frame.offset < code.length := by
  have there := analysis.frames_offsets.subset (List.mem_map_of_mem member)
  obtain ⟨insn, present, same⟩ := List.mem_map.mp there
  rw [← same]
  exact (analyze_tiles analyzed).ascending.2.1 insn present

/-- A frame has no more locals than the method and no more operands than the analysis found. -/
theorem analyze_frame_small {frame : Frame} (member : frame ∈ analysis.frames) :
    frame.locals.length ≤ max init.length maxLocals ∧ frame.stack.length ≤ analysis.maxStack := by
  obtain ⟨types, known, -, locals, stack⟩ := analysis.mem_frames member
  have size : types.locals.size = (entryTypes init maxLocals).locals.size := by
    refine analyze_all (P := fun types => types.locals.size = (entryTypes init maxLocals).locals.size)
      analyzed rfl ?_ (fun _ _ _ _ same rule => rule.size.trans same) types known
    intro types incoming met same joined
    rw [TypeState.join_met joined, meetLocals_size, same]
  obtain ⟨insns, decoded, some_, body, typed⟩ := analyze_typed analyzed
  obtain ⟨i, found⟩ := Array.getElem?_of_mem known
  have inside : i < analysis.body.insns.size := by
    rw [← typed.size]
    exact (Array.getElem?_eq_some_iff.mp found).1
  obtain ⟨other, same, after, next, -, -, deep, -⟩ := typed.handled i _ (Array.getElem?_eq_getElem inside)
  rw [found] at same
  cases same
  constructor
  · have trimmed : (trimTop types.locals.toList).length ≤ types.locals.size := by
      have shorter := (List.dropWhile_sublist (· == .top) (l := types.locals.toList.reverse)).length_le
      simpa only [trimTop, List.length_reverse, Array.length_toList] using shorter
    simp only [entryTypes, List.size_toArray, List.length_append, List.length_replicate] at size
    rw [locals]
    omega
  · rw [stack, List.length_reverse]
    exact deep

end

/-- An instruction is typed alike in a larger pool. -/
theorem Rule.extend {pool larger : Pool} (extends_ : pool.Extends larger) {offset : Nat}
    {types after : TypeState} {action : Action} (rule : Rule pool offset types action after) :
    Rule larger offset types action after := by
  cases rule with
  | nop => exact .nop
  | goto => exact .goto
  | ret => exact .ret
  | push => exact .push
  | integer found => exact .integer (extends_.get found)
  | string found => exact .string (extends_.get found)
  | intLoad held => exact .intLoad held
  | refLoad held => exact .refLoad held
  | intStore inside => exact .intStore inside
  | refStore inside => exact .refStore inside
  | shuffle done => exact .shuffle done
  | compute => exact .compute
  | negate => exact .negate
  | branchZero => exact .branchZero
  | branchInts => exact .branchInts
  | getStatic found described => exact .getStatic (extends_.member found) described
  | staticCall found described fits => exact .staticCall (extends_.member found) described fits
  | call found described fits instanceCall plain isRef =>
    exact .call (extends_.member found) described fits instanceCall plain isRef
  | construct found described fits isInit =>
    exact .construct (extends_.member found) described fits isInit
  | new found => exact .new (extends_.className found)

namespace Flow

theorem settle_kept {body : Body} {pool other : Pool}
    (kept : ∀ insn ∈ body.insns, ∀ types after,
      Rule pool insn.offset types insn.action after → Rule other insn.offset types insn.action after)
    (fuel : Nat) {flow last : Flow} (settled : settle body pool fuel flow = .ok last) :
    settle body other fuel flow = .ok last := by
  induction fuel generalizing flow with
  | zero => exact settled
  | succ fuel ih =>
    unfold settle at settled ⊢
    split at settled
    · exact settled
    next i rest work =>
      split at settled
      · cases settled
      next middle visited =>
        have again : visit body other { flow with work := rest } i = .ok middle := by
          unfold visit at visited ⊢
          split at visited
          next insn types present found =>
            split at visited
            · cases visited
            next after stepped =>
              have rule := kept insn (Array.mem_of_getElem? present) _ _ (rule_of_step stepped)
              simp only [rule.step]
              exact visited
          · exact visited
        simp only [again]
        exact ih settled

end Flow

/-- An analysis comes out the same in another pool in which its instructions are typed alike. -/
theorem analyze_kept {code : Bytes} {pool other : Pool} {init : List VType} {maxLocals : Nat}
    {analysis : Analysis} (analyzed : analyze code pool init maxLocals = .ok analysis)
    (kept : ∀ insn ∈ analysis.body.insns, ∀ types after,
      Rule pool insn.offset types insn.action after → Rule other insn.offset types insn.action after) :
    analyze code other init maxLocals = .ok analysis := by
  obtain ⟨insns, flow, states, decoded, some_, near, settled, reached, rfl⟩ :=
    analyze_eq_ok.mp analyzed
  exact analyze_eq_ok.mpr ⟨insns, flow, states, decoded, some_, near,
    Flow.settle_kept kept _ settled, reached, rfl⟩

end Minilang.ClassFile
