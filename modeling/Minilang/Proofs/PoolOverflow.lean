import Minilang.Proofs.AssembledCode
import Minilang.Proofs.PlainText
import Minilang.Proofs.PreciseTyping

/-! Writing a class whose pool has overflowed. A constant that found no room has the index zero, and
zero flows into the operands of instructions. Nothing is written then, and as long as no operand was
lost the fault is a limit of the format. An instruction that lost its operand is refused by the
analysis before the overflow is looked at. -/

namespace Minilang.ClassFile

namespace Action

def index? : Action → Option UInt16
  | .constant index | .getStatic index | .invoke _ index | .new index => some index
  | .nop | .push _ | .intLoad _ | .refLoad _ | .intStore _ | .refStore _ | .shuffle _ | .compute _
  | .negate | .branchZero .. | .branchInts .. | .goto _ | .ret => none

/-- The instruction with another operand from the pool, if it takes one. -/
def withIndex (index : UInt16) : Action → Action
  | .constant _ => .constant index
  | .getStatic _ => .getStatic index
  | .invoke kind _ => .invoke kind index
  | .new _ => .new index
  | action => action

end Action

def Insn.Lost (insn : Insn) : Prop := insn.action.index? = some 0

theorem Insn.Lost.step {insn : Insn} (lost : insn.Lost) (pool : Pool) (types : TypeState) :
    types.step pool insn.offset insn.action = .error (.pool (.outOfRange 0)) := by
  have missing : pool.get 0 = .error (.outOfRange 0) := rfl
  unfold Lost at lost
  cases action : insn.action with
  | constant index | getStatic index | invoke kind index | new index =>
    rw [action, Action.index?, Option.some.injEq] at lost
    subst lost
    simp [TypeState.step, Pool.member, Pool.className, missing, lookUp]
  | _ =>
    rw [action] at lost
    cases lost

/-- What an instruction leaves. One that lost its operand may take any operand from any pool. -/
def Insn.Leaves (pool : Pool) (insn : Insn) (types after : TypeState) : Prop :=
  types.step pool insn.offset insn.action = .ok after ∨
    insn.Lost ∧ ∃ other index, types.step other insn.offset (insn.action.withIndex index) = .ok after

/-- Types that fit together once each operand that was lost is supplied. -/
structure FitsSupplied (insns : Array Insn) (pool : Pool) (entry : TypeState)
    (typing : Nat → TypeState) : Prop where
  entry : (typing 0).Covers entry
  steps : ∀ (i : Nat) insn, insns[i]? = some insn →
    ∃ after, insn.Leaves pool (typing i) after ∧ ∀ j, Edge insns i j → (typing j).Covers after

/-- The refusal of an instruction that lost its operand. -/
def RefusesLost (insns : Array Insn) (fault : AnalysisFault) : Prop :=
  ∃ insn ∈ insns, insn.Lost ∧ fault = .verify insn.offset (.pool (.outOfRange 0))

theorem Flow.visit_lost {insns : Array Insn} {pool : Pool} {typing : Nat → TypeState} {depth i : Nat}
    {flow : Flow} (below : flow.Below typing depth) {insn : Insn} (present : insns[i]? = some insn)
    (lost : insn.Lost) :
    (∃ last, visit (Body.ofInsns insns) pool flow i = .ok last ∧ last.Below typing depth) ∨
      ∃ fault, visit (Body.ofInsns insns) pool flow i = .error fault ∧ RefusesLost insns fault := by
  have here : (Body.ofInsns insns).insns[i]? = some insn := present
  unfold visit
  rw [here]
  cases (flow.states[i]?).join with
  | none => exact .inl ⟨flow, rfl, below⟩
  | some types =>
    simp only [lost.step pool types]
    exact .inr ⟨_, rfl, insn, Array.mem_of_getElem? present, lost, rfl⟩

/-- Code that would be accepted with its operands supplied is accepted when it lost none, and
otherwise refused for one that it lost. -/
theorem analyze_supplied {code : Bytes} {pool larger : Pool} {init : List VType} {maxLocals : Nat}
    {insns : Array Insn} {typing : Nat → TypeState} (decoded : decode code = .ok insns)
    (traversable : Traversable insns)
    (fits : FitsSupplied insns pool (entryTypes init maxLocals) typing)
    (extends_ : pool.Extends larger) :
    (∀ insn ∈ insns, ¬ insn.Lost) ∧
        (∃ analysis, analyze code larger init maxLocals = .ok analysis) ∨
      ∃ fault, analyze code larger init maxLocals = .error fault ∧ RefusesLost insns fault := by
  have distinct := (decode_tiles decoded).offsets_nodup
  obtain ⟨depth, each⟩ : ∃ depth, ∀ i < insns.size, (∃ insn, insns[i]? = some insn ∧ insn.Lost) ∨
      TypedAt (Body.ofInsns insns) larger typing depth i := by
    refine common_bound insns.size fun i inside => ?_
    have present : insns[i]? = some insns[i] := Array.getElem?_eq_getElem inside
    obtain ⟨after, stepped | ⟨lost, -⟩, covers⟩ := fits.steps i _ present
    · have rule := (rule_of_step stepped).extend extends_
      obtain ⟨depth, typed⟩ := traversable.typedAt distinct present rule.step covers
      exact ⟨depth, fun deeper enough => .inr (typed deeper enough)⟩
    · exact ⟨0, fun _ _ => .inl ⟨_, present, lost⟩⟩
  have visits : ∀ (i : Nat) (flow : Flow), flow.states.size = insns.size →
      flow.Below typing depth →
      (∃ last, Flow.visit (Body.ofInsns insns) larger flow i = .ok last ∧ last.Below typing depth) ∨
        ∃ fault, Flow.visit (Body.ofInsns insns) larger flow i = .error fault ∧
          RefusesLost insns fault := by
    intro i flow size below
    by_cases lost : ∃ insn, insns[i]? = some insn ∧ insn.Lost
    · obtain ⟨insn, present, lost⟩ := lost
      exact Flow.visit_lost below present lost
    · exact .inl (Flow.visit_below (Body.ofInsns_indexed insns) size below i
        fun inside => (each i inside).resolve_left lost)
  have ends := analyze_below_or decoded traversable fits.entry visits
  refine ends.imp_left fun ⟨analysis, analyzed⟩ => ⟨fun insn member lost => ?_, analysis, analyzed⟩
  -- Every instruction of accepted code has been executed.
  obtain ⟨others, again, -, body, typed⟩ := analyze_typed analyzed
  obtain rfl : insns = others := Except.ok.inj (decoded.symm.trans again)
  obtain ⟨i, inside, here⟩ := Array.mem_iff_getElem.mp member
  have present : analysis.body.insns[i]? = some insn := by
    rw [body, ← here]
    exact Array.getElem?_eq_getElem inside
  obtain ⟨types, -, after, next, rule, -⟩ := typed.handled i insn present
  have stepped := rule.step
  rw [lost.step] at stepped
  cases stepped

/-- An instruction lost its operand when the step that became it asked for it in vain. -/
theorem Step.Becomes.lost {operand : Request → UInt16 → Prop} {target : Nat → Option Nat} {s : Step}
    {insn : Insn} (regular : s.Regular) (becomes : s.Becomes operand target insn)
    (lost : insn.Lost) : ∃ request, s.request? = some request ∧ operand request 0 := by
  have taken : s.Takes operand insn → insn.action.index? = some insn.arg.toNat.toUInt16 →
      ∃ request, s.request? = some request ∧ operand request 0 := by
    rintro ⟨request, i, asks, arg, known⟩ index
    rw [lost, arg, Int.toNat_natCast, Option.some.injEq] at index
    have zero : i = 0 := by simpa using index.symm
    exact ⟨request, asks, zero ▸ known⟩
  have free : insn.action.index? = none → ∃ request, s.request? = some request ∧ operand request 0 :=
    fun none => absurd (none.symm.trans lost) nofun
  cases s with
  | insn op =>
    have all : ∀ b, (Opcode.mk b).info?.map Prod.snd = some 0 →
        ((Opcode.mk b).does ((Opcode.mk b).argument 0 [])).index? = none :=
      Bytes.forall_byte (by decide +kernel)
    obtain ⟨-, name, info⟩ := regular
    have known := all op.byte
    rw [info] at known
    refine free ?_
    rw [action_eq becomes.1 becomes.2]
    exact known rfl
  | push value =>
    rcases becomes with ⟨-, does⟩ | ⟨same, takes⟩
    · exact free (by rw [does]; rfl)
    · refine taken takes ?_
      rcases same with same | same <;> rw [action_eq same rfl] <;> rfl
  | localVar op slot =>
    refine free ?_
    rw [becomes.2]
    rcases Opcode.isLocal_iff.mp regular.1 with rfl | rfl | rfl | rfl <;> rfl
  | jump op label =>
    obtain ⟨same, place, -, arg⟩ := becomes
    refine free ?_
    rw [action_eq same arg]
    have usual := Opcode.isBranch_iff.mp regular
    simp only [jumpOpcodes, Cond.all, List.map_cons, List.map_nil, List.cons_append,
      List.nil_append, List.mem_cons, List.not_mem_nil, or_false] at usual
    rcases usual with rfl | rfl | rfl | rfl | rfl | rfl | rfl | rfl | rfl | rfl | rfl | rfl | rfl <;>
      rfl
  | classOperand op name | fieldOperand op ref =>
    obtain ⟨same, takes⟩ := becomes
    cases regular
    exact taken takes (by rw [action_eq same rfl]; rfl)
  | methodOperand op ref =>
    obtain ⟨same, takes⟩ := becomes
    refine taken takes ?_
    rcases regular with rfl | rfl | rfl <;> rw [action_eq same rfl] <;> rfl
  | mark | line | nops => exact becomes.elim

namespace Method

def LosesOperand (method : Method) : Prop :=
  ∃ code insns, method.resolve = .ok code ∧ decode code = .ok insns ∧ ∃ insn ∈ insns, insn.Lost

/-- A method that verifies once the operands that it lost are supplied: its labels are marked, and
its code, if it can be finished, has types that fit together. -/
structure Verifiable (pool : Pool) (method : Method) : Prop where
  marked : ∀ jump ∈ method.jumps, ∃ place : Nat, method.labels[jump.label]? = some place
  typed : ∀ code, method.resolve = .ok code → ∃ insns, decode code = .ok insns ∧ Traversable insns ∧
    ∃ typing, FitsSupplied insns pool (entryTypes method.init method.maxLocals) typing

def RefusesOperand (method : Method) (fault : WriteFault) : Prop :=
  method.LosesOperand ∧
    ∃ offset, fault = .analysis method.label (.verify offset (.pool (.outOfRange 0)))

variable {method : Method}

/-- The code of a method with marked labels is finished, unless it exceeds a limit. -/
theorem resolve_ends
    (marked : ∀ jump ∈ method.jumps, ∃ place : Nat, method.labels[jump.label]? = some place) :
    (∃ code, method.resolve = .ok code) ∨ ∃ fault, method.resolve = .error fault ∧
      (WriteFault.resolve method.label fault).limit?.isSome = true := by
  unfold resolve
  split
  · exact .inr ⟨_, rfl, rfl⟩
  · rcases patch_cases method.labels method.jumps.toList method.code with
      ⟨⟨done, patched⟩, -⟩ | ⟨jump, member, unbound⟩ | ⟨jump, -, stops, -⟩
    · exact .inl ⟨done.toList, by rw [patched]; rfl⟩
    · obtain ⟨place, found⟩ := marked jump (Array.mem_toList_iff.mp member)
      cases unbound.symm.trans found
    · exact .inr ⟨_, by rw [stops]; rfl, rfl⟩

/-- A verifiable method that lost no operand is finished or exceeds a limit. One that lost an
operand is refused, if it exceeds none. -/
theorem Verifiable.finish {pool larger : Pool} (verifiable : method.Verifiable pool)
    (extends_ : pool.Extends larger) :
    (¬ method.LosesOperand ∧ ∃ result, method.finish larger = .ok result) ∨
      ∃ fault, method.finish larger = .error fault ∧
        fault ≠ .poolOverflow ∧ (fault.limit?.isSome = true ∨ method.RefusesOperand fault) := by
  unfold Method.finish
  rcases resolve_ends verifiable.marked with ⟨code, resolved⟩ | ⟨fault, resolved, limit⟩ <;>
    simp only [resolved]
  · obtain ⟨insns, decoded, traversable, typing, fits⟩ := verifiable.typed code resolved
    rcases analyze_supplied decoded traversable fits extends_ with
      ⟨kept, analysis, analyzed⟩ | ⟨fault, analyzed, insn, member, lost, rfl⟩ <;>
      simp only [analyzed]
    · have complete : ¬ method.LosesOperand := by
        rintro ⟨code', insns', resolved', decoded', insn, member, lost⟩
        obtain rfl : code = code' := Except.ok.inj (resolved.symm.trans resolved')
        obtain rfl : insns = insns' := Except.ok.inj (decoded.symm.trans decoded')
        exact kept insn member lost
      split
      · exact .inr ⟨_, rfl, nofun, .inl rfl⟩
      · exact .inl ⟨complete, _, rfl⟩
    · exact .inr ⟨_, rfl, nofun, .inr
        ⟨⟨code, insns, resolved, decoded, insn, member, lost⟩, insn.offset, rfl⟩⟩
  · exact .inr ⟨_, rfl, nofun, .inl limit⟩

def poolReached : List Method → Pool → Pool
  | [], pool => pool
  | method :: rest, pool =>
      match method.finish pool with
      | .error _ => pool
      | .ok (_, next) => poolReached rest next

theorem poolReached_faithful {methods : List Method} {pool : Pool} (faithful : pool.Faithful) :
    (poolReached methods pool).Faithful ∧ pool.Extends (poolReached methods pool) := by
  induction methods generalizing pool with
  | nil => exact ⟨faithful, .refl pool⟩
  | cons method rest ih =>
    rw [poolReached]
    split
    · exact ⟨faithful, .refl pool⟩
    next text next finished =>
      obtain ⟨kept, grows⟩ := finish_faithful faithful finished
      obtain ⟨last, more⟩ := ih kept
      exact ⟨last, grows.trans more⟩

theorem finishAll_ends {methods : List Method} {pool larger : Pool} (faithful : larger.Faithful)
    (extends_ : pool.Extends larger) (verifiable : ∀ method ∈ methods, method.Verifiable pool)
    (done : List Bytes) :
    ((∀ method ∈ methods, ¬ method.LosesOperand) ∧
        ∃ parts, finishAll methods larger done = .ok (parts, poolReached methods larger)) ∨
      ∃ fault, finishAll methods larger done = .error fault ∧ fault ≠ .poolOverflow ∧
        (fault.limit?.isSome = true ∨ ∃ method ∈ methods, method.RefusesOperand fault) := by
  induction methods generalizing larger done with
  | nil => exact .inl ⟨by simp, done.reverse, rfl⟩
  | cons method rest ih =>
    obtain ⟨here, others⟩ := List.forall_mem_cons.mp verifiable
    rw [finishAll, poolReached]
    rcases here.finish extends_ with ⟨kept, ⟨text, next⟩, finished⟩ | ⟨fault, finished, other, ends⟩ <;>
      simp only [finished]
    · obtain ⟨whole, grows⟩ := finish_faithful faithful finished
      rcases ih whole (extends_.trans grows) others (text :: done) with
        ⟨all, parts, finished⟩ | ⟨fault, finished, other, ends⟩
      · exact .inl ⟨List.forall_mem_cons.mpr ⟨kept, all⟩, parts, finished⟩
      · refine .inr ⟨fault, finished, other, ends.imp_right ?_⟩
        rintro ⟨last, member, refuses⟩
        exact ⟨last, List.mem_cons_of_mem _ member, refuses⟩
    · exact .inr ⟨fault, rfl, other, ends.imp_right fun refuses =>
        ⟨method, List.mem_cons_self, refuses⟩⟩

end Method

namespace Draft

/-- A method that was assembled loses an operand only when the pool has overflowed: one of its
operations asked for it in vain. -/
theorem edits_lose (major access : UInt16) (name super sourceFile : Bytes) (list : List Edit)
    {draft : Draft} (built : draft = (blank major access name super sourceFile).edits list) {n : Nat}
    {steps : List Step} (body : (bodies list)[n]? = some steps) (assemblable : Assemblable steps)
    {method : Method} (there : draft.methods[n]? = some method) (loses : method.LosesOperand) :
    draft.pool.overflowed = true ∧
      ∃ s ∈ steps, ∃ request, s.request? = some request ∧ (request.run draft.pool).1 = 0 := by
  subst built
  have records := (records_blank major access name super sourceFile).edits list
  obtain ⟨other, again, made⟩ := records.built n steps body assemblable
  obtain rfl : method = other := Option.some.inj (there.symm.trans again)
  obtain ⟨code, insns, resolved, decoded, insn, member, lost⟩ := loses
  obtain ⟨others, decodes, recovered⟩ :=
    made.recovered records.faithful assemblable.regular resolved
  obtain rfl : insns = others := Except.ok.inj (decoded.symm.trans decodes)
  obtain ⟨s, inside, becomes⟩ := recovered.becomes insn (Array.mem_toList_iff.mpr member)
  obtain ⟨request, asks, vain⟩ := becomes.lost (assemblable.regular s inside) lost
  refine ⟨?_, s, inside, request, asks, vain⟩
  have kept := made.kept _ records.faithful (.refl _) s inside
  rw [Step.poolAfter_eq, asks] at kept
  have exceeded := (records.faithful.overflowed_run request).mpr (.inr vain)
  rwa [show (request.run _).2 = _ from kept] at exceeded

def poolReached (draft : Draft) : Pool :=
  let pool := Method.poolReached draft.methods.toList draft.namedPool
  match Method.finishAll draft.methods.toList draft.namedPool [] with
  | .error _ => pool
  | .ok _ => (draft.sourcePart pool).2

theorem poolReached_grows {draft : Draft} (faithful : draft.pool.Faithful) :
    draft.pool.Extends draft.poolReached := by
  obtain ⟨named, grows⟩ := namedPool_faithful faithful
  obtain ⟨reached, more⟩ : (Method.poolReached draft.methods.toList draft.namedPool).Faithful ∧
      draft.namedPool.Extends _ := Method.poolReached_faithful named
  rw [poolReached]
  split
  · exact grows.trans more
  · exact (grows.trans more).trans (draft.sourcePart_faithful reached).2

/-- A pool that has overflowed, before or while a class is written, is reported: nothing is written,
and if the methods verify apart from the operands that they lost, the fault is a limit of the format
that was exceeded. Only where a method did lose an operand, the fault may be the refusal of that
operand, and then it is never the overflow itself. -/
theorem overflow_is_reported (major access : UInt16) (name super sourceFile : Bytes)
    (list : List Edit) {draft : Draft}
    (built : draft = (blank major access name super sourceFile).edits list)
    (verifiable : ∀ method ∈ draft.methods, method.Verifiable draft.pool)
    (exceeded : draft.poolReached.overflowed = true) :
    ∃ fault, draft.bytes = .error fault ∧
      (fault.limit?.isSome = true ∨ ∃ method ∈ draft.methods, method.RefusesOperand fault) ∧
      ((∃ method ∈ draft.methods, method.LosesOperand) → fault ≠ .poolOverflow) := by
  have faithful : draft.pool.Faithful := by
    rw [built]
    exact ((records_blank major access name super sourceFile).edits list).faithful
  obtain ⟨named, grows⟩ := namedPool_faithful faithful
  have each : ∀ method ∈ draft.methods.toList, method.Verifiable draft.pool :=
    fun method member => verifiable method (Array.mem_toList_iff.mp member)
  rw [bytes_eq]
  rw [poolReached] at exceeded
  rcases Method.finishAll_ends named grows each [] with
    ⟨kept, parts, finished⟩ | ⟨fault, finished, other, ends⟩ <;> rw [finished] at exceeded ⊢
  · simp only at exceeded
    simp only [exceeded, if_true]
    refine ⟨_, rfl, .inl rfl, fun ⟨method, member, loses⟩ => ?_⟩
    exact absurd loses (kept method (Array.mem_toList_iff.mpr member))
  · refine ⟨fault, rfl, ends.imp_right fun ⟨method, member, refuses⟩ => ?_, fun _ => other⟩
    exact ⟨method, Array.mem_toList_iff.mp member, refuses⟩

def numbers (n : Nat) : List Request := (List.range n).map fun i => .number (Int32.ofNat i)

private theorem number_found {pool : Pool} (faithful : pool.Faithful) {n i : Nat} {index : UInt16}
    (stand : pool.entries.toList = (List.range n).map fun i => .integer (Int32.ofNat i))
    (few : n ≤ 65534) (small : i < 2147483648)
    (found : pool.lookup[Constant.integer (Int32.ofNat i)]? = some index) : i < n := by
  have there := (Pool.get_eq_ok.mp ((faithful.found _ _).mp found)).2
  have member := List.mem_of_getElem? there
  rw [stand] at member
  obtain ⟨j, inside, same⟩ := List.mem_map.mp member
  have below := List.mem_range.mp inside
  have exact_ := congrArg Int32.toInt (Constant.integer.inj same)
  rw [Int32.toInt_ofNat_of_lt (by omega), Int32.toInt_ofNat_of_lt (by omega)] at exact_
  omega

/-- The first numbers stand in the pool in their order, as long as there is room. -/
private theorem numbers_stand (n : Nat) (few : n ≤ 65534) :
    (Pool.asked {} (numbers n)).entries.toList =
      (List.range n).map fun i => .integer (Int32.ofNat i) := by
  induction n with
  | zero => rfl
  | succ n ih =>
    have stand := ih (by omega)
    have faithful := (Pool.Faithful.empty.asked (numbers n)).1
    have size := congrArg List.length stand
    have more : numbers (n + 1) = numbers n ++ [.number (Int32.ofNat n)] := by
      simp [numbers, List.range_succ]
    simp only [Array.length_toList, List.length_map, List.length_range] at size
    rw [more, Pool.asked_append, Pool.asked_cons, Pool.asked_nil, List.range_succ, List.map_append,
      ← stand]
    change ((Pool.asked {} (numbers n)).intern (.integer (Int32.ofNat n))).2.entries.toList = _
    rcases Pool.intern_cases (Pool.asked {} (numbers n)) (.integer (Int32.ofNat n)) with
      ⟨i, found, -⟩ | ⟨-, full, -⟩ | ⟨-, -, same⟩
    · have below := number_found faithful stand (by omega) (by omega) found
      omega
    · rw [Pool.limit, Pool.count] at full
      omega
    · rw [same]
      simp [Pool.append]

private theorem numbers_full {i : Nat} (other : 65534 ≤ i) (small : i < 2147483648) :
    (Pool.asked {} (numbers 65534)).integer (Int32.ofNat i) =
      (0, { Pool.asked {} (numbers 65534) with overflowed := true }) := by
  have stand := numbers_stand 65534 (le_refl _)
  have faithful := (Pool.Faithful.empty.asked (numbers 65534)).1
  have size := congrArg List.length stand
  simp only [Array.length_toList, List.length_map, List.length_range] at size
  rw [Pool.integer]
  rcases Pool.intern_cases (Pool.asked {} (numbers 65534)) (.integer (Int32.ofNat i)) with
    ⟨index, found, -⟩ | ⟨-, -, same⟩ | ⟨-, room, -⟩
  · have below := number_found faithful stand (le_refl _) small found
    omega
  · exact same
  · rw [Pool.limit, Pool.count] at room
    omega

/-- A class whose pool takes some constants before its method asks for another one. -/
def crowdedEdits (requests : List Request) : List Edit :=
  requests.map .intern ++ [.method 9 "f" "()V" [], .step 0 (.push 100000), .step 0 (.insn .pop),
    .step 0 (.insn .ret)]

def crowdedDraft (requests : List Request) : Draft :=
  (blank 52 33 "A" "java/lang/Object" "").edits (crowdedEdits requests)

private def crowdedMethod : Method :=
  { access := 9, name := "f", descriptor := "()V", code := #[18, 0, 87, 177] }

private theorem edits_intern (draft : Draft) (requests : List Request) :
    draft.edits (requests.map .intern) = { draft with pool := draft.pool.asked requests } := by
  induction requests generalizing draft with
  | nil => rfl
  | cons request rest ih => exact ih (draft.edit (.intern request))

private theorem crowdedDraft_eq {requests : List Request} {full : Pool}
    (vain : (Pool.asked {} requests).integer 100000 = (0, full)) :
    crowdedDraft requests = { blank 52 33 "A" "java/lang/Object" "" with
      pool := full, methods := #[crowdedMethod] } := by
  have pushed : Method.pushBytes (Pool.asked {} requests) 100000 = ([18, 0], full) := by
    rw [Method.pushBytes, vain]
    rfl
  have ops : Opcode.pop.byte = 87 ∧ Opcode.ret.byte = 177 := ⟨rfl, rfl⟩
  rw [crowdedDraft, crowdedEdits, edits, List.foldl_append]
  change ((blank 52 33 "A" "java/lang/Object" "").edits (requests.map .intern)).edits _ = _
  rw [edits_intern]
  simp [edits, edit, Method.step, Method.make, Method.emit, crowdedMethod, blank, pushed, ops]

private def crowdedInsns : Array Insn :=
  #[{ offset := 0, op := .ldc, arg := 0, length := 2 },
    { offset := 2, op := .pop, arg := 0, length := 1 },
    { offset := 3, op := .ret, arg := 0, length := 1 }]

private theorem crowded_code : crowdedMethod.resolve = .ok [18, 0, 87, 177] ∧
    decode [18, 0, 87, 177] = .ok crowdedInsns := ⟨by cbv, by decide +kernel⟩

private theorem crowded_verifiable (pool : Pool) : crowdedMethod.Verifiable pool := by
  obtain ⟨resolved, decoded⟩ := crowded_code
  have edges : ∀ i j, Edge crowdedInsns i j → i = 0 ∧ j = 1 ∨ i = 1 ∧ j = 2 := by
    intro i j edge
    cases edge with
    | jump present there branch =>
      match i, present with
      | 0, rfl | 1, rfl | 2, rfl => cases branch
    | next present falls =>
      match i, present with
      | 0, rfl | 1, rfl => decide
      | 2, rfl => cases falls
  have one : Edge crowdedInsns 0 1 := .next rfl rfl
  have two : Edge crowdedInsns 1 2 := .next rfl rfl
  have traversable : Traversable crowdedInsns := by
    refine ⟨by decide, by decide, ?_, ?_⟩
    · intro i inside
      match i, inside with
      | 0, _ => exact .refl
      | 1, _ => exact .single one
      | 2, _ => exact .tail (.single one) two
    · intro i reachable
      cases reachable with
      | refl => decide
      | tail _ edge => rcases edges _ _ edge with ⟨-, rfl⟩ | ⟨-, rfl⟩ <;> decide
  refine ⟨nofun, fun code finished => ?_⟩
  obtain rfl : [18, 0, 87, 177] = code := Except.ok.inj (resolved.symm.trans finished)
  let typing : Nat → TypeState := fun i => ⟨#[], if i = 1 then [.int] else []⟩
  refine ⟨crowdedInsns, decoded, traversable, typing, .refl _, fun i insn present => ?_⟩
  match i, present with
  | 0, rfl =>
    refine ⟨⟨#[], [.int]⟩, .inr ⟨rfl, Pool.append {} (.integer 100000), 1, rfl⟩, fun j edge => ?_⟩
    obtain rfl : j = 1 := by have := edges _ _ edge; omega
    exact .refl _
  | 1, rfl =>
    refine ⟨⟨#[], []⟩, .inl rfl, fun j edge => ?_⟩
    obtain rfl : j = 2 := by have := edges _ _ edge; omega
    exact .refl _
  | 2, rfl =>
    refine ⟨⟨#[], []⟩, .inl rfl, fun j edge => ?_⟩
    have := edges _ _ edge
    omega

theorem crowded_method_is_refused :
    let draft := crowdedDraft (numbers 65534)
    (∀ method ∈ draft.methods, method.Verifiable draft.pool) ∧
    draft.poolReached.overflowed = true ∧
    ∃ fault, draft.bytes = .error fault ∧ fault ≠ .poolOverflow ∧
      (fault.limit?.isSome = true ∨ ∃ method ∈ draft.methods, method.RefusesOperand fault) := by
  have vain := numbers_full (i := 100000) (by omega) (by omega)
  -- From here on the constants do not matter, only that the pool is full of them.
  generalize numbers 65534 = requests at vain ⊢
  have same := crowdedDraft_eq vain
  have methods : (crowdedDraft requests).methods = #[crowdedMethod] := congrArg Draft.methods same
  have verifiable : ∀ method ∈ (crowdedDraft requests).methods,
      method.Verifiable (crowdedDraft requests).pool := by
    intro method member
    obtain rfl : method = crowdedMethod := by simpa [methods] using member
    exact crowded_verifiable _
  have faithful : (crowdedDraft requests).pool.Faithful :=
    ((records_blank 52 33 "A" "java/lang/Object" "").edits (crowdedEdits requests)).faithful
  have exceeded : (crowdedDraft requests).poolReached.overflowed = true :=
    (poolReached_grows faithful).overflowed (by rw [same])
  obtain ⟨fault, failed, ends, lost⟩ := overflow_is_reported 52 33 "A" "java/lang/Object" ""
    (crowdedEdits requests) (show crowdedDraft requests = _ from rfl) verifiable exceeded
  refine ⟨verifiable, exceeded, fault, failed, lost ⟨crowdedMethod, by simp [methods], ?_⟩, ends⟩
  exact ⟨_, _, crowded_code.1, crowded_code.2, _, Array.mem_of_getElem? (i := 0) rfl, rfl⟩

end Draft

end Minilang.ClassFile
