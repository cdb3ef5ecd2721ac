import Mathlib.Data.List.Forall2
import Minilang.ClassFile.Analysis
import Minilang.Proofs.Results

/-! The typing rules of instructions, one constructor for each way an instruction can be typed.
The analysis computes exactly these rules, so every other statement about a typed instruction is
a case analysis over them. -/

namespace Minilang.ClassFile

namespace TypeState

/-- The types after a call has left its result, if it has one. -/
def pushResult (types : TypeState) (result : Option VType) : TypeState :=
  (result.map types.push).getD types

@[simp] theorem push_locals (types : TypeState) (type : VType) :
    (types.push type).locals = types.locals := rfl

@[simp] theorem push_stack (types : TypeState) (type : VType) :
    (types.push type).stack = type :: types.stack := rfl

@[simp] theorem pushResult_locals (types : TypeState) (result : Option VType) :
    (types.pushResult result).locals = types.locals := by
  cases result <;> rfl

@[simp] theorem pushResult_stack (types : TypeState) (result : Option VType) :
    (types.pushResult result).stack = result.toList ++ types.stack := by
  cases result <;> rfl

end TypeState

/-- Arguments of the kinds of their parameters, both in order. -/
abbrev Fits (args params : List VType) : Prop :=
  List.Forall₂ (fun arg param => arg.sameKind param = true) args params

/-- `Rule pool offset before action after`: the instruction at `offset` is typed. -/
inductive Rule (pool : Pool) (offset : Nat) : TypeState → Action → TypeState → Prop where
  | nop {types} : Rule pool offset types .nop types
  | goto {types target} : Rule pool offset types (.goto target) types
  | ret {types} : Rule pool offset types .ret types
  | push {types value} : Rule pool offset types (.push value) (types.push .int)
  | integer {types index value} (found : pool.get index = .ok (.integer value)) :
      Rule pool offset types (.constant index) (types.push .int)
  | string {types index text} (found : pool.get index = .ok (.string text)) :
      Rule pool offset types (.constant index) (types.push (.object "java/lang/String"))
  | intLoad {types slot} (held : types.locals[slot]? = some .int) :
      Rule pool offset types (.intLoad slot) (types.push .int)
  | refLoad {types slot name} (held : types.locals[slot]? = some (.object name)) :
      Rule pool offset types (.refLoad slot) (types.push (.object name))
  | intStore {locals stack slot} (inside : slot < locals.size) :
      Rule pool offset ⟨locals, .int :: stack⟩ (.intStore slot)
        ⟨locals.setIfInBounds slot .int, stack⟩
  | refStore {locals stack slot name} (inside : slot < locals.size) :
      Rule pool offset ⟨locals, .object name :: stack⟩ (.refStore slot)
        ⟨locals.setIfInBounds slot (.object name), stack⟩
  | shuffle {locals stack kind shuffled} (done : kind.apply stack = some shuffled) :
      Rule pool offset ⟨locals, stack⟩ (.shuffle kind) ⟨locals, shuffled⟩
  | compute {locals stack op} :
      Rule pool offset ⟨locals, .int :: .int :: stack⟩ (.compute op) ⟨locals, .int :: stack⟩
  | negate {locals stack} :
      Rule pool offset ⟨locals, .int :: stack⟩ .negate ⟨locals, .int :: stack⟩
  | branchZero {locals stack cond target} :
      Rule pool offset ⟨locals, .int :: stack⟩ (.branchZero cond target) ⟨locals, stack⟩
  | branchInts {locals stack cond target} :
      Rule pool offset ⟨locals, .int :: .int :: stack⟩ (.branchInts cond target) ⟨locals, stack⟩
  | getStatic {types index ref type} (found : pool.member index = .ok ref)
      (described : fieldType ref.descriptor = .ok type) :
      Rule pool offset types (.getStatic index) (types.push type)
  | staticCall {locals stack args index ref params result} (found : pool.member index = .ok ref)
      (described : methodType ref.descriptor = .ok (params, result))
      (fits : Fits args params) :
      Rule pool offset ⟨locals, args.reverse ++ stack⟩ (.invoke .staticCall index)
        (TypeState.pushResult ⟨locals, stack⟩ result)
  | call {locals stack args receiver kind index ref params result}
      (found : pool.member index = .ok ref)
      (described : methodType ref.descriptor = .ok (params, result))
      (fits : Fits args params)
      (instanceCall : kind ≠ .staticCall)
      (plain : ¬ (kind = .specialCall ∧ ref.name = ("<init>" : Bytes)))
      (isRef : receiver.isRef = true) :
      Rule pool offset ⟨locals, args.reverse ++ receiver :: stack⟩ (.invoke kind index)
        (TypeState.pushResult ⟨locals, stack⟩ result)
  | construct {locals stack args raw index ref params result}
      (found : pool.member index = .ok ref)
      (described : methodType ref.descriptor = .ok (params, result))
      (fits : Fits args params)
      (isInit : ref.name = ("<init>" : Bytes)) :
      Rule pool offset ⟨locals, args.reverse ++ .uninit raw :: stack⟩ (.invoke .specialCall index)
        ((TypeState.initialise ⟨locals, stack⟩ (.uninit raw) ref.owner).pushResult result)
  | new {types index name} (found : pool.className index = .ok name) :
      Rule pool offset types (.new index) (types.push (.uninit offset))

namespace TypeState

theorem popInt_eq_ok {types after : TypeState} :
    types.popInt = .ok after ↔ types = ⟨after.locals, .int :: after.stack⟩ := by
  obtain ⟨locals, stack⟩ := types
  obtain ⟨locals', stack'⟩ := after
  unfold popInt
  split <;> simp_all [and_comm, eq_comm]

private theorem lookUp_eq_ok {α : Type} {found : Except PoolFault α} {value : α} :
    lookUp found = .ok value ↔ found = .ok value := by
  cases found <;> simp [lookUp]

private theorem described_eq_ok {α : Type} {found : Except DescriptorFault α} {value : α} :
    described found = .ok value ↔ found = .ok value := by
  cases found <;> simp [described]

private theorem argumentMismatch_eq_none (ref : MemberRef) (index : Nat) {args params : List VType}
    (same : args.length = params.length) :
    argumentMismatch ref index args params = none ↔ Fits args params := by
  induction args generalizing index params with
  | nil =>
    cases params with
    | nil => simp [argumentMismatch, Fits]
    | cons => cases same
  | cons arg args ih =>
    cases params with
    | nil => cases same
    | cons param params =>
      have rest := ih (index + 1) (Nat.succ.inj same)
      by_cases fits : arg.sameKind param = true
      · simpa [argumentMismatch, Fits, fits] using rest
      · simp [argumentMismatch, Fits, fits]

/-- A stack that is deep enough splits into the arguments, the last on top, and the rest. -/
private theorem stack_split {stack : List VType} {count : Nat} (deep : count ≤ stack.length) :
    ((stack.take count).reverse).reverse ++ stack.drop count = stack ∧
      (stack.take count).reverse.length = count := by
  simp [deep]

private theorem invoke_arguments {types after : TypeState} {kind : InvokeKind} {ref : MemberRef}
    (called : types.invoke kind ref = .ok after) :
    ∃ params result args stack, methodType ref.descriptor = .ok (params, result) ∧
      types = ⟨types.locals, args.reverse ++ stack⟩ ∧ Fits args params := by
  unfold invoke at called
  simp only [bind_eq_ok, described_eq_ok] at called
  obtain ⟨⟨params, result⟩, known, called⟩ := called
  split at called
  · cases called
  next deep =>
    obtain ⟨whole, count⟩ := stack_split (Nat.le_of_not_lt deep)
    split at called
    · cases called
    next agree =>
      have matched : argumentMismatch ref 0 (types.stack.take params.length).reverse params = none := by
        cases outcome : argumentMismatch ref 0 (types.stack.take params.length).reverse params with
        | none => rfl
        | some cause => exact (agree cause outcome).elim
      refine ⟨params, result, _, types.stack.drop params.length, known, ?_,
        (argumentMismatch_eq_none ref 0 count).mp matched⟩
      rw [whole]

/-- A call after its arguments have been taken off the stack. -/
private theorem invoke_fits {kind : InvokeKind} {ref : MemberRef} {params args stack : List VType}
    {result : Option VType} (locals : Array VType)
    (known : methodType ref.descriptor = .ok (params, result)) (fits : Fits args params) :
    (⟨locals, args.reverse ++ stack⟩ : TypeState).invoke kind ref =
      if kind = .staticCall then .ok (pushResult ⟨locals, stack⟩ result)
      else match stack with
        | [] => .error (if kind = .specialCall ∧ ref.name = ("<init>" : Bytes) then
            .initialised .top else .underflow)
        | receiver :: rest =>
            if receiver.isRef = false then .error (.badReceiver ref receiver)
            else if kind = .specialCall ∧ ref.name = ("<init>" : Bytes) then
              match receiver with
              | .uninit _ => .ok ((initialise ⟨locals, rest⟩ receiver ref.owner).pushResult result)
              | _ => .error (.initialised receiver)
            else .ok (pushResult ⟨locals, rest⟩ result) := by
  have count : args.length = params.length := fits.length_eq
  have taken : ((args.reverse ++ stack).take params.length).reverse = args := by
    rw [← count, ← List.length_reverse, List.take_left, List.reverse_reverse]
  have dropped : (args.reverse ++ stack).drop params.length = stack := by
    rw [← count, ← List.length_reverse, List.drop_left]
  have matched := (argumentMismatch_eq_none ref 0 count).mpr fits
  have deep : ¬ (args.reverse ++ stack).length < params.length := by
    simp only [List.length_append, List.length_reverse]
    omega
  unfold invoke
  by_cases static : kind = .staticCall
  · simp only [known, described, ok_bind, deep, if_false, taken, matched, dropped, static, if_true,
      pure_eq_ok]
    rfl
  · cases stack with
    | nil =>
      simp only [known, described, ok_bind, deep, if_false, taken, matched, dropped, static,
        Bool.and_eq_true, decide_eq_true_eq, throw_eq_error]
    | cons receiver rest =>
      simp only [known, described, ok_bind, deep, if_false, taken, matched, dropped, static,
        Bool.and_eq_true, decide_eq_true_eq, Bool.not_eq_true', pure_eq_ok, throw_eq_error,
        error_bind]
      rfl

private theorem rule_of_invoke {pool : Pool} {offset : Nat} {types after : TypeState}
    {kind : InvokeKind} {index : UInt16} {ref : MemberRef} (found : pool.member index = .ok ref)
    (called : types.invoke kind ref = .ok after) :
    Rule pool offset types (.invoke kind index) after := by
  obtain ⟨params, result, args, stack, known, shape, fits⟩ := invoke_arguments called
  rw [shape, invoke_fits types.locals known fits] at called
  rw [shape]
  split at called
  next isStatic =>
    cases called
    subst isStatic
    exact .staticCall found known fits
  next instanceCall =>
    split at called
    · cases called
    next receiver rest =>
      split at called
      · cases called
      next isRef =>
        split at called
        next isInit =>
          obtain ⟨rfl, isInit⟩ := isInit
          split at called
          · cases called
            exact .construct found known fits isInit
          · cases called
        next plain =>
          cases called
          exact .call found known fits instanceCall plain (by simpa using isRef)

private theorem loadLocal_eq_ok {types : TypeState} {slot : Nat} {type : VType} :
    types.loadLocal slot = .ok type ↔ types.locals[slot]? = some type := by
  unfold loadLocal
  split <;> simp_all

private theorem checkSlot_eq_ok {types : TypeState} {slot : Nat} {done : Unit} :
    types.checkSlot slot = .ok done ↔ slot < types.locals.size := by
  unfold checkSlot
  split <;> simp_all

end TypeState

open TypeState

/-- What the analysis accepts follows the rules. -/
theorem rule_of_step {pool : Pool} {offset : Nat} {types after : TypeState} {action : Action}
    (stepped : types.step pool offset action = .ok after) : Rule pool offset types action after := by
  cases action <;> simp only [TypeState.step, pure_eq_ok, throw_eq_error, bind_eq_ok,
    lookUp_eq_ok, described_eq_ok, loadLocal_eq_ok, checkSlot_eq_ok, popInt_eq_ok] at stepped
  case nop => cases stepped; exact .nop
  case goto => cases stepped; exact .goto
  case ret => cases stepped; exact .ret
  case push => cases stepped; exact .push
  case constant =>
    obtain ⟨constant, found, stepped⟩ := stepped
    split at stepped <;> cases stepped
    · exact .integer found
    · exact .string found
  case intLoad =>
    obtain ⟨type, held, stepped⟩ := stepped
    split at stepped <;> cases stepped
    exact .intLoad held
  case refLoad =>
    obtain ⟨type, held, stepped⟩ := stepped
    split at stepped <;> cases stepped
    exact .refLoad held
  case intStore =>
    obtain ⟨-, inside, popped, shape, stepped⟩ := stepped
    cases stepped
    cases shape
    exact .intStore inside
  case refStore =>
    obtain ⟨-, inside, stepped⟩ := stepped
    obtain ⟨locals, stack⟩ := types
    split at stepped
    · cases stepped
    next name rest shape =>
      cases stepped
      cases shape
      exact .refStore inside
    · cases stepped
  case shuffle =>
    split at stepped
    next shuffled done =>
      cases stepped
      exact .shuffle done
    · cases stepped
  case compute =>
    obtain ⟨_, shape, _, again, stepped⟩ := stepped
    cases stepped
    cases shape
    cases again
    exact .compute
  case negate =>
    obtain ⟨_, shape, stepped⟩ := stepped
    cases stepped
    cases shape
    exact .negate
  case branchZero =>
    cases stepped
    exact .branchZero
  case branchInts =>
    obtain ⟨_, shape, again⟩ := stepped
    cases shape
    cases again
    exact .branchInts
  case getStatic =>
    obtain ⟨ref, found, type, known, stepped⟩ := stepped
    cases stepped
    exact .getStatic found known
  case invoke =>
    obtain ⟨ref, found, called⟩ := stepped
    exact rule_of_invoke found called
  case new =>
    obtain ⟨name, found, stepped⟩ := stepped
    cases stepped
    exact .new found

/-- What follows the rules is accepted by the analysis. -/
theorem Rule.step {pool : Pool} {offset : Nat} {types after : TypeState} {action : Action}
    (rule : Rule pool offset types action after) : types.step pool offset action = .ok after := by
  cases rule with
  | nop => rfl
  | goto => rfl
  | ret => rfl
  | push => rfl
  | integer found => simp [TypeState.step, lookUp, found]
  | string found => simp [TypeState.step, lookUp, found]
  | intLoad held => simp [TypeState.step, loadLocal, held]
  | refLoad held => simp [TypeState.step, loadLocal, held]
  | intStore inside => simp [TypeState.step, checkSlot, inside, popInt, setLocal]
  | refStore inside => simp [TypeState.step, checkSlot, inside, setLocal]
  | shuffle done => simp [TypeState.step, done]
  | compute => rfl
  | negate => rfl
  | branchZero => rfl
  | branchInts => rfl
  | getStatic found known => simp [TypeState.step, lookUp, found, described, known]
  | staticCall found known fits => simp [TypeState.step, lookUp, found, invoke_fits _ known fits]
  | call found known fits instanceCall plain isRef =>
    simp [TypeState.step, lookUp, found, invoke_fits _ known fits, instanceCall, plain, isRef]
  | construct found known fits isInit =>
    simp [TypeState.step, lookUp, found, invoke_fits _ known fits, isInit, VType.isRef]
  | new found => simp [TypeState.step, lookUp, found]

theorem step_eq_ok_iff {pool : Pool} {offset : Nat} {types after : TypeState} {action : Action} :
    types.step pool offset action = .ok after ↔ Rule pool offset types action after :=
  ⟨rule_of_step, Rule.step⟩

end Minilang.ClassFile
