import Minilang.Proofs.Imitation
import Minilang.Proofs.RealizedCode
import Minilang.Proofs.StackDiscipline
import Minilang.Proofs.VerifiedExecution

/-! Steps of the class machine on generated code. While generated code runs, the state of the
machine is a function of the position, the operands and the state of the evaluation. -/

namespace Minilang.ClassFile

open Machine (Console Cause Run)

def Advances (body : Body) (pool : Pool) (state next : MachineState) : Prop :=
  ∃ insn, body.insns[state.next]? = some insn ∧ insn.action ≠ .ret ∧
    ({ state with next := state.next + 1 } : MachineState).execute body pool insn = .ok next ∧
    next.next < body.insns.size

/-- The machine stands before an instruction that fails with a cause. -/
def Fails (body : Body) (pool : Pool) (state : MachineState) (cause : Cause) : Prop :=
  ∃ insn, body.insns[state.next]? = some insn ∧ insn.action ≠ .ret ∧
    ({ state with next := state.next + 1 } : MachineState).execute body pool insn =
      .error (.cause cause)

section

variable {body : Body} {pool : Pool} {state last : MachineState}

theorem Advances.step {next : MachineState} (advances : Advances body pool state next)
    (code : CodeInfo) :
    ∃ insn, body.insns[state.next]? = some insn ∧
      ClassFile.step code body pool insn state = .next next := by
  obtain ⟨insn, present, goes, executed, inside⟩ := advances
  refine ⟨insn, present, ?_⟩
  simp only [ClassFile.step, if_neg goes, executed, if_pos inside]

/-- Steps within the limit only use up fuel. -/
theorem runFrom_runs {k : Nat} (runs : Runs (Advances body pool) k state last) (code : CodeInfo)
    {limit spent : Nat} (within : limit = 0 ∨ spent + k ≤ limit) (fuel : Nat) :
    runFrom code body pool limit (k + fuel) spent state =
      runFrom code body pool limit fuel (spent + k) last := by
  induction runs generalizing spent with
  | refl => simp
  | @cons k first second last here later ih =>
    obtain ⟨insn, present, stepped⟩ := here.step code
    have free : (0 < limit && limit ≤ spent) = false := by
      rcases within with rfl | le
      · simp
      · simp
        omega
    rw [Nat.add_right_comm, runFrom]
    simp only [present, free, Bool.false_eq_true, if_false, stepped]
    rw [ih (by omega)]
    congr 1
    omega

theorem runFrom_unfinished {k : Nat} (runs : Runs (Advances body pool) k state last)
    (code : CodeInfo) {fuel : Nat} (le : fuel ≤ k) (spent : Nat) :
    runFrom code body pool 0 fuel spent state = none := by
  induction runs generalizing fuel spent with
  | refl =>
    obtain rfl : fuel = 0 := by omega
    rfl
  | @cons k first second last here later ih =>
    cases fuel with
    | zero => rfl
    | succ fuel =>
      obtain ⟨insn, present, stepped⟩ := here.step code
      simp only [runFrom, present, stepped, Nat.lt_irrefl, decide_false, Bool.false_and,
        Bool.false_eq_true, if_false]
      exact ih (by omega) (spent + 1)

/-- A failing instruction ends the run. -/
theorem runFrom_fails {cause : Cause} (fails : Fails body pool state cause) (code : CodeInfo)
    (fuel spent : Nat) :
    ∃ fault, fault.cause = cause ∧ runFrom code body pool 0 (fuel + 1) spent state =
      some { console := state.console, ending := .fault fault } := by
  obtain ⟨insn, present, goes, executed⟩ := fails
  refine ⟨faultAt code insn.offset cause, rfl, ?_⟩
  simp only [runFrom, present, Nat.lt_irrefl, decide_false, Bool.false_and, Bool.false_eq_true,
    if_false, ClassFile.step, if_neg goes, executed]

theorem runFrom_ret (ends : ∃ insn, body.insns[state.next]? = some insn ∧ insn.action = .ret)
    (code : CodeInfo) (fuel spent : Nat) :
    runFrom code body pool 0 (fuel + 1) spent state =
      some { console := state.console, ending := .done } := by
  obtain ⟨insn, present, returns⟩ := ends
  simp only [runFrom, present, Nat.lt_irrefl, decide_false, Bool.false_and, Bool.false_eq_true,
    if_false, ClassFile.step, if_pos returns]

end

/-- The scanner and the values of the variables. -/
def localsOf (vars : Variables) (store : Store) : Array Value :=
  #[.scanner] ++ vars.names.map fun name => .int (store.get name)

/-- The machine at a position, with operands on its stack, in a state of the evaluation. -/
def machineAt (vars : Variables) (p : Nat) (stack : List Value) (state : EvalState) :
    MachineState :=
  { next := p, stack, locals := localsOf vars state.store, console := consoleOf state }

theorem size_localsOf (vars : Variables) (store : Store) :
    (localsOf vars store).size = vars.size + 1 := by
  simp [localsOf, Variables.size, Nat.add_comm]

theorem localsOf_zero (vars : Variables) (store : Store) :
    (localsOf vars store)[0]? = some .scanner := by
  simp [localsOf]

theorem localsOf_succ (vars : Variables) (store : Store) (i : Nat) :
    (localsOf vars store)[i + 1]? = (vars.names[i]?).map fun name => .int (store.get name) := by
  simp [localsOf, Array.getElem?_append]

theorem localsOf_slot {vars : Variables} (sound : vars.Sound) {name : Bytes}
    (known : vars.has name = true) (store : Store) :
    (localsOf vars store)[slotOf vars name]? = some (.int (store.get name)) := by
  obtain ⟨i, found⟩ := Variables.has_iff.mp known
  simp only [slotOf, found, Option.getD_some, localsOf_succ, (sound name i).mp found,
    Option.map_some]

theorem localsOf_set {vars : Variables} (sound : vars.Sound) {name : Bytes}
    (known : vars.has name = true) (store : Store) (value : Int32) :
    (localsOf vars store).setIfInBounds (slotOf vars name) (.int value) =
      localsOf vars (store.set name value) := by
  obtain ⟨i, found⟩ := Variables.has_iff.mp known
  have inside := sound.lt found
  simp only [slotOf, found, Option.getD_some]
  refine Array.ext_getElem? fun j => ?_
  rw [Array.getElem?_setIfInBounds, size_localsOf]
  cases j with
  | zero => simp [localsOf_zero]
  | succ j =>
    simp only [localsOf_succ, Nat.add_right_cancel_iff]
    by_cases same : i = j
    · subst same
      simp [inside, (sound name i).mp found, Store.get_set]
    · rw [if_neg same]
      cases there : vars.names[j]? with
      | none => rfl
      | some other =>
        have differ : name ≠ other := by
          rintro rfl
          exact same (Option.some.inj (found.symm.trans ((sound name j).mpr there)))
        simp [Store.get_set, differ]

/-- What a step that does not jump does to the operands and to the state of the evaluation. -/
inductive Acts (vars : Variables) :
    Step → List Value → EvalState → List Value → EvalState → Prop where
  | push {value σ es} : Acts vars (.push value) σ es (.int value :: σ) es
  | load {name : Bytes} {σ es} (known : vars.has name = true) :
      Acts vars (.localVar .iload (slotOf vars name)) σ es (.int (es.store.get name) :: σ) es
  | store {name : Bytes} {value σ es} (known : vars.has name = true) :
      Acts vars (.localVar .istore (slotOf vars name)) (.int value :: σ) es σ
        { es with store := es.store.set name value }
  | scanner {σ es} : Acts vars (.localVar .aload 0) σ es (.scanner :: σ) es
  | readInt {value rest σ} {es : EvalState} (left : es.inputs = value :: rest) :
      Acts vars (.methodOperand .invokeVirtual nextInt) (.scanner :: σ) es (.int value :: σ)
        { es with inputs := rest }
  | stream {σ es} : Acts vars (.fieldOperand .getStatic systemOut) σ es (.stdout :: σ) es
  | printInt {value σ es} :
      Acts vars (.methodOperand .invokeVirtual println) (.int value :: .stdout :: σ) es σ
        { es with printed := value :: es.printed }
  | negate {value σ es} : Acts vars (.insn .ineg) (.int value :: σ) es (.int (-value) :: σ) es
  | arithmetic {op code left right value σ es} (found : arithmetic? op = some code)
      (result : Arith.apply op left right = .ok value) :
      Acts vars (.insn code) (.int right :: .int left :: σ) es (.int value :: σ) es
  | dup {top σ es} : Acts vars (.insn .dup) (top :: σ) es (top :: top :: σ) es
  | pop {top σ es} : Acts vars (.insn .pop) (top :: σ) es σ es
  | pop2 {top second σ es} : Acts vars (.insn .pop2) (top :: second :: σ) es σ es
  | swap {top second σ es} : Acts vars (.insn .swap) (top :: second :: σ) es (second :: top :: σ) es
  | dupX1 {top second σ es} :
      Acts vars (.insn .dupX1) (top :: second :: σ) es (top :: second :: top :: σ) es
  | dup2X1 {top second third σ es} :
      Acts vars (.insn .dup2X1) (top :: second :: third :: σ) es
        (top :: second :: third :: top :: second :: σ) es

/-- Instructions calculate as the evaluation does. -/
theorem arithmetic_eval {op : Op} {code : Opcode} (found : arithmetic? op = some code) :
    ∃ way, code.does 0 = .compute way ∧ ∀ left right, Arith.apply op left right =
      (way.eval? left right).elim (.error .divByZero) .ok := by
  cases op <;> cases found <;> exact ⟨_, rfl, fun _ _ => rfl⟩

private theorem execute_push {s : MachineState} {body : Body} {pool : Pool} {target : Nat → Option Nat}
    {insn : Insn} {value : Int32} (means : (Step.push value).Means pool target insn.action) :
    s.execute body pool insn = .ok (s.push (.int value)) := by
  rcases means with does | ⟨i, does, found⟩
  · simp only [MachineState.execute, does, pure_eq_ok]
  · simp only [MachineState.execute, does, found, pure_eq_ok]

theorem execute_acts {vars : Variables} (sound : vars.Sound) {s : Step} {σ τ : List Value}
    {es after : EvalState} (acts : Acts vars s σ es τ after) (body : Body) {pool : Pool}
    {target : Nat → Option Nat} {insn : Insn} (means : s.Means pool target insn.action) (p : Nat) :
    insn.action ≠ .ret ∧
      (machineAt vars p σ es).execute body pool insn = .ok (machineAt vars p τ after) := by
  cases acts with
  | push =>
    refine ⟨?_, execute_push means⟩
    rcases means with does | ⟨i, does, -⟩ <;> simp [does]
  | @load name _ _ known =>
    have does : insn.action = .intLoad (slotOf vars name) := means
    refine ⟨by simp [does], ?_⟩
    simp only [MachineState.execute, does, MachineState.load, machineAt,
      localsOf_slot sound known]
    rfl
  | @store name value _ _ known =>
    have does : insn.action = .intStore (slotOf vars name) := means
    have inside : slotOf vars name < (localsOf vars es.store).size := by
      have bounds := slotOf_bounds sound known
      rw [size_localsOf]
      omega
    refine ⟨by simp [does], ?_⟩
    simp only [MachineState.execute, does, MachineState.store, MachineState.pop, machineAt,
      ok_bind, if_pos inside, localsOf_set sound known, pure_eq_ok]
    rfl
  | scanner =>
    have does : insn.action = .refLoad 0 := means
    refine ⟨by simp [does], ?_⟩
    simp only [MachineState.execute, does, MachineState.load, machineAt, localsOf_zero]
    rfl
  | @readInt value rest _ _ left =>
    obtain ⟨i, does, names⟩ := means
    rw [does_invokeVirtual] at does
    refine ⟨by simp [does], ?_⟩
    simp only [MachineState.execute, does, names.member, Except.toOption, Option.getD_some]
    refine (MachineState.invoke_nextInt (machineAt vars p [] es) .scanner _).trans ?_
    rw [if_neg (by simp), show (machineAt vars p [] es).console.read = _ from consoleOf_read left]
    rfl
  | stream =>
    obtain ⟨i, does, names⟩ := means
    rw [does_getStatic] at does
    have other : systemOut.text ≠ systemIn.text := by decide
    refine ⟨by simp [does], ?_⟩
    simp only [MachineState.execute, does, names.member, Except.toOption, Option.getD_some,
      if_neg other, if_true, pure_eq_ok]
    rfl
  | @printInt value _ _ =>
    obtain ⟨i, does, names⟩ := means
    rw [does_invokeVirtual] at does
    refine ⟨by simp [does], ?_⟩
    simp only [MachineState.execute, does, names.member, Except.toOption, Option.getD_some]
    refine (MachineState.invoke_println (machineAt vars p [] es) (.int value) .stdout τ).trans ?_
    rw [if_neg (by simp)]
    rfl
  | negate =>
    have does : insn.action = .negate := means
    exact ⟨by simp [does], by simp only [MachineState.execute, does]; rfl⟩
  | arithmetic found result =>
    obtain ⟨way, computes, same⟩ := arithmetic_eval found
    have does : insn.action = .compute way := means.trans computes
    refine ⟨by simp [does], ?_⟩
    rw [same] at result
    cases value? : way.eval? _ _ with
    | none =>
      rw [value?] at result
      cases result
    | some other =>
      rw [value?] at result
      cases result
      simp only [MachineState.execute, does, MachineState.popInt, MachineState.pop, machineAt,
        ok_bind, pure_eq_ok, Value.toInt32, value?]
      rfl
  | dup | pop | pop2 | swap | dupX1 | dup2X1 =>
    have does : insn.action = .shuffle _ := means
    exact ⟨by simp [does], by simp only [MachineState.execute, does]; rfl⟩

def byZero : Bytes := "java.lang.ArithmeticException: / by zero"

namespace Realizes

variable {main : List Step} {body : Body} {pool : Pool} {target : Nat → Option Nat}
  {vars : Variables} {p q : Nat} {σ τ : List Value} {es after : EvalState}

/-- There is always an instruction behind a step: at the end it is the return. -/
theorem room (real : Realizes main body pool target) {s : Step} (one : s.size = 1)
    (at_ : CodeAt main p [s]) : p + 1 < body.insns.size := by
  have bound := at_.bound
  have size := real.size
  simp only [width_cons, one, width_nil] at bound
  omega

private theorem place (real : Realizes main body pool target) {label : Nat}
    (mark : CodeAt main q [.mark label]) : q < body.insns.size := by
  have bound := mark.bound
  have size := real.size
  omega

theorem acts (real : Realizes main body pool target) (sound : vars.Sound) {s : Step}
    (at_ : CodeAt main p [s]) (acts : Acts vars s σ es τ after) :
    Advances body pool (machineAt vars p σ es) (machineAt vars (p + 1) τ after) := by
  have one : s.size = 1 := by cases acts <;> rfl
  obtain ⟨insn, present, means⟩ := real.step p s at_ one
  obtain ⟨goes, executed⟩ := execute_acts sound acts body means (p + 1)
  exact ⟨insn, present, goes, executed, real.room one at_⟩

private theorem jump (real : Realizes main body pool target) {op : Opcode} {label : Nat}
    (at_ : CodeAt main p [.jump op label]) (mark : CodeAt main q [.mark label]) :
    ∃ insn place, body.insns[p]? = some insn ∧ insn.action = op.does place ∧
      body.indexOf? place = some q := by
  obtain ⟨insn, present, place, bound, does⟩ := real.step p _ at_ rfl
  obtain ⟨other, marked, found⟩ := real.mark q label mark
  rw [bound] at marked
  cases marked
  exact ⟨insn, place, present, does, found⟩

theorem goto (real : Realizes main body pool target) {label : Nat}
    (at_ : CodeAt main p [.jump .goto label]) (mark : CodeAt main q [.mark label]) :
    Advances body pool (machineAt vars p σ es) (machineAt vars q σ es) := by
  obtain ⟨insn, place, present, means, found⟩ := real.jump at_ mark
  have does : insn.action = .goto place := means
  refine ⟨insn, present, by simp [does], ?_, real.place mark⟩
  simp only [MachineState.execute, does, MachineState.goto, found]
  rfl

theorem branchZero (real : Realizes main body pool target) {cond : Cond} {label : Nat}
    (at_ : CodeAt main p [.jump (.ifZero cond) label]) (mark : CodeAt main q [.mark label])
    (value : Int32) :
    Advances body pool (machineAt vars p (.int value :: σ) es)
      (machineAt vars (if cond.holds value 0 then q else p + 1) σ es) := by
  obtain ⟨insn, place, present, does, found⟩ := real.jump at_ mark
  rw [does_ifZero] at does
  refine ⟨insn, present, by simp [does], ?_, ?_⟩
  · simp only [MachineState.execute, does, MachineState.popInt, MachineState.pop, machineAt,
      ok_bind, pure_eq_ok, Value.toInt32, MachineState.goto, found]
    split <;> rfl
  · simp only [machineAt]
    split
    · exact real.place mark
    · exact real.room rfl at_

theorem branchInts (real : Realizes main body pool target) {cond : Cond} {label : Nat}
    (at_ : CodeAt main p [.jump (.ifInts cond) label]) (mark : CodeAt main q [.mark label])
    (left right : Int32) :
    Advances body pool (machineAt vars p (.int right :: .int left :: σ) es)
      (machineAt vars (if cond.holds left right then q else p + 1) σ es) := by
  obtain ⟨insn, place, present, does, found⟩ := real.jump at_ mark
  rw [does_ifInts] at does
  refine ⟨insn, present, by simp [does], ?_, ?_⟩
  · simp only [MachineState.execute, does, MachineState.popInt, MachineState.pop, machineAt,
      ok_bind, pure_eq_ok, Value.toInt32, MachineState.goto, found]
    split <;> rfl
  · simp only [machineAt]
    split
    · exact real.place mark
    · exact real.room rfl at_

theorem exhausted (real : Realizes main body pool target)
    (at_ : CodeAt main p [.methodOperand .invokeVirtual nextInt]) (left : es.inputs = []) :
    Fails body pool (machineAt vars p (.scanner :: σ) es) .inputExhausted := by
  obtain ⟨insn, present, i, does, names⟩ := real.step p _ at_ rfl
  rw [does_invokeVirtual] at does
  refine ⟨insn, present, by simp [does], ?_⟩
  simp only [MachineState.execute, does, names.member, Except.toOption, Option.getD_some]
  refine (MachineState.invoke_nextInt (machineAt vars (p + 1) [] es) .scanner σ).trans ?_
  rw [if_neg (by simp), show (machineAt vars (p + 1) [] es).console.read = _ from consoleOf_exhausted left]
  rfl

theorem divides (real : Realizes main body pool target) {op : Op} {code : Opcode}
    (found : arithmetic? op = some code) (at_ : CodeAt main p [.insn code]) {left right : Int32}
    {fault : Arith.Fault} (result : Arith.apply op left right = .error fault) :
    fault = .divByZero ∧ Fails body pool (machineAt vars p (.int right :: .int left :: σ) es)
      (.divByZero byZero) := by
  obtain ⟨insn, present, means⟩ := real.step p _ at_ rfl
  obtain ⟨way, computes, same⟩ := arithmetic_eval found
  have does : insn.action = .compute way := Eq.trans means computes
  rw [same] at result
  cases value? : way.eval? left right with
  | some other =>
    rw [value?] at result
    cases result
  | none =>
    rw [value?] at result
    cases result
    refine ⟨rfl, insn, present, by simp [does], ?_⟩
    simp only [MachineState.execute, does, MachineState.popInt, MachineState.pop, machineAt,
      ok_bind, pure_eq_ok, Value.toInt32, value?]
    rfl

end Realizes

end Minilang.ClassFile
