import Minilang.Proofs.InputReaders
import Minilang.Proofs.IrMachineRuns
import Minilang.Proofs.IrNames

/-! The machine for intermediate code imitates the evaluation of expressions that read leniently.
The cells of the variables hold their values; results and cells that were made before a part of
the code are not touched by it, so an operand keeps its value while other operands get theirs. -/

namespace Minilang

namespace Ir

/-- The machine has come to a position in a state of the evaluation; the cells of the code have been
made. -/
structure At (vars : Variables) (cells : List Nat) (p : Nat) (es : EvalState) (state : MachineState) :
    Prop where
  pc : state.pc = p
  console : state.console = consoleOf es
  free : es.budget = 0
  held : ∀ name, vars.has name = true → state.cells[name]? = some (es.store.get name)
  scratch : ∀ c ∈ cells, ∃ value, state.cells[temp c]? = some value

/-- Nothing that was made before `n` has changed. -/
structure Keeps (n : Nat) (before after : MachineState) : Prop where
  values : ∀ m ≤ n, after.values[temp m]? = before.values[temp m]?
  cells : ∀ m ≤ n, after.cells[temp m]? = before.cells[temp m]?

theorem temp_eq_iff {n m : Nat} : temp n = temp m ↔ n = m :=
  ⟨temp_inj, fun same => same ▸ rfl⟩

namespace Keeps

variable {n m : Nat} {before between after : MachineState}

theorem refl (n : Nat) (state : MachineState) : Keeps n state state := ⟨fun _ _ => rfl, fun _ _ => rfl⟩

theorem trans (first : Keeps n before between) (second : Keeps n between after) :
    Keeps n before after :=
  ⟨fun m le => (second.values m le).trans (first.values m le),
    fun m le => (second.cells m le).trans (first.cells m le)⟩

theorem mono (keeps : Keeps m before after) (le : n ≤ m) : Keeps n before after :=
  ⟨fun i small => keeps.values i (small.trans le), fun i small => keeps.cells i (small.trans le)⟩

theorem give (keeps : Keeps n before after) (later : n < m) (value : Int32) :
    Keeps n before (after.give (temp m) value) := by
  refine ⟨fun i le => ?_, keeps.cells⟩
  rw [MachineState.give_values, if_neg (by rw [temp_eq_iff]; omega)]
  exact keeps.values i le

theorem put (keeps : Keeps n before after) {name : Bytes} (apart : ∀ i ≤ n, name ≠ temp i)
    (value : Int32) : Keeps n before (after.put name value) := by
  refine ⟨keeps.values, fun i le => ?_⟩
  rw [MachineState.put_cells, if_neg (apart i le)]
  exact keeps.cells i le

theorem putTemp (keeps : Keeps n before after) (later : n < m) (value : Int32) :
    Keeps n before (after.put (temp m) value) :=
  keeps.put (fun i le => by rw [ne_eq, temp_eq_iff]; omega) value

/-- The position and the console do not matter. -/
theorem same (keeps : Keeps n before after) {state : MachineState}
    (values : state.values = after.values) (cells : state.cells = after.cells) :
    Keeps n before state :=
  ⟨by rw [values]; exact keeps.values, by rw [cells]; exact keeps.cells⟩

end Keeps

/-- An operand that was made up to `n`. -/
def Operand.Below (n : Nat) (operand : Operand) : Prop :=
  ∀ name, operand = .reg name → ∃ m ≤ n, name = temp m

theorem Operand.Below.mono {n m : Nat} {operand : Operand} (below : operand.Below n) (le : n ≤ m) :
    operand.Below m := by
  intro name same
  obtain ⟨i, small, made⟩ := below name same
  exact ⟨i, small.trans le, made⟩

theorem Keeps.operand {n : Nat} {before after : MachineState} (keeps : Keeps n before after)
    {operand : Operand} (below : operand.Below n) {value : Int32}
    (given : before.operand operand = .ok value) : after.operand operand = .ok value := by
  cases operand with
  | imm => exact given
  | reg name =>
    obtain ⟨m, le, rfl⟩ := below name rfl
    rw [MachineState.operand_reg] at given ⊢
    rw [keeps.values m le, given]

end Ir

open Ir

theorem Expr.operand_below (e : Expr) (n : Nat) : (e.operand n).Below (n + e.made) := by
  induction e with
  | intLit => exact fun _ wrong => by cases wrong
  | paren site inner ih => exact ih
  | unary site op operand ih =>
    cases op with
    | plus => exact ih
    | _ => exact fun _ same => ⟨_, Nat.le_refl _, (Operand.reg.inj same).symm⟩
  | absent | hollow | unknown | varRef | read | binary =>
    exact fun _ same => ⟨_, Nat.le_refl _, (Operand.reg.inj same).symm⟩

namespace Ir

section

variable {vars : Variables} {cells : List Nat} {p n : Nat} {es : EvalState} {state : MachineState}

theorem At.give (at_ : At vars cells p es state) (name : Bytes) (value : Int32) :
    At vars cells (p + 1) es (state.give name value) :=
  ⟨congrArg (· + 1) at_.pc, at_.console, at_.free, at_.held, at_.scratch⟩

theorem At.moved (at_ : At vars cells p es state) (q : Nat) : At vars cells q es (state.moved q) :=
  ⟨rfl, at_.console, at_.free, at_.held, at_.scratch⟩

/-- A cell of the code changes no variable. -/
theorem At.putTemp (at_ : At vars cells p es state)
    (apart : ∀ name, vars.has name = true → ∀ m, name ≠ temp m) (c : Nat) (value : Int32) :
    At vars cells (p + 1) es (state.put (temp c) value) := by
  refine ⟨congrArg (· + 1) at_.pc, at_.console, at_.free, fun name known => ?_, fun d member => ?_⟩
  · rw [MachineState.put_cells, if_neg (apart name known c).symm]
    exact at_.held name known
  · rw [MachineState.put_cells]
    split
    · exact ⟨value, rfl⟩
    · exact at_.scratch d member

/-- The cell of a variable is set as the variable is. -/
theorem At.assign (at_ : At vars cells p es state) (name : Bytes) (value : Int32) :
    At vars cells (p + 1) { es with store := es.store.set name value } (state.put name value) := by
  refine ⟨congrArg (· + 1) at_.pc, at_.console, at_.free, fun other known => ?_, fun c member => ?_⟩
  · rw [MachineState.put_cells, Store.get_set]
    split
    · rfl
    · exact at_.held other known
  · rw [MachineState.put_cells]
    split
    · exact ⟨value, rfl⟩
    · exact at_.scratch c member

/-- Only the console has changed. -/
theorem At.hear (at_ : At vars cells p es state) {after : EvalState} (store : after.store = es.store)
    (budget : after.budget = es.budget) : At vars cells p after (state.hear (consoleOf after)) := by
  refine ⟨at_.pc, rfl, budget.trans at_.free, ?_, at_.scratch⟩
  rw [store]
  exact at_.held

theorem At.talk (at_ : At vars cells p es state) (after : EvalState) (store : after.store = es.store)
    (budget : after.budget = es.budget) :
    At vars cells (p + 1) after (state.talk (consoleOf after)) := by
  refine ⟨congrArg (· + 1) at_.pc, rfl, budget.trans at_.free, ?_, at_.scratch⟩
  rw [store]
  exact at_.held

theorem At.cast {q : Nat} (at_ : At vars cells p es state) (same : p = q) :
    At vars cells q es state :=
  same ▸ at_

end

/-- The machine fails as the evaluation stops, with the same console. -/
def Stuck (code : Code) (stop : EvalStop) (es : EvalState) (state : MachineState) : Prop :=
  stop = .arith .divByZero ∧ ∃ fault, fault.cause = .divByZero byZero ∧
    Ends code state { console := consoleOf es, ending := .fault fault }

/-- Instructions calculate as the evaluation does. -/
theorem calc_eval {form : BinaryForm} {op : Op} (admits : form.Admits op)
    (calculates : form = .additive ∨ form = .multiplicative) (l r : Int32) :
    Arith.apply op l r = ((calcOf op).eval? l r).elim (.error .divByZero) .ok := by
  rcases calculates with rfl | rfl
  · rcases admits with rfl | rfl <;> rfl
  · rcases admits with rfl | rfl | rfl <;> rfl

theorem test_eval {op : Op} (admits : BinaryForm.comparison.Admits op) (l r : Int32) :
    Arith.apply op l r = .ok (Arith.ofBool ((testOf op).holds l r)) := by
  cases op <;> first | rfl | cases admits

theorem ofBool_bit (b : Bool) : Arith.ofBool b &&& 1 = Arith.ofBool b := by cases b <;> decide

theorem ofBool_ne_zero (b : Bool) : Arith.ofBool b ≠ 0 ↔ b = true := by cases b <;> decide

section

variable {code : Code} {body : List Item} (real : code.Realizes body) {vars : Variables}
  {cells : List Nat} {p q : Nat} {es : EvalState} {state next : MachineState}
include real

theorem Code.Realizes.go (here : At vars cells p es state) {insn : Insn}
    (at_ : ItemsAt body p [.insn insn]) (acts : Acts code state insn next) :
    Advances code state next :=
  acts.advances real (here.pc ▸ at_)

theorem Code.Realizes.jump (here : At vars cells p es state) {n : Nat}
    (at_ : ItemsAt body p [plain (.jump (temp n))]) (target : ItemsAt body q [mark n]) :
    Advances code state (state.moved q) := by
  have goes := real.go here at_ .jump
  rwa [real.label target] at goes

theorem Code.Realizes.branch (here : At vars cells p es state) {flag : Operand} {n m r : Nat}
    (at_ : ItemsAt body p [plain (.branch flag (temp n) (temp m))])
    (yes : ItemsAt body q [mark n]) (no : ItemsAt body r [mark m]) {b : Bool}
    (given : state.operand flag = .ok (Arith.ofBool b)) :
    Advances code state (state.moved (if b then q else r)) := by
  have goes := real.go here at_ (.branch given)
  simp only [ofBool_bit, ofBool_ne_zero] at goes
  cases b with
  | true =>
    rw [if_pos rfl, real.label yes] at goes
    exact goes
  | false =>
    rw [if_neg (by decide), real.label no] at goes
    exact goes

end

/-- The machine has come to a position where an operand has the value of an expression. -/
def Valued (vars : Variables) (cells : List Nat) (p n : Nat) (operand : Operand)
    (start : MachineState) (value : Int32) (es : EvalState) (state : MachineState) : Prop :=
  At vars cells p es state ∧ state.operand operand = .ok value ∧ Keeps n start state

end Ir

theorem Reader.run_lenient (es : EvalState) :
    Reader.lenient.value.run.run es =
      (.ok (es.inputs.headD 0), { es with inputs := es.inputs.tail }) := by
  rcases es with ⟨_, _ | ⟨value, rest⟩, _, _, _⟩ <;> rfl

/-- The second operand is evaluated when the first one does not decide the value. -/
theorem Expr.evalBy_circuit {form : BinaryForm} (circuit : form = .logicalAnd ∨ form = .logicalOr)
    (reader : Reader) (site : Site) (op : Op) (left right : Expr) :
    (Expr.binary site form op left right).evalBy reader = (do
      let value ← left.evalBy reader
      if (value != 0) = decide (form = .logicalAnd) then right.evalBy reader else return value) := by
  rcases circuit with rfl | rfl
  all_goals
    rw [Expr.evalBy]
    refine bind_congr fun value => ?_
    by_cases zero : value = 0 <;> simp [zero]

section

variable {code : Ir.Code} {body : List Item} {vars : Variables} {cells : List Nat}
  (real : code.Realizes body) (apart : ∀ name, vars.has name = true → ∀ m, name ≠ temp m)
include real apart

/-- Scanning into a cell takes an input, if there is one. -/
theorem scan_runs {p c : Nat} {es : EvalState} {state : MachineState} {old : Int32}
    (at_ : ItemsAt body p [plain (.scan inFormat.name (temp c))])
    (here : At vars cells p es state) (known : state.cells[temp c]? = some old) :
    ∃ next, Advances code state next ∧
      At vars cells (p + 1) { es with inputs := es.inputs.tail } next ∧
      next.cells[temp c]? = some (es.inputs.headD old) ∧
      ∀ n < c, Keeps n state next := by
  cases left : es.inputs with
  | nil =>
    have read : state.console.read = (.error .exhausted, consoleOf es) := by
      rw [here.console, consoleOf_exhausted left]
    have goes := real.go here at_ (.scanNothing real.scans known read)
    have same : { es with inputs := ([] : List Int32).tail } = es := by
      rw [List.tail_nil, ← left]
    refine ⟨_, goes, ?_, known, fun n _ => (Keeps.refl n state).same rfl rfl⟩
    rw [same]
    exact here.talk es rfl rfl
  | cons value rest =>
    have read : state.console.read = (.ok value, consoleOf { es with inputs := rest }) := by
      rw [here.console, consoleOf_read left]
    have goes := real.go here at_ (.scan real.scans known read)
    refine ⟨_, goes, (here.putTemp apart c value).hear rfl rfl, by simp, fun n less => ?_⟩
    exact ((Keeps.refl n state).putTemp less value).same rfl rfl

/-- An operand that is not always evaluated: the cell holds the value of the first operand until
that of the second one replaces it. -/
private theorem circuit_imitates {first second : Eval Int32} {n c f y d j m p q owed : Nat}
    {l r : Operand} {es : EvalState} {state : MachineState} (own : c ∈ cells) (late : n < c)
    (made : c < f) (before : c ≤ j) (last : c < m) (form : BinaryForm)
    (evaluates : Imitates (Advances code) (Stuck code) owed first es
      (Valued vars cells p c l state) state)
    (storing : ItemsAt body p [plain (.store l (temp c)), result f (.compare .ne l (.imm 0)),
      plain (if form = .logicalAnd then .branch (.reg (temp f)) (temp y) (temp d)
        else .branch (.reg (temp f)) (temp d) (temp y)), mark y])
    (goes : ∀ es state owed, At vars cells (p + 3) es state →
      Imitates (Advances code) (Stuck code) owed second es (Valued vars cells q j r state) state)
    (closing : ItemsAt body q [plain (.store r (temp c)), plain (.jump (temp d)), mark d,
      result m (.load (temp c))]) :
    Imitates (Advances code) (Stuck code) owed (do
      let value ← first
      if (value != 0) = decide (form = .logicalAnd) then second else return value) es
      (Valued vars cells (q + 3) n (.reg (temp m)) state) state := by
  have choosing : ItemsAt body (p + 2) _ := storing.tail.tail
  have more : ItemsAt body (p + 3) [mark y] := choosing.tail
  have done : ItemsAt body (q + 2) [mark d] := closing.tail.tail.head
  have loading : ItemsAt body (q + 2) [result m (.load (temp c))] := closing.tail.tail.tail
  -- Both ways end with loading the cell, which then holds the value.
  have loads : ∀ {value after between owed}, At vars cells (q + 2) after between →
      between.cells[temp c]? = some value → Keeps n state between →
      Imitates (Advances code) (Stuck code) owed (pure value : Eval Int32) after
        (Valued vars cells (q + 3) n (.reg (temp m)) state) between := by
    intro value after between owed there held keeps
    refine .after_step (real.go there loading (.load held)) (.of_ok rfl ?_)
    exact ⟨there.give _ _, between.operand_give _ _, keeps.give (by omega) _⟩
  refine evaluates.bind fun value after k between _ reached => ?_
  obtain ⟨there, given, keeps⟩ := reached
  obtain ⟨old, known⟩ := there.scratch c own
  have stored := there.putTemp apart c value
  refine .after_step (real.go there storing.head (.store known given)) ?_
  have still : (between.put (temp c) value).operand l = .ok value := by
    rw [MachineState.operand_put, given]
  refine .after_step (real.go stored storing.tail.head (.compare still rfl)) ?_
  have tested := stored.give (temp f) (Arith.ofBool (value != 0))
  have kept : Keeps n state ((between.put (temp c) value).give (temp f) (Arith.ofBool (value != 0))) :=
    ((keeps.mono (Nat.le_of_lt late)).putTemp late value).give (by omega) _
  have held : ((between.put (temp c) value).give (temp f) (Arith.ofBool (value != 0))).cells[temp c]? =
      some value := by simp
  have flag := (between.put (temp c) value).operand_give (temp f) (Arith.ofBool (value != 0))
  change Imitates _ _ _ _ _ _ ((between.put (temp c) value).give (temp f) (Arith.ofBool (value != 0)))
  generalize (between.put (temp c) value).give (temp f) (Arith.ofBool (value != 0)) = ready at *
  have chooses : Advances code ready
      (ready.moved (if (value != 0) = decide (form = .logicalAnd) then p + 3 else q + 2)) := by
    have choice := choosing.head
    by_cases both : form = .logicalAnd
    · rw [if_pos both] at choice
      simpa only [both, decide_true] using real.branch tested choice more done flag
    · rw [if_neg both] at choice
      have taken := real.branch tested choice done more flag
      cases zero : value != 0 <;> simpa [zero, both] using taken
  refine .after_step chooses ?_
  by_cases needed : (value != 0) = decide (form = .logicalAnd)
  · rw [if_pos needed, if_pos needed]
    rw [← bind_pure second]
    refine (goes _ _ _ (tested.moved (p + 3))).bind fun value after k between _ reached => ?_
    obtain ⟨there, given, later⟩ := reached
    obtain ⟨old, known⟩ := there.scratch c own
    have moved : Keeps n state (ready.moved (p + 3)) := kept.same rfl rfl
    have kept : Keeps n state between := moved.trans (later.mono (by omega))
    refine .after_step (real.go there closing.head (.store known given)) ?_
    have stored := there.putTemp apart c value
    refine .after_step (real.jump stored closing.tail.head done) ?_
    exact loads (stored.moved _) (by simp) ((kept.putTemp late value).same rfl rfl)
  · rw [if_neg needed, if_neg needed]
    exact loads (tested.moved _) held (kept.same rfl rfl)

omit real apart

variable (code body vars cells) in
/-- Running the code of an expression gives its operand its value. -/
private def Expr.ItemsRun (e : Expr) : Prop :=
  ∀ ⦃n p owed : Nat⦄ ⦃es : EvalState⦄ ⦃state : MachineState⦄, ItemsAt body p (e.items n) →
    (∀ c ∈ e.cells n, c ∈ cells) → At vars cells p es state →
    Imitates (Advances code) (Stuck code) owed (e.evalBy .lenient) es
      (Valued vars cells (p + size (e.items n)) n (e.operand n) state) state

include real

include apart in
private theorem Expr.read_itemsRun (site : Site) :
    (Expr.read site).ItemsRun code body vars cells := by
  intro n p owed es state at_ inside here
  obtain ⟨old, known⟩ := here.scratch (n + 1) (inside _ List.mem_cons_self)
  have first : At vars cells (p + 1) es (state.put (temp (n + 1)) 0) := here.putTemp apart _ 0
  refine .after_step (real.go here at_.head (.store known rfl)) ?_
  have cleared : (state.put (temp (n + 1)) 0).cells[temp (n + 1)]? = some 0 := by simp
  obtain ⟨next, scans, second, cell, keeps⟩ := scan_runs real apart at_.tail.head first cleared
  refine .after_step scans ?_
  refine .after_step (real.go second at_.tail.tail (.load cell)) ?_
  refine .of_ok (Reader.run_lenient es) ⟨second.give _ _, next.operand_give _ _, ?_⟩
  refine Keeps.give ?_ (by omega) _
  exact ((Keeps.refl n state).putTemp (Nat.lt_succ_self n) 0).trans (keeps n (Nat.lt_succ_self n))

private theorem Expr.unary_itemsRun (site : Site) {op : Op}
    (usual : op = .plus ∨ op = .neg ∨ op = .not) {operand : Expr}
    (runs : operand.ItemsRun code body vars cells) :
    (Expr.unary site op operand).ItemsRun code body vars cells := by
  intro n p owed es state at_ inside here
  rw [Expr.evalBy]
  rcases usual with rfl | rfl | rfl
  all_goals
    simp only [Expr.items] at at_ ⊢
    refine (runs at_.left inside here).bind fun value after k between _ reached => ?_
    obtain ⟨there, given, keeps⟩ := reached
    rw [size_append, ← Nat.add_assoc]
    have later := at_.right
  · exact .of_ok rfl ⟨there, given, keeps⟩
  · have negates : Calc.sub.eval? 0 value = some (-value) := by simp [Calc.eval?]
    refine .after_step (real.go there later (.compute rfl given negates)) (.of_ok rfl ?_)
    exact ⟨there.give _ _, between.operand_give _ _, keeps.give (by omega) _⟩
  · refine .after_step (real.go there later.head (.compare given rfl)) ?_
    have tested := there.give (temp (n + operand.made + 1)) (Arith.ofBool (value == 0))
    refine .after_step (real.go tested later.tail (.widen (between.operand_give _ _))) ?_
    rw [ofBool_bit]
    exact .of_ok rfl ⟨tested.give _ _, MachineState.operand_give _ _ _,
      (keeps.give (by omega) _).give (by omega) _⟩

section

variable {left right : Expr} (first : left.ItemsRun code body vars cells)
  (second : right.ItemsRun code body vars cells)
include first second

omit real in
/-- An operator is applied when both operands have been made. -/
private theorem Expr.operands_run {op : Op} {n m p owed : Nat} {es : EvalState}
    {state : MachineState} {rest : List Item} {fits : Int32 → EvalState → MachineState → Prop}
    (at_ : ItemsAt body p (left.items n ++ right.items m ++ rest))
    (inside : ∀ c ∈ left.cells n ++ right.cells m, c ∈ cells) (behind : m = n + left.made)
    (here : At vars cells p es state) (applies : ∀ l r after between owed,
      At vars cells (p + size (left.items n ++ right.items m)) after between →
      between.operand (left.operand n) = .ok l → between.operand (right.operand m) = .ok r →
      Keeps n state between →
      Imitates (Advances code) (Stuck code) owed (Eval.apply op l r) after fits between) :
    Imitates (Advances code) (Stuck code) owed
      (do Eval.apply op (← left.evalBy .lenient) (← right.evalBy .lenient)) es fits state := by
  obtain ⟨inLeft, inRight⟩ := List.forall_mem_append.mp inside
  refine (first at_.left.left inLeft here).bind fun l after k between _ reached => ?_
  obtain ⟨there, given, keeps⟩ := reached
  refine (second at_.left.right inRight there).bind fun r after k last _ reached => ?_
  obtain ⟨there, other, still⟩ := reached
  refine applies l r after last _ (there.cast (by rw [size_append, Nat.add_assoc])) ?_ other ?_
  · exact still.operand (behind ▸ left.operand_below n) given
  · exact keeps.trans (still.mono (by omega))

private theorem Expr.arithmetic_itemsRun (site : Site) {form : BinaryForm} {op : Op}
    (admits : form.Admits op) (calculates : form = .additive ∨ form = .multiplicative) :
    (Expr.binary site form op left right).ItemsRun code body vars cells := by
  intro n p owed es state at_ inside here
  have same := calc_eval admits calculates
  rcases calculates with rfl | rfl
  all_goals
    simp only [Expr.items] at at_ ⊢
    refine Expr.operands_run first second at_ inside rfl here ?_
    intro l r after between owed there given other keeps
    have last := at_.right
    cases value? : (calcOf op).eval? l r with
    | none =>
      obtain ⟨fault, cause, ends⟩ := real.divides given other value? (there.pc ▸ last)
      have stops : (Eval.apply op l r).run.run after = (.error (.arith .divByZero), after) := by
        rw [Eval.run_apply, same, value?]
        rfl
      exact .of_stop stops (by simp) ⟨rfl, fault, cause, there.console ▸ ends⟩
    | some value =>
      refine .after_step (real.go there last (.compute given other value?)) ?_
      have ends : (Eval.apply op l r).run.run after = (.ok value, after) := by
        rw [Eval.run_apply, same, value?]
        rfl
      refine .of_ok ends ⟨(there.give _ _).cast ?_, ?_, keeps.give (by omega) _⟩
      · simp [Nat.add_assoc]
      · simp only [Expr.operand, Expr.made, ← Nat.add_assoc]
        exact between.operand_give _ _

private theorem Expr.comparison_itemsRun (site : Site) {op : Op}
    (admits : BinaryForm.comparison.Admits op) :
    (Expr.binary site .comparison op left right).ItemsRun code body vars cells := by
  intro n p owed es state at_ inside here
  simp only [Expr.items] at at_ ⊢
  refine Expr.operands_run first second at_ inside rfl here ?_
  intro l r after between owed there given other keeps
  have last := at_.right
  refine .after_step (real.go there last.head (.compare given other)) ?_
  have tested := there.give (temp (n + left.made + right.made + 1))
    (Arith.ofBool ((testOf op).holds l r))
  refine .after_step (real.go tested last.tail (.widen (between.operand_give _ _))) ?_
  rw [ofBool_bit]
  have ends : (Eval.apply op l r).run.run after =
      (.ok (Arith.ofBool ((testOf op).holds l r)), after) := by
    rw [Eval.run_apply, test_eval admits]
  refine .of_ok ends ⟨(tested.give _ _).cast ?_, ?_, (keeps.give (by omega) _).give (by omega) _⟩
  · simp [Nat.add_assoc]
  · simp only [Expr.operand, Expr.made, ← Nat.add_assoc]
    exact MachineState.operand_give _ _ _

include apart

private theorem Expr.circuit_itemsRun (site : Site) {form : BinaryForm} (op : Op)
    (logical : form = .logicalAnd ∨ form = .logicalOr) :
    (Expr.binary site form op left right).ItemsRun code body vars cells := by
  intro n p owed es state at_ inside here
  have evaluates := Expr.evalBy_circuit logical .lenient site op left right
  rcases logical with rfl | rfl
  all_goals
    obtain ⟨own, others⟩ := List.forall_mem_cons.mp inside
    obtain ⟨inLeft, inRight⟩ := List.forall_mem_append.mp others
    rw [Expr.items] at at_ ⊢
    have storing := at_.left.left.right
    have going := at_.left.right
    have closing := at_.right
    simp only [size_append, size_cons, size_nil, plain_size, result_size, mark_size,
      Nat.add_zero, ← Nat.add_assoc] at going closing ⊢
    rw [evaluates]
    have number : n + (left.made + right.made + 5) = n + 1 + left.made + 3 + right.made + 1 := by
      omega
    simp only [Expr.operand, Expr.made, number]
    exact circuit_imitates real apart own (Nat.lt_succ_self n) (by omega) (by omega) (by omega) _
      (first at_.left.left.left inLeft here) storing
      (fun es state owed here => second going inRight here) closing

end

include apart

theorem Expr.ir_imitates (e : Expr) (proper : e.Proper fun name => vars.has name = true)
    {n p owed : Nat} {es : EvalState} {state : MachineState} (at_ : ItemsAt body p (e.items n))
    (inside : ∀ c ∈ e.cells n, c ∈ cells) (here : At vars cells p es state) :
    Imitates (Advances code) (Stuck code) owed (e.evalBy .lenient) es
      (Valued vars cells (p + size (e.items n)) n (e.operand n) state) state := by
  suffices runs : e.ItemsRun code body vars cells from runs at_ inside here
  clear at_ inside here
  induction e with
  | absent | hollow | unknown => exact proper.elim
  | intLit site text value => exact fun n _ _ _ state _ _ here => .of_ok rfl ⟨here, rfl, .refl n state⟩
  | varRef site name =>
    intro n p owed es state at_ inside here
    refine .after_step (real.go here at_ (.load (here.held name proper))) (.of_ok rfl ?_)
    exact ⟨here.give _ _, state.operand_give _ _, (Keeps.refl n state).give (Nat.lt_succ_self n) _⟩
  | read site => exact Expr.read_itemsRun real apart site
  | paren site inner ih => exact ih proper
  | unary site op operand ih => exact Expr.unary_itemsRun real site proper.1 (ih proper.2)
  | binary site form op left right leftIh rightIh =>
    obtain ⟨admits, one, two⟩ := proper
    have first := leftIh one
    have second := rightIh two
    cases form with
    | additive => exact Expr.arithmetic_itemsRun real first second site admits (.inl rfl)
    | multiplicative => exact Expr.arithmetic_itemsRun real first second site admits (.inr rfl)
    | comparison => exact Expr.comparison_itemsRun real first second site admits
    | logicalAnd => exact Expr.circuit_itemsRun real apart first second site op (.inl rfl)
    | logicalOr => exact Expr.circuit_itemsRun real apart first second site op (.inr rfl)

end

end Minilang
