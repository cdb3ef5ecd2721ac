import Minilang.Proofs.MachineRuns
import Minilang.Proofs.MainTyping

/-! The class machine imitates the evaluation of a program: running the code of an expression
leaves its value on the stack, and running the code of a statement does to the variables and the
console what the statement does. -/

namespace Minilang

namespace ClassFile

/-- An evaluation without budget, in which only names that have a slot differ from zero. -/
structure Tracked (vars : Variables) (es : EvalState) : Prop where
  free : es.budget = 0
  zero : ∀ name, vars.has name = false → es.store.get name = 0

theorem Tracked.assign {vars : Variables} {es : EvalState} (tracked : Tracked vars es) {name : Bytes}
    (known : vars.has name = true) (value : Int32) :
    Tracked vars { es with store := es.store.set name value } := by
  refine ⟨tracked.free, fun other unknown => ?_⟩
  have differ : name ≠ other := by
    rintro rfl
    rw [known] at unknown
    cases unknown
  rw [Store.get_set, if_neg differ]
  exact tracked.zero other unknown

def Reached (vars : Variables) (p : Nat) (σ : List Value) (es : EvalState) (state : MachineState) :
    Prop :=
  state = machineAt vars p σ es ∧ Tracked vars es

theorem Reached.cast {vars : Variables} {p q : Nat} {σ : List Value} {es : EvalState}
    {state : MachineState} (reached : Reached vars p σ es state) (same : p = q) :
    Reached vars q σ es state :=
  same ▸ reached

/-- The cause with which the machine fails when an evaluation stops. -/
def causeOf? : EvalStop → Option Machine.Cause
  | .arith .divByZero => some (.divByZero byZero)
  | .inputExhausted => some .inputExhausted
  | _ => none

def Stuck (body : Body) (pool : Pool) (stop : EvalStop) (es : EvalState) (state : MachineState) :
    Prop :=
  ∃ cause, causeOf? stop = some cause ∧ Fails body pool state cause ∧ state.console = consoleOf es

theorem condition_eval {op : Op} {cond : Cond} (found : condition? op = some cond)
    (left right : Int32) :
    Arith.apply op left right = .ok (Arith.ofBool (cond.holds left right)) := by
  cases op <;> cases found <;> rfl

variable {main : List Step} {body : Body} {pool : Pool} {target : Nat → Option Nat}
  {vars : Variables} {p q : Nat} {σ τ : List Value} {es : EvalState}

private theorem truth_runs (real : Realizes main body pool target) (sound : vars.Sound)
    {op : Opcode} {n : Nat} (at_ : CodeAt main p (truthCode op n)) {holds : Bool}
    (branch : CodeAt main (p + 3) [.mark n] → Advances body pool (machineAt vars p τ es)
      (machineAt vars (if holds then p + 3 else p + 1) σ es)) :
    ∃ k, Runs (Advances body pool) k (machineAt vars p τ es)
      (machineAt vars (p + 4) (.int (Arith.ofBool holds) :: σ) es) := by
  have no : CodeAt main (p + 1) [.push 0] := at_.tail.head
  have skip : CodeAt main (p + 2) [.jump .goto (n + 1)] := at_.tail.tail.head
  have yes : CodeAt main (p + 3) [.mark n] := at_.tail.tail.tail.head
  have one : CodeAt main (p + 3) [.push 1] := at_.tail.tail.tail.tail.head
  have done : CodeAt main (p + 4) [.mark (n + 1)] := at_.tail.tail.tail.tail.tail.head
  have first := branch yes
  cases holds with
  | true => exact ⟨2, .cons first (.single (real.acts sound one .push))⟩
  | false =>
    exact ⟨3, .cons first (.cons (real.acts sound no .push) (.single (real.goto skip done)))⟩

end ClassFile

open ClassFile

section

variable {main : List Step} {body : Body} {pool : Pool} {target : Nat → Option Nat}
  {vars : Variables} (real : Realizes main body pool target) (sound : vars.Sound)
include real sound

/-- Running the code of a read takes an input, or fails when there is none. -/
private theorem read_imitates {p owed : Nat} {σ : List Value} {es : EvalState}
    (at_ : CodeAt main p readCode) (tracked : Tracked vars es) :
    Imitates (Advances body pool) (Stuck body pool) owed Eval.read es
      (fun value => Reached vars (p + 2) (.int value :: σ)) (machineAt vars p σ es) := by
  refine .after_step (real.acts sound at_.head .scanner) ?_
  have call : CodeAt main (p + 1) [.methodOperand .invokeVirtual nextInt] := at_.tail.head
  cases left : es.inputs with
  | nil =>
    have stops : Eval.read.run.run es = (.error .inputExhausted, es) := by rw [Eval.run_read, left]
    exact .of_stop stops (by simp) ⟨.inputExhausted, rfl, real.exhausted call left, rfl⟩
  | cons value rest =>
    refine .after_step (real.acts sound call (.readInt left)) ?_
    have ends : Eval.read.run.run es = (.ok value, { es with inputs := rest }) := by
      rw [Eval.run_read, left]
    exact .of_ok ends ⟨rfl, tracked.free, tracked.zero⟩

omit real sound

/-- Running the code of an expression leaves its value. -/
private def Expr.CodeRuns (main : List Step) (body : Body) (pool : Pool) (vars : Variables)
    (e : Expr) : Prop :=
  ∀ ⦃n p owed : Nat⦄ ⦃σ : List Value⦄ ⦃es : EvalState⦄, CodeAt main p (e.code vars n) →
    Tracked vars es → Imitates (Advances body pool) (Stuck body pool) owed e.eval es
      (fun value => Reached vars (p + width (e.code vars n)) (.int value :: σ))
      (machineAt vars p σ es)

include real sound

private theorem Expr.varRef_runs (site : Site) (name : Bytes) :
    (Expr.varRef site name).CodeRuns main body pool vars := by
  intro n p owed σ es at_ tracked
  rw [Expr.code] at at_ ⊢
  cases known : vars.has name with
  | true =>
    simp only [known, if_true] at at_ ⊢
    exact .after_step (real.acts sound at_ (.load known)) (.of_ok rfl ⟨rfl, tracked⟩)
  | false =>
    simp only [known, Bool.false_eq_true, if_false] at at_ ⊢
    refine .after_step (real.acts sound at_ .push) (.of_ok rfl ⟨?_, tracked⟩)
    rw [tracked.zero name known]
    rfl

private theorem Expr.unary_runs (site : Site) {op : Op} (usual : op = .plus ∨ op = .neg ∨ op = .not)
    {operand : Expr} (runs : operand.CodeRuns main body pool vars) :
    (Expr.unary site op operand).CodeRuns main body pool vars := by
  intro n p owed σ es at_ tracked
  rw [Expr.eval]
  rcases usual with rfl | rfl | rfl
  all_goals
    simp only [Expr.code] at at_ ⊢
    refine (runs at_.left tracked).bind fun value after k between _ reached => ?_
    obtain ⟨rfl, tracked⟩ := reached
    rw [width_append, ← Nat.add_assoc]
    have later := at_.right
  · exact .of_ok rfl ⟨rfl, tracked⟩
  · exact .after_step (real.acts sound later .negate) (.of_ok rfl ⟨rfl, tracked⟩)
  · obtain ⟨k, goes⟩ := truth_runs real sound later fun mark =>
      real.branchZero later.head mark value
    exact .after_run goes (.of_ok rfl ⟨rfl, tracked⟩)

omit real sound in
/-- Both operands are on the stack when an operator is applied. -/
private theorem operator_runs {left right : Expr} (first : left.CodeRuns main body pool vars)
    (second : right.CodeRuns main body pool vars) {op : Op} {n m p owed : Nat} {σ : List Value}
    {es : EvalState} {rest : List Step} {fits : Int32 → EvalState → MachineState → Prop}
    (at_ : CodeAt main p (left.code vars n ++ (right.code vars m ++ rest)))
    (tracked : Tracked vars es) (applies : ∀ l r after owed, Tracked vars after →
      Imitates (Advances body pool) (Stuck body pool) owed (Eval.apply op l r) after fits
        (machineAt vars (p + width (left.code vars n) + width (right.code vars m))
          (.int r :: .int l :: σ) after)) :
    Imitates (Advances body pool) (Stuck body pool) owed
      (do Eval.apply op (← left.eval) (← right.eval)) es fits (machineAt vars p σ es) := by
  refine (first at_.left tracked).bind fun l after k between _ reached => ?_
  obtain ⟨rfl, tracked⟩ := reached
  refine (second at_.right.left tracked).bind fun r after k between _ reached => ?_
  obtain ⟨rfl, tracked⟩ := reached
  exact applies l r after _ tracked

private theorem Expr.arithmetic_runs (site : Site) {form : BinaryForm} {op : Op}
    (admits : form.Admits op) (calculates : form = .additive ∨ form = .multiplicative)
    {left right : Expr} (first : left.CodeRuns main body pool vars)
    (second : right.CodeRuns main body pool vars) :
    (Expr.binary site form op left right).CodeRuns main body pool vars := by
  intro n p owed σ es at_ tracked
  obtain ⟨code, found⟩ := arithmetic?_isSome admits calculates
  rcases calculates with rfl | rfl
  all_goals
    simp only [Expr.code, found, Option.map_some, Option.toList_some, List.append_assoc] at at_ ⊢
    refine operator_runs first second at_ tracked fun l r after owed tracked => ?_
    have last := at_.right.right
    cases result : Arith.apply op l r with
    | ok value =>
      refine .after_step (real.acts sound last (.arithmetic found result)) ?_
      have ends : (Eval.apply op l r).run.run after = (.ok value, after) := by
        rw [Eval.run_apply, result]
      refine .of_ok ends ⟨?_, tracked⟩
      simp [Step.size, Nat.add_assoc]
    | error fault =>
      obtain ⟨rfl, fails⟩ := real.divides found last result
      have stops : (Eval.apply op l r).run.run after = (.error (.arith .divByZero), after) := by
        rw [Eval.run_apply, result]
      exact .of_stop stops (by simp) ⟨.divByZero byZero, rfl, fails, rfl⟩

private theorem Expr.comparison_runs (site : Site) {op : Op}
    (admits : BinaryForm.comparison.Admits op) {left right : Expr}
    (first : left.CodeRuns main body pool vars) (second : right.CodeRuns main body pool vars) :
    (Expr.binary site .comparison op left right).CodeRuns main body pool vars := by
  intro n p owed σ es at_ tracked
  obtain ⟨cond, found⟩ := condition?_isSome admits
  simp only [Expr.code, found, List.append_assoc] at at_ ⊢
  refine operator_runs first second at_ tracked fun l r after owed tracked => ?_
  have last := at_.right.right
  obtain ⟨k, goes⟩ := truth_runs real sound last fun mark =>
    real.branchInts last.head mark l r
  have ends : (Eval.apply op l r).run.run after =
      (.ok (Arith.ofBool (cond.holds l r)), after) := by
    rw [Eval.run_apply, condition_eval found]
  refine .after_run goes (.of_ok ends ⟨?_, tracked⟩)
  simp [width_truthCode, Nat.add_assoc]

/-- The right operand replaces the value of the left one unless the branch keeps that. -/
private theorem circuit_runs {left right : Expr} (first : left.CodeRuns main body pool vars)
    (second : right.CodeRuns main body pool vars) (cond : Cond) {n p : Nat} (owed : Nat) {σ : List Value}
    {es : EvalState} (at_ : CodeAt main p (left.code vars (n + 1) ++ [Step.insn .dup,
      .jump (.ifZero cond) n, .insn .pop] ++ right.code vars (n + 1 + left.labels) ++ [.mark n]))
    (tracked : Tracked vars es) :
    Imitates (Advances body pool) (Stuck body pool) owed (do
      let value ← left.eval
      if cond.holds value 0 then return value else right.eval) es
      (fun value => Reached vars (p + width (left.code vars (n + 1) ++ [Step.insn .dup,
        .jump (.ifZero cond) n, .insn .pop] ++ right.code vars (n + 1 + left.labels) ++
        [.mark n])) (.int value :: σ)) (machineAt vars p σ es) := by
  simp only [List.append_assoc, List.cons_append, List.nil_append] at at_ ⊢
  have branch := at_.right.tail
  have rest := branch.tail.tail
  refine (first at_.left tracked).bind fun value after k between _ reached => ?_
  obtain ⟨rfl, tracked⟩ := reached
  refine .after_step (real.acts sound at_.right.head .dup) ?_
  refine .after_step (real.branchZero branch.head rest.right value) ?_
  split
  · refine .of_ok rfl ⟨?_, tracked⟩
    simp [Step.size, Nat.add_assoc, Nat.add_comm, Nat.add_left_comm]
  · refine .after_step (real.acts sound branch.tail.head .pop) ?_
    refine (second rest.left tracked).mono (le_refl _) fun _ _ _ good => ?_
    simpa [Step.size, Nat.add_assoc, Nat.add_comm, Nat.add_left_comm] using good

theorem Expr.imitates {isName : Bytes → Prop} (e : Expr) (proper : e.Proper isName)
    {n p owed : Nat} {σ : List Value} {es : EvalState} (at_ : CodeAt main p (e.code vars n))
    (tracked : Tracked vars es) :
    Imitates (Advances body pool) (Stuck body pool) owed e.eval es
      (fun value => Reached vars (p + width (e.code vars n)) (.int value :: σ))
      (machineAt vars p σ es) := by
  suffices runs : e.CodeRuns main body pool vars from runs at_ tracked
  clear at_ tracked
  induction e with
  | absent | hollow | unknown => exact proper.elim
  | intLit site text value =>
    intro n p owed σ es at_ tracked
    exact .after_step (real.acts sound at_ .push) (.of_ok rfl ⟨rfl, tracked⟩)
  | varRef site name => exact Expr.varRef_runs real sound site name
  | read site => exact fun _ _ _ _ _ at_ tracked => read_imitates real sound at_ tracked
  | paren site inner ih => exact ih proper
  | unary site op operand ih => exact Expr.unary_runs real sound site proper.1 (ih proper.2)
  | binary site form op left right leftIh rightIh =>
    obtain ⟨admits, one, two⟩ := proper
    have first := leftIh one
    have second := rightIh two
    cases form with
    | additive => exact Expr.arithmetic_runs real sound site admits (.inl rfl) first second
    | multiplicative => exact Expr.arithmetic_runs real sound site admits (.inr rfl) first second
    | comparison => exact Expr.comparison_runs real sound site admits first second
    | logicalAnd =>
      intro n p owed σ es at_ tracked
      have whole := circuit_runs real sound first second .eq owed (σ := σ) at_ tracked
      simp only [Cond.holds, beq_iff_eq] at whole
      exact whole
    | logicalOr =>
      intro n p owed σ es at_ tracked
      have whole := circuit_runs real sound first second .ne owed (σ := σ) at_ tracked
      simp only [Cond.holds, bne_iff_ne, ne_eq, ite_not] at whole
      exact whole

private theorem Expr.step_imitates {isName : Bytes → Prop} {step : Expr}
    (proper : step.isAbsent = false → step.Proper isName) {n p owed : Nat} {σ : List Value}
    {es : EvalState} (at_ : CodeAt main p (step.stepCode vars n)) (tracked : Tracked vars es) :
    Imitates (Advances body pool) (Stuck body pool) owed
      (if step.isAbsent then pure 1 else step.eval) es
      (fun value => Reached vars (p + width (step.stepCode vars n)) (.int value :: σ))
      (machineAt vars p σ es) := by
  rw [Expr.stepCode] at at_ ⊢
  cases absent : step.isAbsent with
  | true =>
    simp only [absent, if_true] at at_ ⊢
    exact .after_step (real.acts sound at_ .push) (.of_ok rfl ⟨rfl, tracked⟩)
  | false =>
    simp only [absent, Bool.false_eq_true, if_false] at at_ ⊢
    exact step.imitates real sound (proper absent) at_ tracked

private theorem assign_imitates {p owed : Nat} {σ : List Value} {es : EvalState} {name : Bytes}
    (known : vars.has name = true) {value : Int32}
    (at_ : CodeAt main p [.localVar .istore (slotOf vars name)]) (tracked : Tracked vars es) :
    Imitates (Advances body pool) (Stuck body pool) owed (Eval.assign name value) es
      (fun _ => Reached vars (p + 1) σ) (machineAt vars p (.int value :: σ) es) :=
  .after_step (real.acts sound at_ (.store known)) <|
    .of_ok (Eval.run_assign name value es) ⟨rfl, tracked.assign known value⟩

/-- The code before the first test of a counting loop leaves the counter, the limit and the step,
and sets the variable. -/
private theorem count_imitates {isName : Bytes → Prop} {start stop step : Expr}
    (first : start.Proper isName) (last : stop.Proper isName)
    (increment : step.isAbsent = false → step.Proper isName) {name : Bytes}
    (known : vars.has name = true) {n m k p owed : Nat} {σ : List Value} {es : EvalState}
    {rest : List Step}
    (at_ : CodeAt main p (start.code vars n ++ (.insn .dup :: .localVar .istore (slotOf vars name) ::
      (stop.code vars m ++ (step.stepCode vars k ++
        (.insn .swap :: .insn .dup2X1 :: .insn .pop2 :: rest))))))
    (tracked : Tracked vars es) {loop : Int32 → Int32 → Eval Unit}
    {fits : Unit → EvalState → MachineState → Prop}
    (later : ∀ limit by_ after owed', owed' ≤ owed → Tracked vars after →
      Imitates (Advances body pool) (Stuck body pool) owed' (loop limit by_) after fits
        (machineAt vars (p + width (start.code vars n) + 2 + width (stop.code vars m) +
          width (step.stepCode vars k) + 3)
          (.int (after.store.get name) :: .int limit :: .int by_ :: σ) after)) :
    Imitates (Advances body pool) (Stuck body pool) owed (do
      Eval.assign name (← start.eval)
      let limit ← stop.eval
      (if step.isAbsent then pure 1 else step.eval) >>= loop limit) es fits
      (machineAt vars p σ es) := by
  have storing := at_.right
  have stopping : CodeAt main (p + width (start.code vars n) + 2) _ := storing.tail.tail
  have turning := stopping.right.right
  refine (start.imitates real sound first at_.left tracked).bind
    fun value after k between _ reached => ?_
  obtain ⟨rfl, tracked⟩ := reached
  refine .after_step (real.acts sound storing.head .dup) ?_
  refine .after_step (real.acts sound storing.tail.head (.store known)) ?_
  refine .silent (Eval.run_assign name value after) ?_
  have set_ := tracked.assign known value
  have counts : (after.store.set name value).get name = value := by
    rw [Store.get_set, if_pos rfl]
  refine ((stop.imitates real sound last stopping.left set_).also _
    fun _ _ ran => Expr.store_of_ok ran).bind ?_
  rintro limit second m between _ ⟨⟨rfl, tracked⟩, same⟩
  refine ((Expr.step_imitates real sound increment stopping.right.left tracked).also
    (fun _ third => third.store = second.store) fun _ _ ran => ?_).bind ?_
  · cases absent : step.isAbsent with
    | true =>
      simp only [absent, if_true] at ran
      cases ran
      rfl
    | false =>
      simp only [absent, Bool.false_eq_true, if_false] at ran
      exact Expr.store_of_ok ran
  rintro by_ third j between _ ⟨⟨rfl, tracked⟩, still⟩
  refine .after_step (real.acts sound turning.head .swap) ?_
  refine .after_step (real.acts sound turning.tail.head .dup2X1) ?_
  refine .after_step (real.acts sound turning.tail.tail.head .pop2) ?_
  have top : third.store.get name = value := by
    rw [still, same]
    exact counts
  have goes := later limit by_ third (owed - 3 * k - 3 - 3 - 3 * m - 3 * j - 3 - 3 - 3) (by omega)
    tracked
  rw [top] at goes
  exact goes

omit real sound

private theorem Stmt.width_pos {isName : Bytes → Prop} (vars : Variables)
    (lineOf : Option (Span → Nat)) {s : Stmt} (proper : s.Proper isName) (n : Nat) :
    0 < width (s.code vars lineOf n) := by
  obtain ⟨rest, starts⟩ := s.shapes_head proper []
  rw [← s.length_shapes vars lineOf proper n (σ := []), starts]
  simp

/-- Running the code of statements does what they do, whenever there is less fuel than a limit. -/
private def BodiesRun (isName : Bytes → Prop) (main : List Step) (body : Body) (pool : Pool)
    (vars : Variables) (lineOf : Option (Span → Nat)) (limit : Nat) : Prop :=
  ∀ fuel < limit, ∀ list : List Stmt, Stmt.AllProper isName list →
    Stmt.AllAssignOnly (fun name => vars.has name = true) list →
    ∀ (n p : Nat) (σ : List Value) (es : EvalState),
      CodeAt main p (Stmt.allCode vars lineOf n list) → Tracked vars es →
      Imitates (Advances body pool) (Stuck body pool) (fuel - 2) (Stmt.execAll fuel list) es
        (fun _ => Reached vars (p + width (Stmt.allCode vars lineOf n list)) σ)
        (machineAt vars p σ es)

include real sound

/-- A loop runs its code again as long as its condition is not zero. -/
private theorem while_imitates {isName : Bytes → Prop} {lineOf : Option (Span → Nat)} {limit : Nat}
    (bodies : BodiesRun isName main body pool vars lineOf limit) {cond : Expr} {inner : List Stmt}
    (test : cond.Proper isName) (inside : Stmt.AllProper isName inner)
    (known : Stmt.AllAssignOnly (fun name => vars.has name = true) inner) {n m i j p : Nat}
    (mark : CodeAt main p [.mark n])
    (at_ : CodeAt main p (cond.code vars i ++ (Step.jump (.ifZero .eq) m ::
      (Stmt.allCode vars lineOf j inner ++ [.jump .goto n, .mark m]))))
    (fuel : Nat) (le : fuel ≤ limit) {σ : List Value} {es : EvalState} (tracked : Tracked vars es) :
    Imitates (Advances body pool) (Stuck body pool) fuel (Stmt.execWhile fuel cond inner) es
      (fun _ => Reached vars (p + width (cond.code vars i) + 1 +
        width (Stmt.allCode vars lineOf j inner) + 1) σ) (machineAt vars p σ es) := by
  induction fuel generalizing es with
  | zero => exact .starved _
  | succ fuel ih =>
    have branch := at_.right
    have innerCode : CodeAt main (p + width (cond.code vars i) + 1) _ := branch.tail
    have back := innerCode.right
    rw [Stmt.execWhile]
    refine (cond.imitates real sound test at_.left tracked).bind ?_
    rintro value after k between _ ⟨rfl, tracked⟩
    refine .after_step (real.branchZero branch.head back.tail value) ?_
    by_cases zero : value = 0
    · simp only [zero, Cond.holds, BEq.rfl, if_true]
      exact .of_ok rfl ⟨rfl, tracked⟩
    · simp only [zero, Cond.holds, beq_iff_eq, if_false]
      refine .silent (Eval.run_tick tracked.free) ?_
      have counted : Tracked vars { after with spent := after.spent + 1 } := ⟨tracked.free, tracked.zero⟩
      have runs := bodies fuel (by omega) inner inside known j _ σ _ innerCode.left counted
      refine (runs.owing_less (by omega)).bind ?_
      rintro ⟨⟩ last m between _ ⟨rfl, tracked⟩
      refine .after_step (real.goto back.head mark) ?_
      exact (ih (by omega) tracked).owing_less (by omega)

/-- A counting loop keeps its limit and its step below the operands of its body. The variable is
read again after the body, which may have changed it. -/
private theorem for_imitates {isName : Bytes → Prop} {lineOf : Option (Span → Nat)} {limit : Nat}
    (bodies : BodiesRun isName main body pool vars lineOf limit) {name : Bytes} {inner : List Stmt}
    (counter : vars.has name = true) (inside : Stmt.AllProper isName inner)
    (known : Stmt.AllAssignOnly (fun name => vars.has name = true) inner) {n m j p : Nat}
    (at_ : CodeAt main p (.mark n :: .insn .swap :: .insn .dupX1 :: .jump (.ifInts .gt) m ::
      (Stmt.allCode vars lineOf j inner ++ [.insn .swap, .insn .dupX1,
        .localVar .iload (slotOf vars name), .insn .iadd, .insn .dup,
        .localVar .istore (slotOf vars name), .jump .goto n, .mark m, .insn .pop2])))
    (last by_ : Int32) (fuel : Nat) (le : fuel ≤ limit) {σ : List Value} {es : EvalState}
    (tracked : Tracked vars es) :
    Imitates (Advances body pool) (Stuck body pool) fuel (Stmt.execFor fuel name last by_ inner) es
      (fun _ => Reached vars (p + 3 + width (Stmt.allCode vars lineOf j inner) + 8) σ)
      (machineAt vars p (.int (es.store.get name) :: .int last :: .int by_ :: σ) es) := by
  induction fuel generalizing es with
  | zero => exact .starved _
  | succ fuel ih =>
    have testing : CodeAt main p _ := at_.tail
    have innerCode : CodeAt main (p + 3) _ := testing.tail.tail.tail
    have after_ := innerCode.right
    generalize same : p + 3 + width (Stmt.allCode vars lineOf j inner) = q at after_ ih ⊢
    have loading : CodeAt main (q + 2) _ := after_.tail.tail
    have keeping : CodeAt main (q + 4) _ := loading.tail.tail
    have leaving : CodeAt main (q + 6) _ := keeping.tail.tail
    have done : CodeAt main (q + 7) _ := leaving.tail
    rw [Stmt.execFor]
    refine .silent (Eval.run_lookup name es) ?_
    refine .after_step (real.acts sound testing.head .swap) ?_
    refine .after_step (real.acts sound testing.tail.head .dupX1) ?_
    refine .after_step (real.branchInts testing.tail.tail.head done.head _ last) ?_
    by_cases past : last < es.store.get name
    · simp only [past, Cond.holds, decide_true, if_true]
      refine .after_step (real.acts sound done.tail .pop2) ?_
      exact .of_ok rfl ⟨rfl, tracked⟩
    · simp only [past, Cond.holds, decide_false, Bool.false_eq_true, if_false]
      refine .silent (Eval.run_tick tracked.free) ?_
      have counted : Tracked vars { es with spent := es.spent + 1 } := ⟨tracked.free, tracked.zero⟩
      have runs := bodies fuel (by omega) inner inside known j _ (.int last :: .int by_ :: σ) _
        innerCode.left counted
      refine (runs.owing_less (by omega)).bind ?_
      rintro ⟨⟩ after k between _ ⟨rfl, tracked⟩
      rw [same]
      refine .silent (Eval.run_lookup name after) ?_
      refine .silent (Eval.run_assign name _ after) ?_
      have sum : Arith.apply .add by_ (after.store.get name) =
          .ok (after.store.get name + by_) := by
        rw [Int32.add_comm]
        rfl
      have found : arithmetic? .add = some .iadd := rfl
      refine .after_step (real.acts sound after_.head .swap) ?_
      refine .after_step (real.acts sound after_.tail.head .dupX1) ?_
      refine .after_step (real.acts sound loading.head (.load counter)) ?_
      refine .after_step (real.acts sound loading.tail.head (.arithmetic found sum)) ?_
      refine .after_step (real.acts sound keeping.head .dup) ?_
      refine .after_step (real.acts sound keeping.tail.head (.store counter)) ?_
      refine .after_step (real.goto leaving.head at_.head) ?_
      have again := ih (by omega) (tracked.assign counter (after.store.get name + by_))
      rw [Store.get_set, if_pos rfl] at again
      exact again.owing_less (by omega)

omit real sound

/-- Running the code of a statement does what the statement does. -/
private def Stmt.CodeRuns (main : List Step) (body : Body) (pool : Pool) (vars : Variables)
    (lineOf : Option (Span → Nat)) (fuel : Nat) (s : Stmt) : Prop :=
  ∀ ⦃n p : Nat⦄ ⦃σ : List Value⦄ ⦃es : EvalState⦄, CodeAt main p (s.code vars lineOf n) →
    Tracked vars es → Imitates (Advances body pool) (Stuck body pool) (fuel - 1) (Stmt.exec fuel s)
      es (fun _ => Reached vars (p + width (s.code vars lineOf n)) σ) (machineAt vars p σ es)

include real sound

section

variable {isName : Bytes → Prop} {lineOf : Option (Span → Nat)} {fuel : Nat} (site : Site)

private theorem Stmt.assign_runs (span : Span) {name : Bytes} {value : Expr}
    (proper : value.Proper isName) (known : vars.has name = true) :
    (Stmt.assign site name span value).CodeRuns main body pool vars lineOf (fuel + 1) := by
  intro n p σ es at_ tracked
  simp only [Stmt.exec, Stmt.code, List.append_assoc] at at_ ⊢
  have code := at_.skip
  refine (value.imitates real sound proper code.left tracked).bind ?_
  rintro result after k between _ ⟨rfl, tracked⟩
  refine (assign_imitates real sound known code.right tracked).mono (le_refl _) ?_
  rintro ⟨⟩ after last good
  simpa [Step.size, Nat.add_assoc] using good

private theorem Stmt.read_runs (span : Span) {name : Bytes} (known : vars.has name = true) :
    (Stmt.read site name span).CodeRuns main body pool vars lineOf (fuel + 1) := by
  intro n p σ es at_ tracked
  simp only [Stmt.exec, Stmt.code, List.append_assoc] at at_ ⊢
  have code := at_.skip
  refine (read_imitates real sound code.left tracked).bind ?_
  rintro result after k between _ ⟨rfl, tracked⟩
  refine (assign_imitates real sound known code.right tracked).mono (le_refl _) ?_
  rintro ⟨⟩ after last good
  simpa [Step.size, readCode, Nat.add_assoc] using good

private theorem Stmt.print_runs {value : Expr} (proper : value.Proper isName) :
    (Stmt.print site value).CodeRuns main body pool vars lineOf (fuel + 1) := by
  intro n p σ es at_ tracked
  simp only [Stmt.exec, Stmt.code, List.append_assoc, List.cons_append, List.nil_append] at at_ ⊢
  have code := at_.skip
  refine .after_step (real.acts sound code.head .stream) ?_
  refine (value.imitates real sound proper code.tail.left tracked).bind ?_
  rintro result after k between _ ⟨rfl, tracked⟩
  refine .after_step (real.acts sound code.tail.right .printInt) ?_
  refine .of_ok (Eval.run_print result after) ⟨?_, tracked.free, tracked.zero⟩
  simp [Step.size, Nat.add_assoc, Nat.add_comm, Nat.add_left_comm]

variable {limit : Nat} (bodies : BodiesRun isName main body pool vars lineOf limit)
  (less : fuel < limit) {cond : Expr} (test : cond.Proper isName)

include bodies less

section

variable {thenBody elseBody : List Stmt} (yes : Stmt.AllProper isName thenBody)
  (inThen : Stmt.AllAssignOnly (fun name => vars.has name = true) thenBody)

include test yes inThen

private theorem Stmt.ifElse_runs (no : Stmt.AllProper isName elseBody)
    (inElse : Stmt.AllAssignOnly (fun name => vars.has name = true) elseBody) :
    (Stmt.ifElse site cond thenBody elseBody true).CodeRuns main body pool vars lineOf
      (fuel + 1) := by
  intro n p σ es at_ tracked
  simp only [Stmt.exec, Stmt.code, if_true, List.append_assoc, List.cons_append,
    List.nil_append] at at_ ⊢
  have code := at_.skip
  have thenCode := code.right.tail
  have leaving := thenCode.right
  have elseCode := leaving.tail.tail
  refine (cond.imitates real sound test code.left tracked).bind ?_
  rintro value after k between _ ⟨rfl, tracked⟩
  refine .after_step (real.branchZero code.right.head leaving.tail.head value) ?_
  by_cases zero : value = 0
  · simp only [zero, Cond.holds, BEq.rfl, if_true]
    refine (bodies fuel less elseBody no inElse _ _ σ _ elseCode.left tracked).mono
      (by omega) ?_
    rintro ⟨⟩ after last good
    exact good.cast (by simp [Step.size]; omega)
  · simp only [zero, Cond.holds, beq_iff_eq, if_false]
    have runs := bodies fuel less thenBody yes inThen _ _ σ _ thenCode.left tracked
    refine (runs.owing_less (by omega)).and_step ?_
    rintro ⟨⟩ after last ⟨rfl, tracked⟩
    refine ⟨_, real.goto leaving.head elseCode.right, Reached.cast ⟨rfl, tracked⟩ ?_⟩
    simp [Step.size]
    omega

private theorem Stmt.if_runs : (Stmt.ifElse site cond thenBody [] false).CodeRuns main body pool
    vars lineOf (fuel + 1) := by
  intro n p σ es at_ tracked
  simp only [Stmt.exec, Stmt.code, Bool.false_eq_true, if_false, List.append_assoc,
    List.cons_append, List.nil_append] at at_ ⊢
  have code := at_.skip
  have thenCode := code.right.tail
  refine (cond.imitates real sound test code.left tracked).bind ?_
  rintro value after k between _ ⟨rfl, tracked⟩
  refine .after_step (real.branchZero code.right.head thenCode.right value) ?_
  by_cases zero : value = 0
  · simp only [zero, Cond.holds, BEq.rfl, if_true]
    refine (bodies fuel less [] trivial trivial n _ σ _ thenCode.right.tail tracked).mono
      (by omega) ?_
    rintro ⟨⟩ after last good
    exact good.cast (by simp [Step.size, Stmt.allCode]; omega)
  · simp only [zero, Cond.holds, beq_iff_eq, if_false]
    refine (bodies fuel less thenBody yes inThen _ _ σ _ thenCode.left tracked).mono
      (by omega) ?_
    rintro ⟨⟩ after last good
    exact good.cast (by simp [Step.size]; omega)

end

variable {inner : List Stmt} (inside : Stmt.AllProper isName inner)
  (known : Stmt.AllAssignOnly (fun name => vars.has name = true) inner)

include inside known

include test in
private theorem Stmt.while_runs :
    (Stmt.whileLoop site cond inner).CodeRuns main body pool vars lineOf (fuel + 1) := by
  intro n p σ es at_ tracked
  simp only [Stmt.exec, Stmt.code, List.append_assoc, List.cons_append, List.nil_append] at at_ ⊢
  have code := at_.skip
  have loops := while_imitates real sound bodies test inside known code.head code.tail fuel
    (by omega) (σ := σ) tracked
  refine loops.mono (le_refl _) ?_
  rintro ⟨⟩ after last good
  exact good.cast (by simp [Step.size]; omega)

private theorem Stmt.for_runs {name : Bytes} (span : Span) (counter : vars.has name = true)
    {start stop step : Expr} (first : start.Proper isName) (last : stop.Proper isName)
    (increment : step.isAbsent = false → step.Proper isName) :
    (Stmt.forLoop site name span start stop step inner).CodeRuns main body pool vars lineOf
      (fuel + 1) := by
  intro n p σ es at_ tracked
  have evaluates : Stmt.exec (fuel + 1) (.forLoop site name span start stop step inner) = (do
      Eval.assign name (← start.eval)
      let limit ← stop.eval
      (if step.isAbsent then pure 1 else step.eval) >>= fun by_ =>
        Stmt.execFor fuel name limit by_ inner) := by
    rw [Stmt.exec]
    cases step.isAbsent <;> rfl
  rw [evaluates]
  simp only [Stmt.code, List.append_assoc, List.cons_append, List.nil_append] at at_ ⊢
  have code := at_.skip
  refine count_imitates real sound first last increment counter code tracked ?_
  intro limit by_ after owed' few tracked
  have testing := code.right.tail.tail.right.right.tail.tail.tail
  have loops := for_imitates real sound bodies counter inside known testing limit by_ fuel
    (by omega) (σ := σ) tracked
  refine loops.mono ?_ ?_
  · omega
  rintro ⟨⟩ after last good
  exact good.cast (by simp [Step.size]; omega)

end

private theorem Stmt.exec_imitates {isName : Bytes → Prop} {lineOf : Option (Span → Nat)} {limit : Nat}
    (bodies : BodiesRun isName main body pool vars lineOf limit) {s : Stmt}
    (proper : s.Proper isName) (known : s.AssignsOnly fun name => vars.has name = true)
    (fuel : Nat) (le : fuel ≤ limit) : s.CodeRuns main body pool vars lineOf fuel := by
  cases fuel with
  | zero => exact fun _ _ _ _ _ _ => .starved _
  | succ fuel =>
  cases s with
  | absent | hollow | unknown => exact proper.elim
  | assign site name span value => exact Stmt.assign_runs real sound site span proper.2 known
  | read site name span => exact Stmt.read_runs real sound site span known
  | print site value => exact Stmt.print_runs real sound site proper
  | ifElse site cond thenBody elseBody hasElse =>
    obtain ⟨test, yes, no, plain⟩ := proper
    cases hasElse with
    | true => exact Stmt.ifElse_runs real sound site bodies le test yes known.1 no known.2
    | false =>
      rw [plain rfl]
      exact Stmt.if_runs real sound site bodies le test yes known.1
  | whileLoop site cond inner =>
    exact Stmt.while_runs real sound site bodies le proper.1 proper.2 known
  | forLoop site name span start stop step inner =>
    obtain ⟨-, first, last, increment, inside⟩ := proper
    exact Stmt.for_runs real sound site bodies le inside known.2 span known.1 first last increment

private theorem bodiesRun (isName : Bytes → Prop) (lineOf : Option (Span → Nat)) (limit : Nat) :
    BodiesRun isName main body pool vars lineOf limit := by
  induction limit with
  | zero => exact fun _ none => by omega
  | succ limit ih =>
    intro fuel less list proper known n p σ es at_ tracked
    cases fuel with
    | zero => exact .starved _
    | succ fuel =>
    cases list with
    | nil => exact .of_ok rfl ⟨rfl, tracked⟩
    | cons s rest =>
      simp only [Stmt.allCode] at at_ ⊢
      have first := Stmt.exec_imitates real sound ih proper.1 known.1 fuel (by omega) at_.left
        (σ := σ) tracked
      refine first.bind ?_
      rintro ⟨⟩ after k between runs ⟨rfl, tracked⟩
      have paid : 0 < k := by
        refine runs.pos fun same => ?_
        have moved := congrArg MachineState.next same
        have wide := Stmt.width_pos vars lineOf proper.1 n
        simp only [machineAt] at moved
        omega
      have later := ih fuel (by omega) rest proper.2 known.2 _ _ σ _ at_.right tracked
      rw [width_append, ← Nat.add_assoc]
      exact later.owing_less (by omega)

theorem Stmt.execAll_imitates {isName : Bytes → Prop} (lineOf : Option (Span → Nat)) (fuel : Nat)
    {list : List Stmt} (proper : Stmt.AllProper isName list)
    (known : Stmt.AllAssignOnly (fun name => vars.has name = true) list) {n p : Nat}
    {σ : List Value} {es : EvalState} (at_ : CodeAt main p (Stmt.allCode vars lineOf n list))
    (tracked : Tracked vars es) :
    Imitates (Advances body pool) (Stuck body pool) (fuel - 2) (Stmt.execAll fuel list) es
      (fun _ => Reached vars (p + width (Stmt.allCode vars lineOf n list)) σ)
      (machineAt vars p σ es) :=
  bodiesRun real sound isName lineOf (fuel + 1) fuel (Nat.lt_succ_self fuel) list proper known n p σ
    es at_ tracked

omit sound in
private theorem does_step {s : Step} {p : Nat} (at_ : CodeAt main p [s]) (one : s.size = 1)
    {σ τ : List Value} {locals locals' : Array Value} {console : Machine.Console}
    (does : ∀ insn, s.Means pool target insn.action → insn.action ≠ .ret ∧
      MachineState.execute ⟨p + 1, σ, locals, console⟩ body pool insn =
        .ok ⟨p + 1, τ, locals', console⟩) :
    Advances body pool ⟨p, σ, locals, console⟩ ⟨p + 1, τ, locals', console⟩ := by
  obtain ⟨insn, present, means⟩ := real.step p s at_ one
  obtain ⟨goes, executed⟩ := does insn means
  exact ⟨insn, present, goes, executed, real.room one at_⟩

omit sound in
theorem scanner_runs (at_ : CodeAt main 0 [.classOperand .new scannerClass, .insn .dup,
      .fieldOperand .getStatic systemIn, .methodOperand .invokeSpecial scannerInit,
      .localVar .astore 0]) {locals : Array Value} (some_ : 0 < locals.size)
    (console : Machine.Console) :
    Runs (Advances body pool) 5 ⟨0, [], locals, console⟩
      ⟨5, [], locals.setIfInBounds 0 .scanner, console⟩ := by
  have makes : Advances body pool ⟨0, [], locals, console⟩ ⟨1, [.rawScanner], locals, console⟩ := by
    refine does_step real at_.head rfl ?_
    rintro insn ⟨i, same, names⟩
    rw [does_new] at same
    refine ⟨by simp [same], ?_⟩
    simp only [MachineState.execute, same, names.className]
    rfl
  have copies : Advances body pool ⟨1, [.rawScanner], locals, console⟩
      ⟨2, [.rawScanner, .rawScanner], locals, console⟩ := by
    refine does_step real at_.tail.head rfl fun insn means => ?_
    have does : insn.action = .shuffle .dup := means
    exact ⟨by simp [does], by simp only [MachineState.execute, does]; rfl⟩
  have takes : Advances body pool ⟨2, [.rawScanner, .rawScanner], locals, console⟩
      ⟨3, [.stdin, .rawScanner, .rawScanner], locals, console⟩ := by
    refine does_step real at_.tail.tail.head rfl ?_
    rintro insn ⟨i, same, names⟩
    rw [does_getStatic] at same
    refine ⟨by simp [same], ?_⟩
    simp only [MachineState.execute, same, names.member]
    rfl
  have builds : Advances body pool ⟨3, [.stdin, .rawScanner, .rawScanner], locals, console⟩
      ⟨4, [.scanner], locals, console⟩ := by
    refine does_step real at_.tail.tail.tail.head rfl ?_
    rintro insn ⟨i, same, names⟩
    rw [does_invokeSpecial] at same
    refine ⟨by simp [same], ?_⟩
    simp only [MachineState.execute, same, names.member, Except.toOption, Option.getD_some]
    exact MachineState.invoke_scannerInit ⟨4, [], locals, console⟩ .stdin .rawScanner [.rawScanner]
  have stores : Advances body pool ⟨4, [.scanner], locals, console⟩
      ⟨5, [], locals.setIfInBounds 0 .scanner, console⟩ := by
    refine does_step real at_.tail.tail.tail.tail.head rfl fun insn means => ?_
    have does : insn.action = .refStore 0 := means
    refine ⟨by simp [does], ?_⟩
    simp only [MachineState.execute, does, MachineState.store, MachineState.pop, ok_bind,
      if_pos some_, pure_eq_ok]
  exact .cons makes (.cons copies (.cons takes (.cons builds (.single stores))))

theorem clear_runs {es : EvalState} (blank : ∀ name, es.store.get name = 0)
    (at_ : CodeAt main 5 ((List.range vars.size).flatMap fun (i : Nat) =>
      [.push 0, .localVar .istore (i + 1)])) (done : Nat) (le : done ≤ vars.size) :
    Runs (Advances body pool) (2 * done) (machineAt vars 5 [] es)
      (machineAt vars (5 + 2 * done) [] es) := by
  induction done with
  | zero => exact .refl _
  | succ done ih =>
    have code := at_.clears (Nat.lt_of_succ_le le)
    obtain ⟨name, there⟩ : ∃ name, vars.names[done]? = some name :=
      ⟨_, Array.getElem?_eq_getElem (Nat.lt_of_succ_le le)⟩
    have found := (sound name done).mpr there
    have known : vars.has name = true := Variables.has_iff.mpr ⟨done, found⟩
    have slot : ((done : Nat) + 1 : Int) = slotOf vars name := by simp [slotOf, found]
    have save := code.tail.head
    rw [slot] at save
    have stored : Acts vars (.localVar .istore (slotOf vars name)) [.int 0] es []
        { es with store := es.store.set name 0 } := .store known
    have stores := real.acts sound save stored
    have same : localsOf vars (es.store.set name 0) = localsOf vars es.store := by
      have each : ∀ other, (es.store.set name 0).get other = es.store.get other := by
        intro other
        rw [Store.get_set, blank other]
        simp
      simp only [localsOf, each]
    rw [show machineAt vars _ [] { es with store := es.store.set name 0 } =
      machineAt vars (5 + 2 * done + 1 + 1) [] es by simp only [machineAt, same]; rfl] at stores
    exact (ih (Nat.le_of_succ_le le)).trans (.cons (real.acts sound code.head .push) (.single stores))

end

end Minilang
