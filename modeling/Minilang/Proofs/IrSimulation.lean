import Minilang.Proofs.IrExpressions

/-! The machine for intermediate code imitates the execution of statements that read leniently. A
loop runs its code again with the same names; the operands of a counting loop are made before its
body, which does not touch them. -/

namespace Minilang

namespace Ir

/-- The machine has come to a position, and nothing that was made before `n` has changed. -/
def Reached (vars : Variables) (cells : List Nat) (p n : Nat) (start : MachineState)
    (es : EvalState) (state : MachineState) : Prop :=
  At vars cells p es state ∧ Keeps n start state

section

variable {vars : Variables} {cells : List Nat} {p q n m : Nat} {start state last : MachineState}
  {es : EvalState}

/-- The machine does not count iterations. -/
theorem At.tick (here : At vars cells p es state) :
    At vars cells p { es with spent := es.spent + 1 } state :=
  ⟨here.pc, here.console, here.free, here.held, here.scratch⟩

theorem Reached.cast (reached : Reached vars cells p n start es state) (same : p = q) :
    Reached vars cells q n start es state :=
  same ▸ reached

theorem Reached.since (reached : Reached vars cells p m state es last) (le : n ≤ m)
    (before : Keeps n start state) : Reached vars cells p n start es last :=
  ⟨reached.1, before.trans (reached.2.mono le)⟩

end

end Ir

open Ir

theorem Expr.stepOperand_below (step : Expr) (n : Nat) :
    (step.stepOperand n).Below (n + step.made) := by
  rw [Expr.stepOperand]
  split
  · exact fun _ wrong => by cases wrong
  · exact step.operand_below n

/-- At the end of the input a variable keeps its value. -/
theorem Reader.run_into_exhausted {es : EvalState} (left : es.inputs = []) (name : Bytes) :
    (Reader.lenient.into name).run.run es = (.ok (), es) := by
  obtain ⟨store, inputs, printed, budget, spent⟩ := es
  cases left
  rfl

theorem Reader.run_into {es : EvalState} {value : Int32} {rest : List Int32}
    (left : es.inputs = value :: rest) (name : Bytes) :
    (Reader.lenient.into name).run.run es =
      (.ok (), { es with inputs := rest, store := es.store.set name value }) := by
  obtain ⟨store, inputs, printed, budget, spent⟩ := es
  cases left
  rfl

section

variable {code : Ir.Code} {body : List Item} {vars : Variables} {cells : List Nat}
  (real : code.Realizes body) (apart : ∀ name, vars.has name = true → ∀ m, name ≠ temp m)
include real apart

/-- A condition sends the machine one of two ways. -/
private theorem choice_imitates {cond : Expr} (proper : cond.Proper fun name => vars.has name = true)
    {n f yes no p q r owed : Nat} {rest : List Item}
    (at_ : ItemsAt body p (cond.items n ++
      (result f (.compare .ne (cond.operand n) (.imm 0)) ::
        plain (.branch (.reg (temp f)) (temp yes) (temp no)) :: rest)))
    (inside : ∀ c ∈ cond.cells n, c ∈ cells) (late : n < f) (true_ : ItemsAt body q [mark yes])
    (false_ : ItemsAt body r [mark no]) {es : EvalState} {state : MachineState}
    (here : At vars cells p es state) {whenZero otherwise : Eval Unit}
    {fits : Unit → EvalState → MachineState → Prop}
    (zero : ∀ after last, Reached vars cells r n state after last →
      Imitates (Advances code) (Stuck code) (owed - 6) whenZero after fits last)
    (other : ∀ after last, Reached vars cells q n state after last →
      Imitates (Advances code) (Stuck code) (owed - 6) otherwise after fits last) :
    Imitates (Advances code) (Stuck code) owed
      (do if (← cond.evalBy .lenient) = 0 then whenZero else otherwise) es fits state := by
  refine (cond.ir_imitates real apart proper at_.left inside here).bind
    fun value after k between _ reached => ?_
  obtain ⟨there, given, keeps⟩ := reached
  have testing := at_.right
  refine .after_step (real.go there testing.head (.compare given rfl)) ?_
  have tested := there.give (temp f) (Arith.ofBool (value != 0))
  have goes := real.branch tested testing.tail.head true_ false_ (between.operand_give _ _)
  have kept := keeps.give (m := f) late (Arith.ofBool (value != 0))
  refine .after_step goes ?_
  by_cases none : value = 0
  · have false : (value != 0) = false := by simp [none]
    rw [if_pos none, false, if_neg Bool.false_ne_true]
    rw [false] at tested kept
    exact (zero _ _ ⟨tested.moved r, kept.same rfl rfl⟩).owing_less (by omega)
  · have true : (value != 0) = true := by simp [none]
    rw [if_neg none, true, if_pos rfl]
    rw [true] at tested kept
    exact (other _ _ ⟨tested.moved q, kept.same rfl rfl⟩).owing_less (by omega)

/-- The step of a counting loop is one when it is absent. -/
private theorem stride_imitates {step : Expr}
    (proper : step.isAbsent = false → step.Proper fun name => vars.has name = true)
    {n p owed : Nat} {es : EvalState} {state : MachineState} (at_ : ItemsAt body p (step.items n))
    (inside : ∀ c ∈ step.cells n, c ∈ cells) (here : At vars cells p es state) :
    Imitates (Advances code) (Stuck code) owed
      (if step.isAbsent then pure 1 else step.evalBy .lenient) es
      (Valued vars cells (p + size (step.items n)) n (step.stepOperand n) state) state := by
  cases absent : step.isAbsent with
  | true =>
    obtain rfl : step = .absent := by cases step <;> first | rfl | cases absent
    exact .of_ok rfl ⟨here, rfl, .refl n state⟩
  | false =>
    rw [Expr.stepOperand, absent]
    exact step.ir_imitates real apart (proper absent) at_ inside here

omit real apart

/-- Code that runs takes the machine to another position. -/
private theorem Stmt.size_pos {isName : Bytes → Prop} {s : Stmt} (proper : s.Proper isName)
    (n : Nat) : 0 < size (s.items n) := by
  cases s with
  | absent | hollow | unknown => exact proper.elim
  | ifElse site cond thenBody elseBody hasElse => cases hasElse <;> simp [Stmt.items]
  | assign | read | print | whileLoop | forLoop => simp [Stmt.items]

/-- Running the code of statements does what they do, whenever there is less fuel than a limit. -/
private def BlocksRun (code : Ir.Code) (body : List Item) (vars : Variables) (cells : List Nat)
    (limit : Nat) : Prop :=
  ∀ fuel < limit, ∀ list : List Stmt, Stmt.AllProper (fun name => vars.has name = true) list →
    ∀ (n p : Nat) (es : EvalState) (state : MachineState),
      ItemsAt body p (Stmt.allItems n list) → (∀ c ∈ Stmt.allCells n list, c ∈ cells) →
      At vars cells p es state →
      Imitates (Advances code) (Stuck code) (fuel - 2) (Stmt.execAllBy .lenient fuel list) es
        (fun _ => Reached vars cells (p + size (Stmt.allItems n list)) n state) state

include real apart

/-- A loop runs its code again as long as its condition is not zero. -/
private theorem loop_imitates {limit : Nat} (blocks : BlocksRun code body vars cells limit)
    {cond : Expr} {inner : List Stmt} (test : cond.Proper fun name => vars.has name = true)
    (proper : Stmt.AllProper (fun name => vars.has name = true) inner) {n p q r : Nat}
    (top : ItemsAt body p [mark (n + 1)])
    (at_ : ItemsAt body p (cond.items (n + 3) ++
      (result (n + 3 + cond.made + 1) (.compare .ne (cond.operand (n + 3)) (.imm 0)) ::
        plain (.branch (.reg (temp (n + 3 + cond.made + 1))) (temp (n + 2)) (temp (n + 3))) ::
        mark (n + 2) :: (Stmt.allItems (n + 3 + cond.made + 1) inner ++
          [plain (.jump (temp (n + 1))), mark (n + 3)]))))
    (inTest : ∀ c ∈ cond.cells (n + 3), c ∈ cells)
    (inBody : ∀ c ∈ Stmt.allCells (n + 3 + cond.made + 1) inner, c ∈ cells)
    (inner_ : q = p + size (cond.items (n + 3)) + 2)
    (done : r = q + size (Stmt.allItems (n + 3 + cond.made + 1) inner) + 1)
    (fuel : Nat) (le : fuel ≤ limit) {start state : MachineState} {es : EvalState}
    (here : Reached vars cells p n start es state) :
    Imitates (Advances code) (Stuck code) fuel (Stmt.execWhileBy .lenient fuel cond inner) es
      (fun _ => Reached vars cells r n start) state := by
  induction fuel generalizing es state with
  | zero => exact .starved _
  | succ fuel ih =>
    have entering : ItemsAt body q (mark (n + 2) :: _) := inner_ ▸ at_.right.tail.tail
    have inside : ItemsAt body q _ := entering.tail
    have back := inside.right
    have leaving : ItemsAt body r [mark (n + 3)] := done ▸ back.tail
    rw [Stmt.execWhileBy]
    refine choice_imitates real apart test at_ inTest (by omega) entering.head leaving here.1 ?_ ?_
    · intro after last reached
      exact .of_ok rfl (reached.since (by omega) here.2)
    · intro after last reached
      refine .silent (Eval.run_tick reached.1.free) ?_
      have runs := blocks fuel (by omega) inner proper _ _ _ last inside.left inBody reached.1.tick
      refine (runs.owing_less (by omega)).bind ?_
      intro _ after k between _ later
      have kept := later.since (n := n) (by omega) (here.2.trans (reached.2.mono (by omega)))
      refine .after_step (real.jump kept.1 back.head top) ?_
      exact (ih (by omega) ⟨kept.1.moved p, kept.2.same rfl rfl⟩).owing_less (by omega)

omit apart in
/-- The block of a conditional ends by jumping to the mark behind the conditional. -/
private theorem arm_imitates {limit : Nat} (blocks : BlocksRun code body vars cells limit)
    {fuel owed : Nat} (less : fuel < limit) (little : owed ≤ fuel - 2) {list : List Stmt}
    (proper : Stmt.AllProper (fun name => vars.has name = true) list) {n m p q r done : Nat}
    {rest : List Item}
    (at_ : ItemsAt body p (Stmt.allItems m list ++ plain (.jump (temp done)) :: rest))
    (inside : ∀ c ∈ Stmt.allCells m list, c ∈ cells) (ends : ItemsAt body q [mark done])
    (le : n ≤ m) (behind : q = r) {start state : MachineState} {es : EvalState}
    (here : Reached vars cells p n start es state) :
    Imitates (Advances code) (Stuck code) owed (Stmt.execAllBy .lenient fuel list) es
      (fun _ => Reached vars cells r n start) state := by
  have runs := blocks fuel less list proper _ _ _ _ at_.left inside here.1
  refine (runs.owing_less little).and_step fun _ after last later => ?_
  obtain ⟨there, keeps⟩ := later.since le here.2
  exact ⟨_, real.jump there at_.right.head ends, (there.moved _).cast behind, keeps.same rfl rfl⟩

/-- A counting loop tests its variable against an operand that its body does not touch, and reads
the variable again after the body, which may have changed it. -/
private theorem count_loop_imitates {limit : Nat} (blocks : BlocksRun code body vars cells limit)
    {name : Bytes} {inner : List Stmt} (counter : vars.has name = true)
    (proper : Stmt.AllProper (fun name => vars.has name = true) inner) {k j p q : Nat}
    {stop step : Operand} (stopBelow : stop.Below k) (stepBelow : step.Below k)
    (at_ : ItemsAt body p ([mark (k + 1), result (k + 4) (.load name),
        result (k + 5) (.compare .sle (.reg (temp (k + 4))) stop),
        plain (.branch (.reg (temp (k + 5))) (temp (k + 2)) (temp (k + 3))), mark (k + 2)] ++
      (Stmt.allItems (k + 5) inner ++
        [result (j + 1) (.load name), result (j + 2) (.compute .add (.reg (temp (j + 1))) step),
          plain (.store (.reg (temp (j + 2))) name), plain (.jump (temp (k + 1))), mark (k + 3)])))
    (inBody : ∀ c ∈ Stmt.allCells (k + 5) inner, c ∈ cells) (late : k ≤ j)
    (behind : q = p + 3 + size (Stmt.allItems (k + 5) inner)) (last increment : Int32)
    (fuel : Nat) (le : fuel ≤ limit) {start state : MachineState} {es : EvalState}
    (here : Reached vars cells p k start es state) (bound : start.operand stop = .ok last)
    (stride : start.operand step = .ok increment) :
    Imitates (Advances code) (Stuck code) fuel
      (Stmt.execForBy .lenient fuel name last increment inner) es
      (fun _ => Reached vars cells (q + 4) k start) state := by
  induction fuel generalizing es state with
  | zero => exact .starved _
  | succ fuel ih =>
    have testing : ItemsAt body p _ := at_.left.tail
    have entering : ItemsAt body (p + 3) [mark (k + 2)] := testing.tail.tail.tail
    have inside : ItemsAt body (p + 3) _ := at_.right
    have adding : ItemsAt body q _ := behind ▸ inside.right
    have saving : ItemsAt body (q + 2) _ := adding.tail.tail
    have leaving : ItemsAt body (q + 4) [mark (k + 3)] := saving.tail.tail
    rw [Stmt.execForBy]
    refine .silent (Eval.run_lookup name es) ?_
    obtain ⟨there, keeps⟩ := here
    refine .after_step (real.go there testing.head (.load (there.held name counter))) ?_
    have loaded := there.give (temp (k + 4)) (es.store.get name)
    have kept := keeps.give (m := k + 4) (by omega) (es.store.get name)
    have compares := real.go loaded testing.tail.head
      (.compare (state.operand_give _ _) (kept.operand stopBelow bound))
    refine .after_step compares ?_
    have tested := loaded.give (temp (k + 5)) (Arith.ofBool (Test.sle.holds (es.store.get name) last))
    have kept := kept.give (m := k + 5) (by omega)
      (Arith.ofBool (Test.sle.holds (es.store.get name) last))
    refine .after_step (real.branch tested testing.tail.tail.head entering leaving
      (MachineState.operand_give _ _ _)) ?_
    by_cases past : last < es.store.get name
    · have stops : Test.sle.holds (es.store.get name) last = false := by
        simpa [Test.holds] using past
      rw [if_pos past, stops, if_neg Bool.false_ne_true]
      rw [stops] at tested kept
      exact .of_ok rfl ⟨tested.moved _, kept.same rfl rfl⟩
    · have goesOn : Test.sle.holds (es.store.get name) last = true := by
        simpa [Test.holds] using past
      rw [if_neg past, goesOn, if_pos rfl]
      rw [goesOn] at tested kept
      refine .silent (Eval.run_tick there.free) ?_
      have runs := blocks fuel (by omega) inner proper _ _ _ _ inside.left inBody
        (tested.moved (p + 3)).tick
      refine (runs.owing_less (by omega)).bind ?_
      intro _ after m between _ later
      obtain ⟨there, keeps⟩ := later.since (n := k) (by omega) (kept.same rfl rfl)
      have there := there.cast behind.symm
      refine .silent (Eval.run_lookup name after) ?_
      refine .silent (Eval.run_assign name _ after) ?_
      refine .after_step (real.go there adding.head (.load (there.held name counter))) ?_
      have loaded := there.give (temp (j + 1)) (after.store.get name)
      have kept := keeps.give (m := j + 1) (by omega) (after.store.get name)
      have adds := real.go loaded adding.tail.head
        (.compute (between.operand_give _ _) (kept.operand stepBelow stride) rfl)
      refine .after_step adds ?_
      have added := loaded.give (temp (j + 2)) (after.store.get name + increment)
      have kept := kept.give (m := j + 2) (by omega) (after.store.get name + increment)
      have stores := real.go added saving.head
        (.store (added.held name counter) (MachineState.operand_give _ _ _))
      refine .after_step stores ?_
      have stored := added.assign name (after.store.get name + increment)
      have kept := kept.put (fun i _ => apart name counter i) (after.store.get name + increment)
      refine .after_step (real.jump stored saving.tail.head at_.left.head) ?_
      exact (ih (by omega) ⟨stored.moved p, kept.same rfl rfl⟩).owing_less (by omega)

omit real apart

/-- Running the code of a statement does what the statement does. -/
private def Stmt.ItemsRun (code : Ir.Code) (body : List Item) (vars : Variables) (cells : List Nat)
    (fuel : Nat) (s : Stmt) : Prop :=
  ∀ ⦃n p : Nat⦄ ⦃es : EvalState⦄ ⦃state : MachineState⦄, ItemsAt body p (s.items n) →
    (∀ c ∈ s.cells n, c ∈ cells) → At vars cells p es state →
    Imitates (Advances code) (Stuck code) (fuel - 1) (Stmt.execBy .lenient fuel s) es
      (fun _ => Reached vars cells (p + size (s.items n)) n state) state

include real apart

section

variable {fuel : Nat} (site : Site)

private theorem assign_itemsRun (span : Span) {name : Bytes} (known : vars.has name = true)
    {value : Expr} (inner : value.Proper fun name => vars.has name = true) :
    (Stmt.assign site name span value).ItemsRun code body vars cells (fuel + 1) := by
  intro n p es state at_ inside here
  simp only [Stmt.execBy, Stmt.items] at at_ ⊢
  refine (value.ir_imitates real apart inner at_.left inside here).bind ?_
  intro result after k between _ reached
  obtain ⟨there, given, keeps⟩ := reached
  refine .after_step (real.go there at_.right (.store (there.held name known) given)) ?_
  refine .of_ok (Eval.run_assign name result after) ⟨(there.assign name result).cast ?_, ?_⟩
  · simp [Nat.add_assoc]
  · exact keeps.put (fun i _ => apart name known i) result

private theorem read_itemsRun (span : Span) {name : Bytes} (proper : vars.has name = true) :
    (Stmt.read site name span).ItemsRun code body vars cells (fuel + 1) := by
  intro n p es state at_ inside here
  have old := here.held name proper
  cases left : es.inputs with
  | nil =>
    have read : state.console.read = (.error .exhausted, consoleOf es) := by
      rw [here.console, consoleOf_exhausted left]
    refine .after_step (real.go here at_ (.scanNothing real.scans old read)) ?_
    refine .of_ok (Reader.run_into_exhausted left name) ?_
    exact ⟨here.talk es rfl rfl, (Keeps.refl n state).same rfl rfl⟩
  | cons value rest =>
    have read : state.console.read = (.ok value, consoleOf { es with inputs := rest }) := by
      rw [here.console, consoleOf_read left]
    refine .after_step (real.go here at_ (.scan real.scans old read)) ?_
    refine .of_ok (Reader.run_into left name) ?_
    refine ⟨(here.assign name value).hear rfl rfl, ?_⟩
    exact ((Keeps.refl n state).put (fun i _ => apart name proper i) value).same rfl rfl

private theorem print_itemsRun {value : Expr}
    (proper : value.Proper fun name => vars.has name = true) :
    (Stmt.print site value).ItemsRun code body vars cells (fuel + 1) := by
  intro n p es state at_ inside here
  simp only [Stmt.execBy, Stmt.items] at at_ ⊢
  refine (value.ir_imitates real apart proper at_.left inside here).bind ?_
  intro result after k between _ reached
  obtain ⟨there, given, keeps⟩ := reached
  have prints : between.console.print result =
      .ok (consoleOf { after with printed := result :: after.printed }) := by
    rw [there.console]
    rfl
  have shown := there.talk { after with printed := result :: after.printed } rfl rfl
  refine .after_step (real.go there at_.right (.print real.prints given prints)) ?_
  refine .of_ok (Eval.run_print result after) ⟨shown.cast ?_, keeps.same rfl rfl⟩
  simp [Nat.add_assoc]

variable {limit : Nat} (blocks : BlocksRun code body vars cells limit) (less : fuel < limit)
  {cond : Expr} (test : cond.Proper fun name => vars.has name = true)
include blocks less

section

variable {thenBody elseBody : List Stmt}
  (yes : Stmt.AllProper (fun name => vars.has name = true) thenBody)
include test yes

private theorem ifElse_itemsRun
    (no : Stmt.AllProper (fun name => vars.has name = true) elseBody) :
    (Stmt.ifElse site cond thenBody elseBody true).ItemsRun code body vars cells (fuel + 1) := by
  intro n p es state at_ inside here
  rw [Stmt.execBy]
  simp only [Stmt.items, Stmt.cells, if_true, List.append_assoc, List.cons_append,
    List.nil_append, List.forall_mem_append] at at_ inside ⊢
  obtain ⟨inTest, inThen, inElse⟩ := inside
  have entering := at_.right.tail.tail
  have thenCode := entering.tail
  have leaving := thenCode.right
  have elseCode := leaving.tail.tail
  have done := elseCode.right
  refine choice_imitates real apart test at_ inTest (by omega) entering.head leaving.tail.head
    here ?_ ?_
  · intro after last reached
    refine arm_imitates real blocks (by omega) (by omega) no elseCode inElse done.tail
      (by omega) ?_ reached
    simp only [size_append, size_cons, size_nil, plain_size, result_size, mark_size]
    omega
  · intro after last reached
    refine arm_imitates real blocks (by omega) (by omega) yes thenCode inThen done.tail
      (by omega) ?_ reached
    simp only [size_append, size_cons, size_nil, plain_size, result_size, mark_size]
    omega

private theorem if_itemsRun :
    (Stmt.ifElse site cond thenBody [] false).ItemsRun code body vars cells (fuel + 1) := by
  intro n p es state at_ inside here
  rw [Stmt.execBy]
  simp only [Stmt.items, Stmt.cells, Bool.false_eq_true, if_false, List.append_assoc,
    List.cons_append, List.nil_append, List.forall_mem_append] at at_ inside ⊢
  obtain ⟨inTest, inThen⟩ := inside
  have entering := at_.right.tail.tail
  have thenCode := entering.tail
  have leaving := thenCode.right
  refine choice_imitates real apart test at_ inTest (by omega) entering.head leaving.tail here
    ?_ ?_
  · intro after last reached
    have runs := blocks fuel (by omega) [] trivial n _ _ last leaving.tail.tail
      (by simp [Stmt.allCells]) reached.1
    refine runs.mono (by omega) fun _ after last later => ?_
    refine (later.since (Nat.le_refl n) reached.2).cast ?_
    simp only [Stmt.allItems, size_append, size_cons, size_nil, plain_size, result_size, mark_size]
    omega
  · intro after last reached
    refine arm_imitates real blocks (by omega) (by omega) yes thenCode inThen leaving.tail
      (by omega) ?_ reached
    simp only [size_append, size_cons, size_nil, plain_size, result_size, mark_size]
    omega

end

variable {inner : List Stmt} (round : Stmt.AllProper (fun name => vars.has name = true) inner)
include round

include test in
private theorem while_itemsRun :
    (Stmt.whileLoop site cond inner).ItemsRun code body vars cells (fuel + 1) := by
  intro n p es state at_ inside here
  simp only [Stmt.execBy, Stmt.items, Stmt.cells, List.append_assoc, List.cons_append,
    List.nil_append, List.forall_mem_append] at at_ inside ⊢
  have top := at_.tail
  refine .after_step (real.jump here at_.head top.head) ?_
  have entered : Reached vars cells (p + 1) n state es (state.moved (p + 1)) :=
    ⟨here.moved _, (Keeps.refl n state).same rfl rfl⟩
  have loops := loop_imitates real apart blocks test round top.head top.tail inside.1 inside.2 rfl
    rfl fuel (by omega) entered
  refine loops.mono (by omega) fun _ after last reached => reached.cast ?_
  simp only [size_append, size_cons, size_nil, plain_size, result_size, mark_size]
  omega

private theorem for_itemsRun (span : Span) {name : Bytes} (known : vars.has name = true)
    {start stop step : Expr} (first : start.Proper fun name => vars.has name = true)
    (last : stop.Proper fun name => vars.has name = true)
    (increment : step.isAbsent = false → step.Proper fun name => vars.has name = true) :
    (Stmt.forLoop site name span start stop step inner).ItemsRun code body vars cells
      (fuel + 1) := by
  intro n p es state at_ inside here
  have evaluates : Stmt.execBy .lenient (fuel + 1) (.forLoop site name span start stop step inner) =
      (do
        Eval.assign name (← start.evalBy .lenient)
        let limit ← stop.evalBy .lenient
        (if step.isAbsent then pure 1 else step.evalBy .lenient) >>= fun by_ =>
          Stmt.execForBy .lenient fuel name limit by_ inner) := by
    rw [Stmt.execBy]
    cases step.isAbsent <;> rfl
  rw [evaluates]
  simp only [Stmt.items, Stmt.cells, List.append_assoc, List.cons_append, List.nil_append,
    List.forall_mem_append] at at_ inside ⊢
  obtain ⟨inStart, inStop, inStep, inBody⟩ := inside
  have storing := at_.right
  have stopCode := storing.tail
  have stepCode := stopCode.right
  have entering := stepCode.right
  refine (start.ir_imitates real apart first at_.left inStart here).bind ?_
  intro value after k between _ reached
  obtain ⟨there, given, keeps⟩ := reached
  refine .silent (Eval.run_assign name value after) ?_
  refine .after_step (real.go there storing.head (.store (there.held name known) given)) ?_
  have keeps := keeps.put (fun i _ => apart name known i) value
  have there := there.assign name value
  refine (stop.ir_imitates real apart last stopCode.left inStop there).bind ?_
  intro limit after k between _ reached
  obtain ⟨there, bound, later⟩ := reached
  have keeps := keeps.trans (later.mono (Nat.le_add_right n start.made))
  refine (stride_imitates real apart increment stepCode.left inStep there).bind ?_
  intro by_ after k between _ reached
  obtain ⟨there, stride, later⟩ := reached
  have bound := later.operand (stop.operand_below _) bound
  have keeps := keeps.trans (later.mono (by omega))
  refine .after_step (real.jump there entering.head entering.tail.head) ?_
  have loops := count_loop_imitates real apart blocks known round
    ((stop.operand_below _).mono (Nat.le_add_right _ _))
    (step.stepOperand_below _) entering.tail inBody (by omega) rfl limit by_ fuel (by omega)
    ⟨there.moved _, .refl _ _⟩ (by simpa using bound) (by simpa using stride)
  refine loops.mono (by omega) fun _ after last reached => ?_
  refine (reached.since (by omega) (keeps.same rfl rfl)).cast ?_
  simp only [size_append, size_cons, size_nil, plain_size, result_size, mark_size]
  omega

end

private theorem Stmt.execBy_imitates {limit : Nat} (blocks : BlocksRun code body vars cells limit)
    {s : Stmt} (proper : s.Proper fun name => vars.has name = true) (fuel : Nat)
    (le : fuel ≤ limit) : s.ItemsRun code body vars cells fuel := by
  cases fuel with
  | zero => exact fun _ _ _ _ _ _ _ => .starved _
  | succ fuel =>
  cases s with
  | absent | hollow | unknown => exact proper.elim
  | assign site name span value => exact assign_itemsRun real apart site span proper.1 proper.2
  | read site name span => exact read_itemsRun real apart site span proper
  | print site value => exact print_itemsRun real apart site proper
  | ifElse site cond thenBody elseBody hasElse =>
    obtain ⟨test, yes, no, empty⟩ := proper
    cases hasElse with
    | true => exact ifElse_itemsRun real apart site blocks le test yes no
    | false =>
      rw [empty rfl]
      exact if_itemsRun real apart site blocks le test yes
  | whileLoop site cond inner =>
    exact while_itemsRun real apart site blocks le proper.1 proper.2
  | forLoop site name span start stop step inner =>
    obtain ⟨known, first, last, increment, round⟩ := proper
    exact for_itemsRun real apart site blocks le round span known first last increment

/-- Running the code of statements does what they do, one after the other. -/
private theorem blocksRun (limit : Nat) : BlocksRun code body vars cells limit := by
  induction limit with
  | zero => exact fun _ none => by omega
  | succ limit ih =>
    intro fuel less list proper n p es state at_ inside here
    cases fuel with
    | zero => exact .starved _
    | succ fuel =>
    cases list with
    | nil => exact .of_ok rfl ⟨here, .refl n state⟩
    | cons s rest =>
      simp only [Stmt.allItems, Stmt.allCells, List.forall_mem_append] at at_ inside ⊢
      have first := Stmt.execBy_imitates real apart ih proper.1 fuel (by omega) at_.left inside.1 here
      refine first.bind ?_
      intro _ after k between runs reached
      have paid : 0 < k := by
        refine runs.pos fun same => ?_
        have moved := reached.1.pc
        have wide := Stmt.size_pos proper.1 n
        rw [← same, here.pc] at moved
        omega
      have later := ih fuel (by omega) rest proper.2 _ _ _ _ at_.right inside.2 reached.1
      refine later.mono (by omega) fun _ after last good => ?_
      refine (good.since (Nat.le_add_right n s.made) reached.2).cast ?_
      rw [size_append, Nat.add_assoc]

theorem Stmt.execAllBy_imitates (fuel : Nat) {list : List Stmt}
    (proper : Stmt.AllProper (fun name => vars.has name = true) list) {n p : Nat} {es : EvalState}
    {state : MachineState} (at_ : ItemsAt body p (Stmt.allItems n list))
    (inside : ∀ c ∈ Stmt.allCells n list, c ∈ cells) (here : At vars cells p es state) :
    Imitates (Advances code) (Stuck code) (fuel - 2) (Stmt.execAllBy .lenient fuel list) es
      (fun _ => Reached vars cells (p + size (Stmt.allItems n list)) n state) state :=
  blocksRun real apart (fuel + 1) fuel (Nat.lt_succ_self fuel) list proper n p es state at_ inside
    here

end

end Minilang
