import Minilang.Machine.Console
import Minilang.Meaning

/-! Machines that imitate evaluations step by step. A run that runs out of fuel does not end the
machine: it has kept it going for a number of steps that grows with the fuel. -/

namespace Minilang

/-- A machine gets from one state to another in a number of steps. -/
inductive Runs {σ : Type} (step : σ → σ → Prop) : Nat → σ → σ → Prop where
  | refl (state : σ) : Runs step 0 state state
  | cons {k : Nat} {first second last : σ} (here : step first second)
      (later : Runs step k second last) : Runs step (k + 1) first last

namespace Runs

variable {σ : Type} {step : σ → σ → Prop} {first second last : σ}

theorem single (here : step first second) : Runs step 1 first second := .cons here (.refl _)

theorem trans {k m : Nat} (before : Runs step k first second) (after : Runs step m second last) :
    Runs step (k + m) first last := by
  induction before with
  | refl => simpa using after
  | @cons k _ _ _ here later ih =>
    have whole := Runs.cons here (ih after)
    rwa [Nat.add_right_comm] at whole

theorem length_le {k m : Nat} {other : σ} (runs : Runs step k first last)
    (one : ∀ {a b c}, step a b → step a c → b = c) (halts : ∀ next, ¬step last next)
    (others : Runs step m first other) : m ≤ k := by
  induction runs generalizing m with
  | refl =>
    cases others with
    | refl => exact Nat.le_refl 0
    | cons here later => exact absurd here (halts _)
  | cons here later ih =>
    cases others with
    | refl => omega
    | cons there more =>
      cases one here there
      exact Nat.succ_le_succ (ih halts more)

theorem unique {k : Nat} {other : σ} (runs : Runs step k first last)
    (one : ∀ {a b c}, step a b → step a c → b = c) (others : Runs step k first other) :
    last = other := by
  induction runs with
  | refl =>
    cases others
    rfl
  | cons here later ih =>
    cases others with
    | cons there more =>
      cases one here there
      exact ih more

theorem pos {k : Nat} (runs : Runs step k first last) (moved : first ≠ last) : 0 < k := by
  cases runs with
  | refl => exact absurd rfl moved
  | cons => omega

end Runs

theorem Store.get_set (store : Store) (name other : Bytes) (value : Int32) :
    (store.set name value).get other = if name = other then value else store.get other := by
  simp [Store.get, Store.set, Std.HashMap.getD_insert]

namespace Eval

variable {α β : Type}

theorem run_bind (first : Eval α) (next : α → Eval β) (state : EvalState) :
    (first >>= next).run.run state =
      match first.run.run state with
      | (.ok value, after) => (next value).run.run after
      | (.error stop, after) => (.error stop, after) := by
  simp only [ExceptT.run_bind, StateT.run_bind]
  rcases first.run.run state with ⟨_ | value, after⟩ <;> rfl

theorem run_lookup (name : Bytes) (state : EvalState) :
    (lookup name).run.run state = (.ok (state.store.get name), state) := rfl

theorem run_assign (name : Bytes) (value : Int32) (state : EvalState) :
    (assign name value).run.run state =
      (.ok (), { state with store := state.store.set name value }) := rfl

theorem run_print (value : Int32) (state : EvalState) :
    (print value).run.run state = (.ok (), { state with printed := value :: state.printed }) := rfl

theorem run_tick {state : EvalState} (free : state.budget = 0) :
    tick.run.run state = (.ok (), { state with spent := state.spent + 1 }) := by
  obtain ⟨store, inputs, printed, budget, spent⟩ := state
  cases free
  rfl

theorem run_read (state : EvalState) :
    read.run.run state =
      match state.inputs with
      | [] => (.error .inputExhausted, state)
      | value :: rest => (.ok value, { state with inputs := rest }) := by
  rw [read, run_bind]
  rcases state with ⟨_, _ | ⟨value, rest⟩, _, _, _⟩ <;> rfl

theorem run_apply (op : Op) (left right : Int32) (state : EvalState) :
    (apply op left right).run.run state =
      match Arith.apply op left right with
      | .ok value => (.ok value, state)
      | .error fault => (.error (.arith fault), state) := by
  rw [apply]
  cases Arith.apply op left right <;> rfl

end Eval

private theorem Eval.bind_store {α β : Type} {first : Eval α} {next : α → Eval β}
    (keeps : ∀ es, (first.run.run es).2.store = es.store)
    (later : ∀ value es, ((next value).run.run es).2.store = es.store) (es : EvalState) :
    ((first >>= next).run.run es).2.store = es.store := by
  rw [Eval.run_bind]
  have same := keeps es
  split
  next value after ran =>
    rw [ran] at same
    exact (later value after).trans same
  next stop after ran =>
    rw [ran] at same
    exact same

theorem Expr.eval_store (e : Expr) (es : EvalState) : (e.eval.run.run es).2.store = es.store := by
  induction e generalizing es with
  | absent | hollow | unknown | intLit | varRef => rfl
  | read site =>
    rw [Expr.eval, Eval.run_read]
    split <;> rfl
  | paren site inner ih => exact ih es
  | unary site op operand ih =>
    refine Eval.bind_store ih (fun value es => ?_) es
    cases op <;> rfl
  | binary site form op left right leftIh rightIh =>
    have applies : ∀ l es, ((right.eval >>= fun r => Eval.apply op l r).run.run es).2.store =
        es.store := by
      intro l es
      refine Eval.bind_store rightIh (fun r es => ?_) es
      rw [Eval.run_apply]
      split <;> rfl
    cases form with
    | additive | multiplicative | comparison => exact Eval.bind_store leftIh applies es
    | logicalAnd =>
      refine Eval.bind_store leftIh (fun value es => ?_) es
      split
      · rfl
      · exact rightIh es
    | logicalOr =>
      refine Eval.bind_store leftIh (fun value es => ?_) es
      split
      · exact rightIh es
      · rfl

theorem Expr.store_of_ok {e : Expr} {es after : EvalState} {value : Int32}
    (ran : e.eval.run.run es = (.ok value, after)) : after.store = es.store := by
  have same := e.eval_store es
  rwa [ran] at same

/-- What a machine does from a state on, while an evaluation runs. An evaluation that ends is
imitated up to a state that fits its value, and one that stops up to a state that is stuck. When
the fuel runs out the machine has taken one step for every three units that it owes. -/
def Imitates {σ α : Type} (step : σ → σ → Prop) (stuck : EvalStop → EvalState → σ → Prop)
    (owed : Nat) (eval : Eval α) (before : EvalState) (fits : α → EvalState → σ → Prop)
    (state : σ) : Prop :=
  match eval.run.run before with
  | (.ok value, after) => ∃ k last, Runs step k state last ∧ fits value after last
  | (.error .outOfFuel, _) => ∃ k last, Runs step k state last ∧ owed ≤ 3 * k
  | (.error stop, after) => ∃ k last, Runs step k state last ∧ stuck stop after last

namespace Imitates

variable {σ α β : Type} {step : σ → σ → Prop} {stuck : EvalStop → EvalState → σ → Prop}
  {owed : Nat} {before : EvalState} {state : σ}

theorem of_ok {eval : Eval α} {fits : α → EvalState → σ → Prop} {value : α} {after : EvalState}
    (ends : eval.run.run before = (.ok value, after)) (here : fits value after state) :
    Imitates step stuck owed eval before fits state := by
  rw [Imitates, ends]
  exact ⟨0, state, .refl state, here⟩

theorem of_stop {eval : Eval α} {fits : α → EvalState → σ → Prop} {stop : EvalStop}
    {after : EvalState} (stops : eval.run.run before = (.error stop, after))
    (early : stop ≠ .outOfFuel) (here : stuck stop after state) :
    Imitates step stuck owed eval before fits state := by
  rw [Imitates, stops]
  cases stop with
  | outOfFuel => exact absurd rfl early
  | arith | inputExhausted | stepLimit | unexpectedExpr | brokenTree =>
    exact ⟨0, state, .refl state, here⟩

theorem starved (fits : α → EvalState → σ → Prop) :
    Imitates step stuck 0 (throw .outOfFuel : Eval α) before fits state :=
  ⟨0, state, .refl state, Nat.le_refl 0⟩

/-- Every step pays back three units of fuel. -/
theorem after_run {eval : Eval α} {fits : α → EvalState → σ → Prop} {k : Nat} {next : σ}
    (runs : Runs step k state next)
    (later : Imitates step stuck (owed - 3 * k) eval before fits next) :
    Imitates step stuck owed eval before fits state := by
  unfold Imitates at later ⊢
  split at later
  · obtain ⟨m, last, more, good⟩ := later
    exact ⟨k + m, last, runs.trans more, good⟩
  · obtain ⟨m, last, more, paid⟩ := later
    exact ⟨k + m, last, runs.trans more, by omega⟩
  · obtain ⟨m, last, more, bad⟩ := later
    exact ⟨k + m, last, runs.trans more, bad⟩

theorem after_step {eval : Eval α} {fits : α → EvalState → σ → Prop} {next : σ}
    (here : step state next) (later : Imitates step stuck (owed - 3) eval before fits next) :
    Imitates step stuck owed eval before fits state :=
  after_run (.single here) later

/-- Less may be owed, and the last state may be described less exactly. -/
theorem mono {eval : Eval α} {fits fits' : α → EvalState → σ → Prop} {less : Nat}
    (imitates : Imitates step stuck owed eval before fits state) (le : less ≤ owed)
    (weaker : ∀ value after last, fits value after last → fits' value after last) :
    Imitates step stuck less eval before fits' state := by
  unfold Imitates at imitates ⊢
  split at imitates
  · obtain ⟨k, last, runs, good⟩ := imitates
    exact ⟨k, last, runs, weaker _ _ _ good⟩
  · obtain ⟨k, last, runs, paid⟩ := imitates
    exact ⟨k, last, runs, Nat.le_trans le paid⟩
  · exact imitates

theorem owing_less {eval : Eval α} {fits : α → EvalState → σ → Prop} {less : Nat}
    (imitates : Imitates step stuck owed eval before fits state) (le : less ≤ owed) :
    Imitates step stuck less eval before fits state :=
  imitates.mono le fun _ _ _ good => good

theorem and_step {eval : Eval α} {fits fits' : α → EvalState → σ → Prop}
    (imitates : Imitates step stuck owed eval before fits state)
    (more : ∀ value after last, fits value after last →
      ∃ next, step last next ∧ fits' value after next) :
    Imitates step stuck owed eval before fits' state := by
  unfold Imitates at imitates ⊢
  split at imitates
  · obtain ⟨k, last, runs, good⟩ := imitates
    obtain ⟨next, stepped, better⟩ := more _ _ _ good
    exact ⟨k + 1, next, runs.trans (.single stepped), better⟩
  · exact imitates
  · exact imitates

theorem also {eval : Eval α} {fits : α → EvalState → σ → Prop}
    (imitates : Imitates step stuck owed eval before fits state) (known : α → EvalState → Prop)
    (ends : ∀ value after, eval.run.run before = (.ok value, after) → known value after) :
    Imitates step stuck owed eval before (fun value after last => fits value after last ∧
      known value after) state := by
  unfold Imitates at imitates ⊢
  generalize ran : eval.run.run before = result at imitates ends ⊢
  split at imitates
  next value after =>
    obtain ⟨k, last, runs, good⟩ := imitates
    exact ⟨k, last, runs, good, ends value after rfl⟩
  · exact imitates
  · exact imitates

/-- Evaluations in sequence are imitated one after the other. -/
theorem bind {first : Eval α} {next : α → Eval β} {middle : α → EvalState → σ → Prop}
    {fits : β → EvalState → σ → Prop}
    (imitates : Imitates step stuck owed first before middle state)
    (later : ∀ value after k between, Runs step k state between → middle value after between →
      Imitates step stuck (owed - 3 * k) (next value) after fits between) :
    Imitates step stuck owed (first >>= next) before fits state := by
  rw [Imitates] at imitates
  generalize ran : first.run.run before = result at imitates
  have whole := Eval.run_bind first next before
  rw [ran] at whole
  split at imitates
  · obtain ⟨k, between, runs, good⟩ := imitates
    rw [Imitates, whole]
    exact after_run runs (later _ _ k between runs good)
  · rw [Imitates, whole]
    exact imitates
  next stop after other =>
    rw [Imitates, whole]
    cases stop with
    | outOfFuel => exact absurd rfl other
    | arith | inputExhausted | stepLimit | unexpectedExpr | brokenTree => exact imitates

/-- A part of an evaluation that always ends, and that the machine has nothing to do for. -/
theorem silent {first : Eval α} {next : α → Eval β} {fits : β → EvalState → σ → Prop} {value : α}
    {after : EvalState} (ends : first.run.run before = (.ok value, after))
    (later : Imitates step stuck owed (next value) after fits state) :
    Imitates step stuck owed (first >>= next) before fits state := by
  rw [Imitates, Eval.run_bind, ends]
  exact later

theorem ended {eval : Eval α} {fits : α → EvalState → σ → Prop} {after : EvalState}
    (imitates : Imitates step stuck owed eval before fits state) {value : α}
    (ran : eval.run.run before = (.ok value, after)) :
    ∃ k last, Runs step k state last ∧ fits value after last := by
  rwa [Imitates, ran] at imitates

theorem stopped {eval : Eval α} {fits : α → EvalState → σ → Prop} {after : EvalState}
    (imitates : Imitates step stuck owed eval before fits state) {stop : EvalStop}
    (ran : eval.run.run before = (.error stop, after)) (early : stop ≠ .outOfFuel) :
    ∃ k last, Runs step k state last ∧ stuck stop after last := by
  rw [Imitates, ran] at imitates
  cases stop with
  | outOfFuel => exact absurd rfl early
  | arith | inputExhausted | stepLimit | unexpectedExpr | brokenTree => exact imitates

theorem unfinished {eval : Eval α} {fits : α → EvalState → σ → Prop} {after : EvalState}
    (imitates : Imitates step stuck owed eval before fits state)
    (ran : eval.run.run before = (.error .outOfFuel, after)) :
    ∃ k last, Runs step k state last ∧ owed ≤ 3 * k := by
  rwa [Imitates, ran] at imitates

/-- A machine goes on for ever when no fuel is enough. -/
theorem endless {evals : Nat → Eval α} {fits : α → EvalState → σ → Prop}
    (imitates : ∀ fuel, Imitates step stuck (fuel - 2) (evals fuel) before fits state)
    (starved : ∀ fuel, ((evals fuel).run.run before).1 = .error .outOfFuel) (n : Nat) :
    ∃ k last, Runs step k state last ∧ n ≤ k := by
  rcases ran : (evals (3 * n + 2)).run.run before with ⟨result, after⟩
  obtain rfl : result = .error .outOfFuel := by
    rw [← starved (3 * n + 2), ran]
  obtain ⟨k, last, runs, paid⟩ := (imitates (3 * n + 2)).unfinished ran
  exact ⟨k, last, runs, by omega⟩

/-- A machine that imitates an evaluation with enough fuel does not get to a state where it halts
for another reason than the evaluation does. -/
theorem avoids {eval : Eval α} {fits : α → EvalState → σ → Prop} {k : Nat}
    (imitates : Imitates step stuck (3 * k + 1) eval before fits state)
    (one : ∀ {a b c}, step a b → step a c → b = c) {bad : σ → Prop}
    (halts : ∀ {last next}, bad last → ¬step last next)
    (ends : ∀ {value after last}, fits value after last → ¬bad last ∧ ∀ next, ¬step last next)
    (stops : ∀ {stop after last}, stuck stop after last → ¬bad last ∧ ∀ next, ¬step last next)
    {last : σ} (runs : Runs step k state last) : ¬bad last := by
  intro broken
  -- Both runs end in a state without a next one.
  have same : ∀ {m other}, Runs step m state other → (¬bad other ∧ ∀ next, ¬step other next) →
      False := by
    intro m other others ending
    have le := runs.length_le one (fun _ => halts broken) others
    have ge := others.length_le one ending.2 runs
    obtain rfl : k = m := Nat.le_antisymm ge le
    exact ending.1 (runs.unique one others ▸ broken)
  rcases ran : eval.run.run before with ⟨stop | value, after⟩
  · by_cases starved : stop = .outOfFuel
    · cases starved
      obtain ⟨m, other, others, paid⟩ := imitates.unfinished ran
      have le := runs.length_le one (fun _ => halts broken) others
      omega
    · obtain ⟨m, other, others, here⟩ := imitates.stopped ran starved
      exact same others (stops here)
  · obtain ⟨m, other, others, here⟩ := imitates.ended ran
    exact same others (ends here)

end Imitates

def consoleOf (state : EvalState) : Machine.Console :=
  { input := .numbers state.inputs, printed := state.printed }

theorem consoleOf_read {es : EvalState} {value : Int32} {rest : List Int32}
    (left : es.inputs = value :: rest) :
    (consoleOf es).read = (.ok value, consoleOf { es with inputs := rest }) := by
  simp [Machine.Console.read, consoleOf, left, Machine.Input.read]

theorem consoleOf_exhausted {es : EvalState} (left : es.inputs = []) :
    (consoleOf es).read = (.error .exhausted, consoleOf es) := by
  simp [Machine.Console.read, consoleOf, left, Machine.Input.read, Machine.Input.word]

/-- The number of the fault with which a machine answers a stop. -/
def EvalStop.faultNumber? : EvalStop → Option Nat
  | .arith .divByZero => some 2001
  | .inputExhausted => some 2002
  | _ => none

/-- A run that shows what an evaluation shows: the same prints, the same inputs left, and a fault
of the right number if the evaluation stopped. -/
def Evaluation.ShownBy (evaluation : Evaluation) (run : Machine.Run) : Prop :=
  run.console.output = evaluation.printed ∧ run.console.input = .numbers evaluation.unread ∧
    (evaluation.stop = none ∧ run.ending = .done ∨
      ∃ stop fault, evaluation.stop = some stop ∧ run.ending = .fault fault ∧
        stop.faultNumber? = some fault.cause.number)

def Evaluation.of (result : Except EvalStop Unit × EvalState) : Evaluation where
  printed := result.2.printed.reverse
  unread := result.2.inputs
  stop := match result.1 with
    | .ok _ => none
    | .error stop => some stop

theorem Evaluation.starved {result : Except EvalStop Unit × EvalState}
    (stopped : (Evaluation.of result).stop = some .outOfFuel) : result.1 = .error .outOfFuel := by
  rcases result with ⟨_ | stop, after⟩
  · cases stopped
    rfl
  · cases stopped

theorem Program.eval_eq (program : Program) (fuel : Nat) (inputs : List Int32) :
    program.eval fuel 0 inputs =
      .of ((Stmt.execAll fuel program.stmts).run.run { inputs }) := rfl

end Minilang
