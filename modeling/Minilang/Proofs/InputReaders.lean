import Minilang.Proofs.Imitation

/-! Evaluation with different ways to take inputs. A program stops at the end of its input when it
reads strictly; when it reads leniently a variable keeps its value there, and an expression is
zero. The two agree for as long as there is input. -/

namespace Minilang

/-- How inputs are taken: as the value of an expression, or into a variable. -/
structure Reader where
  value : Eval Int32
  into : Bytes → Eval Unit

/-- The next input, if there is one. -/
def Eval.next? : Eval (Option Int32) := do
  match (← get).inputs with
  | [] => return none
  | value :: rest =>
      modify fun state => { state with inputs := rest }
      return some value

namespace Reader

def strict : Reader where
  value := Eval.read
  into name := do Eval.assign name (← Eval.read)

def lenient : Reader where
  value := return (← Eval.next?).getD 0
  into name := do
    match ← Eval.next? with
    | some value => Eval.assign name value
    | none => return

end Reader

/-- The value of an expression whose inputs are taken in a given way. -/
def Expr.evalBy (reader : Reader) : Expr → Eval Int32
  | .absent => throw .brokenTree
  | .hollow .. => throw .brokenTree
  | .unknown _ => throw (.unexpectedExpr .unknown)
  | .intLit _ _ value => return value
  | .varRef _ name => Eval.lookup name
  | .read _ => reader.value
  | .paren _ inner => inner.evalBy reader
  | .unary _ op operand => do
      let value ← operand.evalBy reader
      match op with
      | .neg => return -value
      | .not => return Arith.ofBool (value == 0)
      | _ => return value
  | .binary _ .logicalAnd _ left right => do
      let value ← left.evalBy reader
      if value = 0 then return value else right.evalBy reader
  | .binary _ .logicalOr _ left right => do
      let value ← left.evalBy reader
      if value = 0 then right.evalBy reader else return value
  | .binary _ _ op left right => do
      let l ← left.evalBy reader
      let r ← right.evalBy reader
      Eval.apply op l r

mutual

def Stmt.execBy (reader : Reader) (fuel : Nat) (s : Stmt) : Eval Unit :=
  match fuel with
  | 0 => throw .outOfFuel
  | fuel + 1 =>
      match s with
      | .absent => throw .brokenTree
      | .hollow .. => throw .brokenTree
      | .unknown _ => return
      | .assign _ name _ value => do Eval.assign name (← value.evalBy reader)
      | .read _ name _ => reader.into name
      | .print _ value => do Eval.print (← value.evalBy reader)
      | .ifElse _ cond thenBody elseBody _ => do
          let value ← cond.evalBy reader
          if value = 0 then Stmt.execAllBy reader fuel elseBody
          else Stmt.execAllBy reader fuel thenBody
      | .whileLoop _ cond body => Stmt.execWhileBy reader fuel cond body
      | .forLoop _ name _ start stop step body => do
          Eval.assign name (← start.evalBy reader)
          let last ← stop.evalBy reader
          let increment ← if step.isAbsent then pure 1 else step.evalBy reader
          Stmt.execForBy reader fuel name last increment body

def Stmt.execAllBy (reader : Reader) (fuel : Nat) (body : List Stmt) : Eval Unit :=
  match fuel with
  | 0 => throw .outOfFuel
  | fuel + 1 =>
      match body with
      | [] => return
      | s :: rest => do
          Stmt.execBy reader fuel s
          Stmt.execAllBy reader fuel rest

def Stmt.execWhileBy (reader : Reader) (fuel : Nat) (cond : Expr) (body : List Stmt) : Eval Unit :=
  match fuel with
  | 0 => throw .outOfFuel
  | fuel + 1 => do
      let value ← cond.evalBy reader
      if value = 0 then return
      else
        Eval.tick
        Stmt.execAllBy reader fuel body
        Stmt.execWhileBy reader fuel cond body

def Stmt.execForBy (reader : Reader) (fuel : Nat) (name : Bytes) (last increment : Int32)
    (body : List Stmt) : Eval Unit :=
  match fuel with
  | 0 => throw .outOfFuel
  | fuel + 1 => do
      if last < (← Eval.lookup name) then return
      else
        Eval.tick
        Stmt.execAllBy reader fuel body
        Eval.assign name ((← Eval.lookup name) + increment)
        Stmt.execForBy reader fuel name last increment body

end

/-- Runs a program with a way to take inputs, without a limit on iterations. -/
def Program.evalBy (program : Program) (reader : Reader) (fuel : Nat) (inputs : List Int32) :
    Evaluation :=
  .of ((Stmt.execAllBy reader fuel program.stmts).run.run { inputs })

theorem Expr.evalBy_strict (e : Expr) : e.evalBy .strict = e.eval := by
  induction e with
  | absent | hollow | unknown | intLit | varRef | read => rfl
  | paren site inner ih => exact ih
  | unary site op operand ih =>
    cases op <;> simp only [Expr.evalBy, Expr.eval, ih]
  | binary site form op left right leftIh rightIh =>
    cases form <;> simp only [Expr.evalBy, Expr.eval, leftIh, rightIh]

/-- All evaluations of statements with some fuel. -/
private theorem Stmt.by_strict (fuel : Nat) :
    (∀ s, Stmt.execBy .strict fuel s = Stmt.exec fuel s) ∧
    (∀ body, Stmt.execAllBy .strict fuel body = Stmt.execAll fuel body) ∧
    (∀ cond body, Stmt.execWhileBy .strict fuel cond body = Stmt.execWhile fuel cond body) ∧
    ∀ name last increment body, Stmt.execForBy .strict fuel name last increment body =
      Stmt.execFor fuel name last increment body := by
  induction fuel with
  | zero => exact ⟨fun _ => rfl, fun _ => rfl, fun _ _ => rfl, fun _ _ _ _ => rfl⟩
  | succ fuel ih =>
    obtain ⟨one, all, loop, count⟩ := ih
    refine ⟨fun s => ?_, fun body => ?_, fun cond body => ?_, fun name last increment body => ?_⟩
    · cases s with
      | absent | hollow | unknown | read => rfl
      | assign | print | ifElse | whileLoop | forLoop =>
        simp only [Stmt.execBy, Stmt.exec, Expr.evalBy_strict, all, loop, count]
    · cases body with
      | nil => rfl
      | cons s rest => simp only [Stmt.execAllBy, Stmt.execAll, one, all]
    · simp only [Stmt.execWhileBy, Stmt.execWhile, Expr.evalBy_strict, all, loop]
    · simp only [Stmt.execForBy, Stmt.execFor, all, count]

theorem Program.evalBy_strict (program : Program) (fuel : Nat) (inputs : List Int32) :
    program.evalBy .strict fuel inputs = program.eval fuel 0 inputs := by
  rw [Program.evalBy, Program.eval_eq, (Stmt.by_strict fuel).2.1]

/-- Two evaluations that are the same unless the first one misses an input. -/
def Eval.Agree {α : Type} (first second : Eval α) : Prop :=
  ∀ es, (first.run.run es).1 ≠ .error .inputExhausted → second.run.run es = first.run.run es

namespace Eval.Agree

variable {α β : Type}

theorem refl (eval : Eval α) : Agree eval eval := fun _ _ => rfl

theorem bind {first second : Eval α} {next other : α → Eval β} (here : Agree first second)
    (later : ∀ value, Agree (next value) (other value)) :
    Agree (first >>= next) (second >>= other) := by
  intro es missed
  rw [Eval.run_bind] at missed ⊢
  rw [Eval.run_bind]
  rcases ran : first.run.run es with ⟨result, after⟩
  rw [ran] at missed
  have same : second.run.run es = (result, after) := by
    rw [← ran]
    refine here es ?_
    rw [ran]
    rintro rfl
    exact missed rfl
  rw [same]
  cases result with
  | error stop => rfl
  | ok value => exact later value after missed

theorem ite {condition : Prop} [Decidable condition] {first second yes no : Eval α}
    (whenTrue : Agree first yes) (whenFalse : Agree second no) :
    Agree (if condition then first else second) (if condition then yes else no) := by
  split
  · exact whenTrue
  · exact whenFalse

end Eval.Agree

/-- Readers that are the same unless the first one misses an input. -/
structure Reader.Agree (first second : Reader) : Prop where
  value : Eval.Agree first.value second.value
  into : ∀ name, Eval.Agree (first.into name) (second.into name)

theorem Reader.strict_lenient : Reader.Agree .strict .lenient where
  value := by
    intro es missed
    rw [show Reader.strict.value = Eval.read from rfl, Eval.run_read] at missed ⊢
    rcases es with ⟨_, _ | ⟨value, rest⟩, _, _, _⟩
    · exact absurd rfl missed
    · rfl
  into name := by
    intro es missed
    rw [show Reader.strict.into name = Eval.read >>= Eval.assign name from rfl, Eval.run_bind,
      Eval.run_read] at missed ⊢
    rcases es with ⟨_, _ | ⟨value, rest⟩, _, _, _⟩
    · exact absurd rfl missed
    · rfl

section

variable {first second : Reader} (readers : first.Agree second)
include readers

theorem Expr.evalBy_agree (e : Expr) : Eval.Agree (e.evalBy first) (e.evalBy second) := by
  induction e with
  | absent | hollow | unknown | intLit | varRef => exact .refl _
  | read => exact readers.value
  | paren site inner ih => exact ih
  | unary site op operand ih => exact ih.bind fun value => .refl _
  | binary site form op left right leftIh rightIh =>
    cases form with
    | additive | multiplicative | comparison =>
      exact leftIh.bind fun l => rightIh.bind fun r => .refl _
    | logicalAnd => exact leftIh.bind fun value => .ite (.refl _) rightIh
    | logicalOr => exact leftIh.bind fun value => .ite rightIh (.refl _)

private theorem Stmt.by_agree (fuel : Nat) :
    (∀ s, Eval.Agree (Stmt.execBy first fuel s) (Stmt.execBy second fuel s)) ∧
    (∀ body, Eval.Agree (Stmt.execAllBy first fuel body) (Stmt.execAllBy second fuel body)) ∧
    (∀ cond body, Eval.Agree (Stmt.execWhileBy first fuel cond body)
      (Stmt.execWhileBy second fuel cond body)) ∧
    ∀ name last increment body, Eval.Agree (Stmt.execForBy first fuel name last increment body)
      (Stmt.execForBy second fuel name last increment body) := by
  have values := fun e => Expr.evalBy_agree readers e
  induction fuel with
  | zero => exact ⟨fun _ => .refl _, fun _ => .refl _, fun _ _ => .refl _, fun _ _ _ _ => .refl _⟩
  | succ fuel ih =>
    obtain ⟨one, all, loop, count⟩ := ih
    refine ⟨fun s => ?_, fun body => ?_, fun cond body => ?_, fun name last increment body => ?_⟩
    · cases s with
      | absent | hollow | unknown => exact .refl _
      | read site name span => exact readers.into name
      | assign site name span value => exact (values value).bind fun _ => .refl _
      | print site value => exact (values value).bind fun _ => .refl _
      | ifElse site cond thenBody elseBody hasElse =>
        exact (values cond).bind fun _ => .ite (all elseBody) (all thenBody)
      | whileLoop site cond body => exact loop cond body
      | forLoop site name span start stop step body =>
        refine (values start).bind fun _ => (Eval.Agree.refl _).bind fun _ =>
          (values stop).bind fun last => ?_
        cases step.isAbsent with
        | true => exact count name last 1 body
        | false => exact (values step).bind fun increment => count name last increment body
    · cases body with
      | nil => exact .refl _
      | cons s rest => exact (one s).bind fun _ => all rest
    · exact (values cond).bind fun _ =>
        .ite (.refl _) ((Eval.Agree.refl _).bind fun _ => (all body).bind fun _ => loop cond body)
    · exact (Eval.Agree.refl _).bind fun _ => .ite (.refl _) <|
        (Eval.Agree.refl _).bind fun _ => (all body).bind fun _ => (Eval.Agree.refl _).bind fun _ =>
          (Eval.Agree.refl _).bind fun _ => count name last increment body

end

/-- A program that does not miss an input means the same when it reads leniently. -/
theorem Program.evalBy_lenient {program : Program} {fuel : Nat} {inputs : List Int32}
    (enough : (program.eval fuel 0 inputs).stop ≠ some .inputExhausted) :
    program.evalBy .lenient fuel inputs = program.eval fuel 0 inputs := by
  rw [← Program.evalBy_strict] at enough ⊢
  rw [Program.evalBy, Program.evalBy]
  refine congrArg Evaluation.of ((Stmt.by_agree Reader.strict_lenient fuel).2.1 program.stmts _ ?_)
  intro missed
  refine enough ?_
  simp only [Program.evalBy, Evaluation.of, missed]

end Minilang
