import Minilang.Proofs.GeneratedClass

/-! The stack that the analysis finds in generated code. At a statement it holds two integers for
each counting loop around it, the code of an expression leaves one integer more than it found, and
nothing is left at the return. -/

namespace Minilang

namespace ClassFile

/-- The stack that the analysis finds at the instruction that follows some steps. -/
def Analysis.StackBehind (analysis : Analysis) (before : List Step) (σ : List VType) : Prop :=
  ∃ method pool i types, mainStart.steps {} before = .ok (method, pool) ∧
    analysis.body.indexOf? method.offset = some i ∧ analysis.states[i]? = some types ∧
    types.stack = σ

/-- The stack that the analysis finds at an instruction. -/
def Analysis.Has (analysis : Analysis) (i : Nat) (σ : List VType) : Prop :=
  ∃ types, analysis.states[i]? = some types ∧ types.stack = σ

section

variable {main : List Step} {analysis : Analysis} {pool : Pool} {target : Nat → Option Nat}
  {entry : TypeState} (typed : analysis.Typed pool entry)
  (real : Realizes main analysis.body pool target) {p : Nat} {σ τ : List VType}
include typed real

/-- What a step hands on to its successors. -/
private theorem Analysis.Has.go {s : Step} (holds : List VType → Prop) (has : analysis.Has p σ)
    (at_ : CodeAt main p [s]) (one : s.size = 1)
    (effect : ∀ (insn : Insn) (types after : TypeState), s.Means pool target insn.action →
      Rule pool insn.offset types insn.action after → types.stack = σ → holds after.stack) :
    ∃ insn next τ, s.Means pool target insn.action ∧ analysis.body.successors p insn = .ok next ∧
      holds τ ∧ ∀ j ∈ next, analysis.Has j τ := by
  obtain ⟨insn, present, means⟩ := real.step p s at_ one
  obtain ⟨types, found, after, next, rule, follow, -, -, received⟩ := typed.handled p insn present
  obtain ⟨again, known, same⟩ := has
  rw [found] at known
  cases known
  refine ⟨insn, next, after.stack, means, follow, effect insn types after means rule same, ?_⟩
  intro j member
  obtain ⟨next, there, covers⟩ := received j member
  exact ⟨next, there, covers.stack⟩

/-- What a step that goes on hands to the next. -/
private theorem Analysis.Has.on {s : Step} (holds : List VType → Prop) (has : analysis.Has p σ)
    (at_ : CodeAt main p [s]) (one : s.size = 1)
    (falls : ∀ action, s.Means pool target action → action.fallsThrough = true)
    (effect : ∀ (insn : Insn) (types after : TypeState), s.Means pool target insn.action →
      Rule pool insn.offset types insn.action after → types.stack = σ → holds after.stack) :
    ∃ τ, holds τ ∧ analysis.Has (p + 1) τ := by
  obtain ⟨insn, next, τ, means, follow, held, handed⟩ := has.go typed real holds at_ one effect
  refine ⟨τ, held, handed _ ?_⟩
  have room : p + 1 < analysis.body.insns.size := by
    have bound := at_.bound
    have size := real.size
    simp only [width_cons, one, width_nil] at bound
    omega
  simp only [Body.successors, falls _ means, if_true, room, Except.ok.injEq] at follow
  rw [← follow]
  simp

/-- The same when the stack behind the step is known. -/
private theorem Analysis.Has.onto {s : Step} (has : analysis.Has p σ) (at_ : CodeAt main p [s])
    (one : s.size = 1) (falls : ∀ action, s.Means pool target action → action.fallsThrough = true)
    (effect : ∀ (insn : Insn) (types after : TypeState), s.Means pool target insn.action →
      Rule pool insn.offset types insn.action after → types.stack = σ → after.stack = τ) :
    analysis.Has (p + 1) τ := by
  obtain ⟨_, rfl, next⟩ := has.on typed real (· = τ) at_ one falls effect
  exact next

private theorem Analysis.Has.push {value : Int32} (has : analysis.Has p σ)
    (at_ : CodeAt main p [.push value]) : analysis.Has (p + 1) (.int :: σ) := by
  refine has.onto typed real at_ rfl ?_ ?_
  · rintro action (rfl | ⟨i, rfl, -⟩) <;> rfl
  · rintro insn types after (same | ⟨i, same, found⟩) rule rfl <;> rw [same] at rule
    · cases rule
      rfl
    · cases rule with
      | integer => rfl
      | string other =>
        rw [found] at other
        cases other

private theorem Analysis.Has.load {slot : Int} (has : analysis.Has p σ)
    (at_ : CodeAt main p [.localVar .iload slot]) : analysis.Has (p + 1) (.int :: σ) := by
  refine has.onto typed real at_ rfl ?_ ?_
  · rintro action rfl
    rfl
  · rintro insn types after same rule rfl
    rw [show insn.action = .intLoad slot.toNat from same] at rule
    cases rule
    rfl

private theorem Analysis.Has.read (has : analysis.Has p σ) (at_ : CodeAt main p readCode) :
    analysis.Has (p + 2) (.int :: σ) := by
  have scanner : ∃ τ, (∃ name, τ = .object name :: σ) ∧ analysis.Has (p + 1) τ := by
    refine has.on typed real _ at_.head rfl ?_ ?_
    · rintro action rfl
      rfl
    · rintro insn types after same rule rfl
      rw [show insn.action = .refLoad 0 from same] at rule
      cases rule
      exact ⟨_, rfl⟩
  obtain ⟨_, ⟨name, rfl⟩, has⟩ := scanner
  refine has.onto typed real at_.tail rfl ?_ ?_
  · rintro action ⟨i, rfl, -⟩
    rw [does_invokeVirtual]
    rfl
  · rintro insn types after ⟨i, same, names⟩ rule stack
    rw [same, does_invokeVirtual] at rule
    have known : methodType nextInt.descriptor = .ok ([], some .int) := rfl
    cases rule with
    | call found described fits =>
      rw [names.member] at found
      cases found
      rw [known] at described
      cases described
      cases fits
      cases stack
      rfl

private theorem Analysis.Has.negate (has : analysis.Has p (.int :: σ))
    (at_ : CodeAt main p [.insn .ineg]) : analysis.Has (p + 1) (.int :: σ) := by
  refine has.onto typed real at_ rfl ?_ ?_
  · rintro action rfl
    rfl
  · rintro insn types after same rule stack
    rw [show insn.action = .negate from same] at rule
    cases rule
    exact stack

private theorem Analysis.Has.compute {op : Op} {code : Opcode} (found : arithmetic? op = some code)
    (has : analysis.Has p (.int :: .int :: σ)) (at_ : CodeAt main p [.insn code]) :
    analysis.Has (p + 1) (.int :: σ) := by
  obtain ⟨kind, does⟩ := does_arithmetic found
  refine has.onto typed real at_ rfl ?_ ?_
  · rintro action rfl
    rw [does]
    rfl
  · rintro insn types after same rule stack
    rw [show insn.action = code.does 0 from same, does] at rule
    cases rule
    exact (List.cons.inj stack).2

private theorem Analysis.Has.dup (has : analysis.Has p (.int :: σ))
    (at_ : CodeAt main p [.insn .dup]) : analysis.Has (p + 1) (.int :: .int :: σ) := by
  refine has.onto typed real at_ rfl ?_ ?_
  · rintro action rfl
    rfl
  · rintro insn types after same rule stack
    rw [show insn.action = .shuffle .dup from same] at rule
    cases rule with
    | shuffle done =>
      cases stack
      exact (Option.some.inj done).symm

private theorem Analysis.Has.pop (has : analysis.Has p (.int :: σ))
    (at_ : CodeAt main p [.insn .pop]) : analysis.Has (p + 1) σ := by
  refine has.onto typed real at_ rfl ?_ ?_
  · rintro action rfl
    rfl
  · rintro insn types after same rule stack
    rw [show insn.action = .shuffle .pop from same] at rule
    cases rule with
    | shuffle done =>
      cases stack
      exact (Option.some.inj done).symm

private theorem Analysis.Has.branchZero {cond : Cond} {label : Nat}
    (has : analysis.Has p (.int :: σ)) (at_ : CodeAt main p [.jump (.ifZero cond) label]) :
    analysis.Has (p + 1) σ := by
  refine has.onto typed real at_ rfl ?_ ?_
  · rintro action ⟨place, -, rfl⟩
    rw [does_ifZero]
    rfl
  · rintro insn types after ⟨place, -, same⟩ rule stack
    rw [same, does_ifZero] at rule
    cases rule
    exact (List.cons.inj stack).2

private theorem Analysis.Has.branchInts {cond : Cond} {label : Nat}
    (has : analysis.Has p (.int :: .int :: σ)) (at_ : CodeAt main p [.jump (.ifInts cond) label]) :
    analysis.Has (p + 1) σ := by
  refine has.onto typed real at_ rfl ?_ ?_
  · rintro action ⟨place, -, rfl⟩
    rw [does_ifInts]
    rfl
  · rintro insn types after ⟨place, -, same⟩ rule stack
    rw [same, does_ifInts] at rule
    cases rule
    exact (List.cons.inj (List.cons.inj stack).2).2

private theorem Analysis.Has.goto {label q : Nat} (has : analysis.Has p σ)
    (at_ : CodeAt main p [.jump .goto label]) (mark : CodeAt main q [.mark label]) :
    analysis.Has q σ := by
  have effect : ∀ (insn : Insn) (types after : TypeState),
      (Step.jump .goto label).Means pool target insn.action →
      Rule pool insn.offset types insn.action after → types.stack = σ → after.stack = σ := by
    rintro insn types after ⟨place, -, same⟩ rule stack
    rw [show insn.action = .goto place from same] at rule
    cases rule
    exact stack
  obtain ⟨insn, next, _, ⟨place, bound, does⟩, follow, rfl, handed⟩ :=
    has.go typed real (· = σ) at_ rfl effect
  refine handed q ?_
  obtain ⟨other, marked, found⟩ := real.mark q label mark
  rw [bound] at marked
  cases marked
  have action : insn.action = .goto place := does
  simp only [Body.successors, action, Action.target?, Action.fallsThrough, Option.bind_some, found,
    Option.toList_some, Bool.false_eq_true, if_false, Except.ok.injEq] at follow
  rw [← follow]
  exact List.mem_singleton_self q

/-- A truth value leaves its integer on what was below the operands. -/
private theorem Analysis.Has.truth {op : Opcode} {n : Nat} (at_ : CodeAt main p (truthCode op n))
    (falls : analysis.Has (p + 1) σ) : analysis.Has (p + 4) (.int :: σ) := by
  have pushed : analysis.Has (p + 2) (.int :: σ) := falls.push typed real at_.tail.head
  have skip : CodeAt main (p + 2) [.jump .goto (n + 1)] := at_.tail.tail.head
  have done : CodeAt main (p + 4) [.mark (n + 1)] := at_.tail.tail.tail.tail.tail.head
  exact pushed.goto typed real skip done

end

end ClassFile

open ClassFile

section

variable {main : List Step} {analysis : Analysis} {pool : Pool} {target : Nat → Option Nat}
  {entry : TypeState}

/-- The code of an expression leaves exactly one more integer than it found. -/
theorem Expr.leaves_int {isName : Bytes → Prop} (typed : analysis.Typed pool entry)
    (real : Realizes main analysis.body pool target) (vars : Variables) (e : Expr)
    (proper : e.Proper isName) {n p : Nat} {σ : List VType} (at_ : CodeAt main p (e.code vars n))
    (has : analysis.Has p σ) : analysis.Has (p + width (e.code vars n)) (.int :: σ) := by
  induction e generalizing n p σ with
  | absent | hollow | unknown => exact proper.elim
  | intLit site text value => exact has.push typed real at_
  | varRef site name =>
    rw [Expr.code] at at_ ⊢
    split at at_
    next known =>
      rw [if_pos known]
      exact has.load typed real at_
    next unknown =>
      rw [if_neg unknown]
      exact has.push typed real at_
  | read site => exact has.read typed real at_
  | paren site inner ih => exact ih proper at_ has
  | unary site op operand ih =>
    obtain ⟨which, inner⟩ := proper
    rcases which with rfl | rfl | rfl
    · simp only [Expr.code, List.append_nil] at at_ ⊢
      exact ih inner at_ has
    · simp only [Expr.code, width_append, ← Nat.add_assoc] at at_ ⊢
      exact (ih inner at_.left has).negate typed real at_.right
    · simp only [Expr.code, width_append, ← Nat.add_assoc, width_truthCode] at at_ ⊢
      have falls := (ih inner at_.left has).branchZero typed real at_.right.head
      exact falls.truth typed real at_.right
  | binary site form op left right leftIh rightIh =>
    obtain ⟨admits, first, second⟩ := proper
    cases form with
    | additive | multiplicative =>
      obtain ⟨code, found⟩ := arithmetic?_isSome admits (by simp)
      simp only [Expr.code, found, Option.map_some, Option.toList_some, width_append,
        ← Nat.add_assoc] at at_ ⊢
      have both := rightIh second at_.left.right (leftIh first at_.left.left has)
      have last := at_.right
      rw [width_append, ← Nat.add_assoc] at last
      exact both.compute typed real found last
    | comparison =>
      obtain ⟨cond, found⟩ := condition?_isSome admits
      simp only [Expr.code, found, width_append, ← Nat.add_assoc, width_truthCode] at at_ ⊢
      have both := rightIh second at_.left.right (leftIh first at_.left.left has)
      have last := at_.right
      rw [width_append, ← Nat.add_assoc] at last
      exact (both.branchInts typed real last.head).truth typed real last
    | logicalAnd | logicalOr =>
      simp only [Expr.code, List.append_assoc, List.cons_append, List.nil_append] at at_ ⊢
      have code := at_.right
      have dup := (leftIh first at_.left has).dup typed real code.head
      have rest := (dup.branchZero typed real code.tail.head).pop typed real code.tail.tail.head
      have whole := rightIh second code.tail.tail.tail.left rest
      simpa [Step.size, Nat.add_assoc, Nat.add_comm, Nat.add_left_comm] using whole

end

/-- The code of a conditional or a loop up to its test; a test that fails goes to `no`. -/
def testHead (vars : Variables) (lineOf : Option (Span → Nat)) (site : Site) (marks : List Step)
    (cond : Expr) (n no : Nat) : List Step :=
  lineCode lineOf site ++ (marks ++ (cond.code vars n ++ [Step.jump (.ifZero .eq) no]))

/-- The code of a counting loop up to its body. -/
def countHead (vars : Variables) (lineOf : Option (Span → Nat)) (site : Site) (name : Bytes)
    (start stop step : Expr) (n : Nat) : List Step :=
  lineCode lineOf site ++ (start.code vars (n + 2) ++
    (Step.insn .dup :: Step.localVar .istore (slotOf vars name) ::
      (stop.code vars (n + 2 + start.labels) ++
        (step.stepCode vars (n + 2 + start.labels + stop.labels) ++
          [Step.insn .swap, .insn .dup2X1, .insn .pop2, .mark n, .insn .swap, .insn .dupX1,
            .jump (.ifInts .gt) (n + 1)]))))

/-- `BodyAt program vars lineOf k before n list`: the statements stand in the program inside `k`
bodies of counting loops, and their code is emitted after the steps `before`, when `n` labels have
been made. -/
inductive BodyAt (program : Program) (vars : Variables) (lineOf : Option (Span → Nat)) :
    Nat → List Step → Nat → List Stmt → Prop where
  | program : BodyAt program vars lineOf 0 (prologueCode vars) 0 program.stmts
  | rest {k n before s rest} (at_ : BodyAt program vars lineOf k before n (s :: rest)) :
      BodyAt program vars lineOf k (before ++ s.code vars lineOf n) (n + s.labels) rest
  | onlyThen {k n before site cond yes no rest}
      (at_ : BodyAt program vars lineOf k before n (.ifElse site cond yes no false :: rest)) :
      BodyAt program vars lineOf k (before ++ testHead vars lineOf site [] cond (n + 1) n)
        (n + 1 + cond.labels) yes
  | thenBody {k n before site cond yes no rest}
      (at_ : BodyAt program vars lineOf k before n (.ifElse site cond yes no true :: rest)) :
      BodyAt program vars lineOf k (before ++ testHead vars lineOf site [] cond (n + 2) (n + 1))
        (n + 2 + cond.labels) yes
  | elseBody {k n before site cond yes no rest}
      (at_ : BodyAt program vars lineOf k before n (.ifElse site cond yes no true :: rest)) :
      BodyAt program vars lineOf k
        (before ++ (testHead vars lineOf site [] cond (n + 2) (n + 1) ++
          (Stmt.allCode vars lineOf (n + 2 + cond.labels) yes ++
            [Step.jump .goto n, .mark (n + 1)])))
        (n + 2 + cond.labels + Stmt.allLabels yes) no
  | whileBody {k n before site cond inner rest}
      (at_ : BodyAt program vars lineOf k before n (.whileLoop site cond inner :: rest)) :
      BodyAt program vars lineOf k
        (before ++ testHead vars lineOf site [.mark n] cond (n + 2) (n + 1))
        (n + 2 + cond.labels) inner
  | forBody {k n before site name span start stop step inner rest}
      (at_ : BodyAt program vars lineOf k before n
        (.forLoop site name span start stop step inner :: rest)) :
      BodyAt program vars lineOf (k + 1)
        (before ++ countHead vars lineOf site name start stop step n)
        (n + 2 + start.labels + stop.labels + step.labels) inner

private theorem Stmt.forLoop_shapes (σ : List VType) (site : Site) (name : Bytes) (span : Span)
    (start stop step : Expr) (inner : List Stmt) :
    (Stmt.forLoop site name span start stop step inner).shapes σ =
      (start.shapes σ ++ (.int :: σ) :: (.int :: .int :: σ) :: (stop.shapes (.int :: σ) ++
        (step.stepShapes (.int :: .int :: σ) ++
          [.int :: .int :: .int :: σ, .int :: .int :: .int :: σ,
            .int :: .int :: .int :: .int :: .int :: σ, .int :: .int :: .int :: σ,
            .int :: .int :: .int :: σ, .int :: .int :: .int :: .int :: σ]))) ++
      (Stmt.allShapes (.int :: .int :: σ) inner ++
        [.int :: .int :: σ, .int :: .int :: σ, .int :: .int :: .int :: σ,
          .int :: .int :: .int :: .int :: σ, .int :: .int :: .int :: σ,
          .int :: .int :: .int :: .int :: σ, .int :: .int :: .int :: σ, .int :: .int :: σ]) := by
  simp [Stmt.shapes]

/-- The code and the stacks of statements that stand behind some steps. -/
structure Placed (program : Program) (vars : Variables) (lineOf : Option (Span → Nat))
    (typing : Nat → TypeState) (σ : List VType) (before : List Step) (n : Nat) (list : List Stmt) :
    Prop where
  code : ∃ after, program.code vars lineOf = before ++ (Stmt.allCode vars lineOf n list ++ after)
  proper : Stmt.AllProper (fun _ => True) list
  follows : ∃ more, Follows typing (localsAfter vars.size vars.size) (width before)
    (Stmt.allShapes σ list ++ σ :: more)

section

variable {program : Program} {vars : Variables} {lineOf : Option (Span → Nat)}
  {typing : Nat → TypeState} {σ τ : List VType} {before : List Step} {n : Nat} {s : Stmt}
  {rest : List Stmt}

/-- The statements behind the first. -/
private theorem Placed.later (placed : Placed program vars lineOf typing σ before n (s :: rest)) :
    Placed program vars lineOf typing σ (before ++ s.code vars lineOf n) (n + s.labels) rest := by
  obtain ⟨⟨after, code⟩, proper, more, follows⟩ := placed
  refine ⟨⟨after, by simp [code, Stmt.allCode]⟩, proper.2, more, ?_⟩
  rw [Stmt.allShapes, List.append_assoc] at follows
  have later := follows.right
  rwa [s.length_shapes vars lineOf proper.1 n, ← width_append] at later

/-- Statements inside the first, whose code and stacks stand inside those of the first. -/
private theorem Placed.inside (placed : Placed program vars lineOf typing σ before n (s :: rest))
    {first last : List Step} {m : Nat} {inner : List Stmt} {low high : List (List VType)}
    (code : s.code vars lineOf n = first ++ (Stmt.allCode vars lineOf m inner ++ last))
    (shapes : s.shapes σ = low ++ (Stmt.allShapes τ inner ++ high))
    (length : low.length = width first) (proper : Stmt.AllProper (fun _ => True) inner)
    (ends : ∃ more, high ++ [σ] = τ :: more) :
    Placed program vars lineOf typing τ (before ++ first) m inner := by
  obtain ⟨⟨after, whole⟩, all, more, follows⟩ := placed
  obtain ⟨next, ends⟩ := ends
  obtain ⟨others, starts⟩ := Stmt.allShapes_head rest all.2 σ more
  refine ⟨⟨last ++ (Stmt.allCode vars lineOf (n + s.labels) rest ++ after), ?_⟩, proper,
    next ++ others, ?_⟩
  · simp only [whole, Stmt.allCode, code, List.append_assoc]
  · have join : high ++ σ :: others = τ :: (next ++ others) := by
      rw [← List.cons_append, ← ends]
      simp
    rw [Stmt.allShapes, List.append_assoc, starts, shapes, List.append_assoc, List.append_assoc,
      join] at follows
    have later := follows.right
    rwa [length, ← width_append] at later

/-- Where statements stand, the stack holds two integers for each counting loop around them. -/
theorem BodyAt.placed {k : Nat} {list : List Stmt} (at_ : BodyAt program vars lineOf k before n list)
    (proper : Stmt.AllProper (fun _ => True) program.stmts) (raw : Nat) :
    Placed program vars lineOf (mainTyping vars.size raw program.shapes)
      (List.replicate (2 * k) .int) before n list := by
  induction at_ with
  | program =>
    have follows := mainTyping_follows vars.size raw program.shapes
    rw [← width_prologueCode] at follows
    exact ⟨⟨[], by simp [Program.code]⟩, proper, [], follows⟩
  | rest at_ ih => exact ih.later
  | @onlyThen k n before site cond yes no rest at_ ih =>
    obtain ⟨test, inner, -⟩ := ih.proper.1
    have code : (Stmt.ifElse site cond yes no false).code vars lineOf n =
        testHead vars lineOf site [] cond (n + 1) n ++
          (Stmt.allCode vars lineOf (n + 1 + cond.labels) yes ++ [Step.mark n]) := by
      simp [Stmt.code, testHead]
    have shapes : ∀ σ, (Stmt.ifElse site cond yes no false).shapes σ =
        (cond.shapes σ ++ [.int :: σ]) ++ (Stmt.allShapes σ yes ++ []) := by
      simp [Stmt.shapes]
    refine ih.inside code (shapes _) ?_ inner ⟨[], rfl⟩
    simp [testHead, cond.length_shapes vars test (n + 1), Step.size]
  | @thenBody k n before site cond yes no rest at_ ih =>
    obtain ⟨test, inner, -, -⟩ := ih.proper.1
    have code : (Stmt.ifElse site cond yes no true).code vars lineOf n =
        testHead vars lineOf site [] cond (n + 2) (n + 1) ++
          (Stmt.allCode vars lineOf (n + 2 + cond.labels) yes ++
            (Step.jump .goto n :: Step.mark (n + 1) ::
              (Stmt.allCode vars lineOf (n + 2 + cond.labels + Stmt.allLabels yes) no ++
                [Step.mark n]))) := by
      simp [Stmt.code, testHead]
    have shapes : ∀ σ, (Stmt.ifElse site cond yes no true).shapes σ =
        (cond.shapes σ ++ [.int :: σ]) ++ (Stmt.allShapes σ yes ++ σ :: Stmt.allShapes σ no) := by
      simp [Stmt.shapes]
    refine ih.inside code (shapes _) ?_ inner ⟨_, rfl⟩
    simp [testHead, cond.length_shapes vars test (n + 2), Step.size]
  | @elseBody k n before site cond yes no rest at_ ih =>
    obtain ⟨test, first, inner, -⟩ := ih.proper.1
    have code : (Stmt.ifElse site cond yes no true).code vars lineOf n =
        (testHead vars lineOf site [] cond (n + 2) (n + 1) ++
          (Stmt.allCode vars lineOf (n + 2 + cond.labels) yes ++
            [Step.jump .goto n, .mark (n + 1)])) ++
          (Stmt.allCode vars lineOf (n + 2 + cond.labels + Stmt.allLabels yes) no ++
            [Step.mark n]) := by
      simp [Stmt.code, testHead]
    have shapes : ∀ σ, (Stmt.ifElse site cond yes no true).shapes σ =
        (cond.shapes σ ++ (.int :: σ) :: (Stmt.allShapes σ yes ++ [σ])) ++
          (Stmt.allShapes σ no ++ []) := by
      simp [Stmt.shapes]
    refine ih.inside code (shapes _) ?_ inner ⟨[], rfl⟩
    simp [testHead, cond.length_shapes vars test (n + 2), Step.size,
      Stmt.length_allShapes vars lineOf yes first (n + 2 + cond.labels)]
    omega
  | @whileBody k n before site cond inner rest at_ ih =>
    obtain ⟨test, inside⟩ := ih.proper.1
    have code : (Stmt.whileLoop site cond inner).code vars lineOf n =
        testHead vars lineOf site [.mark n] cond (n + 2) (n + 1) ++
          (Stmt.allCode vars lineOf (n + 2 + cond.labels) inner ++
            [Step.jump .goto n, .mark (n + 1)]) := by
      simp [Stmt.code, testHead]
    have shapes : ∀ σ, (Stmt.whileLoop site cond inner).shapes σ =
        (cond.shapes σ ++ [.int :: σ]) ++ (Stmt.allShapes σ inner ++ [σ]) := by
      simp [Stmt.shapes]
    refine ih.inside code (shapes _) ?_ inside ⟨_, rfl⟩
    simp [testHead, cond.length_shapes vars test (n + 2), Step.size]
  | @forBody k n before site name span start stop step inner rest at_ ih =>
    obtain ⟨-, first, last, increment, inside⟩ := ih.proper.1
    have two : List.replicate (2 * (k + 1)) VType.int =
        .int :: .int :: List.replicate (2 * k) .int := rfl
    rw [two]
    have code : (Stmt.forLoop site name span start stop step inner).code vars lineOf n =
        countHead vars lineOf site name start stop step n ++
          (Stmt.allCode vars lineOf (n + 2 + start.labels + stop.labels + step.labels) inner ++
            [Step.insn .swap, .insn .dupX1, .localVar .iload (slotOf vars name), .insn .iadd,
              .insn .dup, .localVar .istore (slotOf vars name), .jump .goto n, .mark (n + 1),
              .insn .pop2]) := by
      simp [Stmt.code, countHead]
    refine ih.inside code (Stmt.forLoop_shapes _ site name span start stop step inner) ?_ inside
      ⟨_, rfl⟩
    simp [countHead, start.length_shapes vars first (n + 2),
      stop.length_shapes vars last (n + 2 + start.labels),
      Expr.length_stepShapes vars increment (n + 2 + start.labels + stop.labels), Step.size]
    omega

end

theorem ClassFile.Method.steps_append (method : Method) (pool : Pool) (first second : List Step) :
    method.steps pool (first ++ second) =
      match method.steps pool first with
      | .error fault => .error fault
      | .ok (middle, grown) => middle.steps grown second := by
  induction first generalizing method pool with
  | nil => rfl
  | cons s rest ih =>
    simp only [List.cons_append, Method.steps]
    cases method.step pool s with
    | error fault => rfl
    | ok next => exact ih next.1 next.2

section

variable {program : Program} {vars : Variables} {lineOf : Option (Span → Nat)} {main : Method}
  {pool larger : Pool} {code : Bytes} {analysis : Analysis}

/-- What the analysis finds at an index, it finds where the steps before that index end. -/
theorem Program.Analyzed.behind (analyzed : program.Analyzed vars lineOf main larger code analysis)
    (lowerable : program.Lowerable vars) (few : vars.size ≤ 65535)
    (steps : mainStart.steps {} (program.code vars lineOf ++ [Step.insn .ret]) = .ok (main, pool))
    (assembled : program.Assembled vars lineOf main larger) (extends_ : pool.Extends larger)
    {before after : List Step} (split : program.code vars lineOf = before ++ after)
    {σ : List VType} (has : analysis.Has (width before) σ) : analysis.StackBehind before σ := by
  have labelled := Program.labelled lowerable.sound lineOf lowerable.proper lowerable.known
  have usual : ∀ s ∈ after ++ [Step.insn .ret], s.Usual := by
    intro s member
    refine (labelled.generated s ?_).usual few
    rw [split, List.append_assoc]
    exact List.mem_append_right _ member
  rw [split, List.append_assoc, Method.steps_append] at steps
  cases front : mainStart.steps {} before with
  | error fault =>
    rw [front] at steps
    cases steps
  | ok result =>
    obtain ⟨method, grown⟩ := result
    rw [front] at steps
    obtain ⟨soundHere, -, did⟩ := Method.steps_did Pool.sound_empty front
    obtain ⟨-, more, -⟩ := Method.steps_did soundHere steps
    have offset : method.offset = (codeBytes larger before).length := by
      have code := (did larger assembled.sound (more.trans extends_) assembled.fits).1.code
      rw [Method.offset, ← Array.length_toList, code]
      rfl
    have decoded := analyzed.decoded
    rw [split, List.append_assoc] at decoded
    obtain ⟨insn, present, start⟩ := decoded.start (by simp [Step.size]) usual
    obtain ⟨insns, decodes, -, body, -⟩ := analyze_typed analyzed.analyzed
    have there : insns[width before]? = some insn := by
      rw [body, Array.getElem?_toList] at present
      exact present
    have index := Body.ofInsns_indexOf?_at (decode_tiles decodes).offsets_nodup there
    obtain ⟨types, found, stack⟩ := has
    refine ⟨method, grown, width before, types, front, ?_, found, stack⟩
    rw [body, offset, ← Nat.zero_add (codeBytes larger before).length, ← start]
    exact index

theorem Program.Analyzed.has (analyzed : program.Analyzed vars lineOf main larger code analysis)
    {p : Nat} (inside : p ≤ width (program.code vars lineOf)) : ∃ σ, analysis.Has p σ := by
  have bound : p < analysis.states.size := by
    rw [analyzed.size, analyzed.real.size]
    omega
  exact ⟨_, _, Array.getElem?_eq_getElem bound, rfl⟩

end

/-- The class that a program is written to. -/
def Program.draft (main : Method) (pool : Pool) (options : ClassOptions) : Draft :=
  { name := options.name, sourceFile := options.sourceFile, pool, methods := #[main] }

theorem Program.toClass_eq {program : Program} {vars : Variables} {options : ClassOptions}
    {steps : List Step} {main : Method} {pool : Pool}
    (lowered : (program.toSteps vars options.lineOf).1 = .ok steps)
    (assembled : mainStart.steps {} steps = .ok (main, pool)) {bytes : Bytes} :
    (program.toClass vars options).1 = .ok bytes ↔
      (Program.draft main pool options).bytes = .ok bytes := by
  rcases result : program.toSteps vars options.lineOf with ⟨outcome, reports⟩
  rw [result] at lowered
  simp only at lowered
  subst lowered
  have again : (Method.make 0x9 "main" mainDescriptor [mainArgument]).steps {} steps =
      .ok (main, pool) := assembled
  simp only [Program.toClass, result, again]
  change _ ↔ Draft.bytes { name := options.name, sourceFile := options.sourceFile, pool, methods := #[main] } = .ok bytes
  cases Draft.bytes { name := options.name, sourceFile := options.sourceFile, pool, methods := #[main] } with
  | error fault => simp
  | ok written => simp

section

variable {program : Program} {vars : Variables} {target : ClassOptions}

/-- The stacks that the analysis of a written program finds. -/
private theorem Program.Analyzed.stacks {main : Method} {pool larger : Pool} {code : Bytes}
    {analysis : Analysis}
    (analyzed : program.Analyzed vars target.lineOf main larger code analysis)
    (lowerable : program.Lowerable vars) (few : vars.size ≤ 65535)
    (steps : mainStart.steps {} (program.code vars target.lineOf ++ [Step.insn .ret]) =
      .ok (main, pool))
    (assembled : program.Assembled vars target.lineOf main larger)
    (extends_ : pool.Extends larger) :
    (∀ k before n s rest, BodyAt program vars target.lineOf k before n (s :: rest) →
      analysis.StackBehind before (List.replicate (2 * k) .int)) ∧
    (∀ e n before after, Expr.Proper (fun _ => True) e →
      program.code vars target.lineOf = before ++ e.code vars n ++ after →
        ∃ σ, analysis.StackBehind before σ ∧
          analysis.StackBehind (before ++ e.code vars n) (.int :: σ)) ∧
    analysis.StackBehind (program.code vars target.lineOf) [] := by
  obtain ⟨raw, covers⟩ := analyzed.found
  have follows := mainTyping_follows vars.size raw program.shapes
  -- The stack of the typing is the one that was found.
  have reads : ∀ {p : Nat} {σ : List VType}, p ≤ width (program.code vars target.lineOf) →
      mainTyping vars.size raw program.shapes p = ⟨localsAfter vars.size vars.size, σ⟩ →
      analysis.Has p σ := by
    intro p σ inside typing
    obtain ⟨_, types, found, rfl⟩ := analyzed.has inside
    have above := covers p types found
    rw [typing] at above
    exact ⟨types, found, above.stack.symm⟩
  refine ⟨?_, ?_, ?_⟩
  · intro k before n s rest at_
    obtain ⟨⟨after, split⟩, proper, more, shapes⟩ := at_.placed lowerable.proper raw
    refine analyzed.behind lowerable few steps assembled extends_ split (reads ?_ ?_)
    · rw [split, width_append]
      exact Nat.le_add_right _ _
    · exact Stmt.follows_start proper shapes
  · intro e n before after proper split
    obtain ⟨insns, -, -, -, typed⟩ := analyze_typed analyzed.analyzed
    have at_ : CodeAt (program.code vars target.lineOf) (width before) (e.code vars n) :=
      ⟨before, after, split, rfl⟩
    obtain ⟨σ, has⟩ := analyzed.has ((Nat.le_add_right _ _).trans at_.bound)
    have leaves := e.leaves_int typed analyzed.real vars proper at_ has
    rw [← width_append] at leaves
    have whole : program.code vars target.lineOf = before ++ (e.code vars n ++ after) := by
      rw [split, List.append_assoc]
    exact ⟨σ, analyzed.behind lowerable few steps assembled extends_ whole has,
      analyzed.behind lowerable few steps assembled extends_ split leaves⟩
  · have whole : program.code vars target.lineOf = program.code vars target.lineOf ++ [] :=
      (List.append_nil _).symm
    refine analyzed.behind lowerable few steps assembled extends_ whole (reads (Nat.le_refl _) ?_)
    have total : width (program.code vars target.lineOf) =
        5 + 2 * vars.size + (Stmt.allShapes [] program.stmts).length := by
      rw [Program.code, width_append, width_prologueCode,
        Stmt.length_allShapes vars target.lineOf program.stmts lowerable.proper 0]
    rw [total]
    exact follows.right.head

/-- Stack discipline: code that keeps within the limits of the format is accepted, and the analysis
finds two integers on the stack for each counting loop around a statement, one more integer behind
an expression, and nothing at the return. -/
theorem Program.stack_discipline {options : ParseOptions} {file : SourceFile}
    (target : ClassOptions) (parsed : program = (Program.parse options file.tokens).program)
    (collected : vars = Variables.ofProgram program) (few : vars.size ≤ 65535) :
    ∃ body main pool,
      (program.toSteps vars target.lineOf).1 = .ok (body ++ [Step.insn .ret]) ∧
      mainStart.steps {} (body ++ [Step.insn .ret]) = .ok (main, pool) ∧
      (main.code.size ≤ 65535 → main.Near → ∃ bytes code analysis,
        (program.toClass vars target).1 = .ok bytes ∧ main.resolve = .ok code ∧
        analyze code (Program.draft main pool target).namedPool main.init main.maxLocals =
          .ok analysis ∧
        (∀ k before n s rest, BodyAt program vars target.lineOf k before n (s :: rest) →
          analysis.StackBehind before (List.replicate (2 * k) .int)) ∧
        (∀ e n before after, Expr.Proper (fun _ => True) e →
          body = before ++ e.code vars n ++ after → ∃ σ, analysis.StackBehind before σ ∧
            analysis.StackBehind (before ++ e.code vars n) (.int :: σ)) ∧
        analysis.StackBehind body []) := by
  have lowerable : program.Lowerable vars := by
    rw [collected, parsed]
    exact Program.parse_lowerable options file.tokens
  obtain ⟨main, pool, steps⟩ := lowerable.assembles few target.lineOf
  have lowered := Program.toSteps_eq lowerable.proper lowerable.known few target.lineOf
  refine ⟨program.code vars target.lineOf, main, pool, lowered, steps, fun short near => ?_⟩
  have same : (Program.draft main pool target).pool = pool := rfl
  obtain ⟨code, resolved⟩ := lowerable.resolves steps short near
  obtain ⟨analysis, written⟩ := lowerable.written steps few resolved same rfl
  refine ⟨_, code, analysis, (Program.toClass_eq lowered steps).mpr written.bytes, resolved, ?_,
    written.analyzed.stacks lowerable few steps written.assembled written.extends_⟩
  rw [written.assembled.did.signature.2.2.2, (written.assembled.room lowerable few).2.1]
  exact written.analyzed.analyzed

/-- A loop that prints: its code is short, so it has a class. -/
theorem Program.loop_keeps_stack :
    let file := SourceFile.make 0 "" "while 0 { print 1; }" {}
    let program := (Program.parse {} file.tokens).program
    let vars := Variables.ofProgram program
    ∃ bytes, (program.toClass vars {}).1 = .ok bytes := by
  intro file program vars
  have few : vars.size ≤ 65535 := by decide +kernel
  obtain ⟨body, main, pool, lowered, steps, rest⟩ :=
    Program.stack_discipline {} (rfl : program = (Program.parse {} file.tokens).program) rfl few
  have lowerable : program.Lowerable vars := Program.parse_lowerable {} file.tokens
  have again := Program.toSteps_eq lowerable.proper lowerable.known few none
  have same : body ++ [Step.insn .ret] = program.code vars none ++ [.insn .ret] :=
    Except.ok.inj (lowered.symm.trans again)
  have labelled := Program.labelled lowerable.sound none lowerable.proper lowerable.known
  rw [same] at steps
  have length : (program.code vars none).length = 13 := by decide +kernel
  have size := Method.steps_size labelled.generated steps
  have start : mainStart.code.size = 0 := rfl
  rw [List.length_append, length, List.length_singleton, start] at size
  have inside : mainStart.Inside := ⟨fun label place found => by simp [mainStart, Method.make] at found, nofun⟩
  obtain ⟨bytes, -, -, written, -⟩ :=
    rest (by omega) ((Method.steps_inside inside steps).near (by omega))
  exact ⟨bytes, written⟩

end

end Minilang
