import Minilang.Proofs.ClassCorrectness
import Minilang.Proofs.LinePositions
import Minilang.Proofs.LineTables
import Minilang.Proofs.SameCode

/-! Faults of class files point at source lines. The code of a statement's own expressions and
reads comes before that of the statements inside it, and only there can a division or a read
stand; so the line of a fault is that of the innermost statement that was being executed. -/

namespace Minilang

open ClassFile

/-- The code that a statement has for itself: for conditionals and loops that which comes before
the first body, for others all of it. -/
def Stmt.ownCode (vars : Variables) (lineOf : Option (Span → Nat)) (n : Nat) : Stmt → List Step
  | .ifElse site cond _ _ hasElse =>
      if hasElse then testHead vars lineOf site [] cond (n + 2) (n + 1)
      else testHead vars lineOf site [] cond (n + 1) n
  | .whileLoop site cond _ => testHead vars lineOf site [.mark n] cond (n + 2) (n + 1)
  | .forLoop site name _ start stop step _ => countHead vars lineOf site name start stop step n
  | s => s.code vars lineOf n

/-- A step of a program, with the steps `before` in front of it, that was emitted for a statement
itself and not for one inside it. -/
def Program.Owns (program : Program) (vars : Variables) (lineOf : Option (Span → Nat)) (s : Stmt)
    (before : List Step) (step : Step) : Prop :=
  ∃ k start n rest first last, BodyAt program vars lineOf k start n (s :: rest) ∧
    s.ownCode vars lineOf n = first ++ step :: last ∧ before = start ++ first

namespace ClassFile

/-- Divisions and reads: the steps that can fail on account of their operands or of the input. -/
def Step.CanFail : Step → Prop
  | .insn op => op = .idiv ∨ op = .irem
  | .methodOperand _ ref => ref = nextInt
  | _ => False

instance : DecidablePred Step.CanFail
  | .insn op => inferInstanceAs (Decidable (op = .idiv ∨ op = .irem))
  | .methodOperand _ ref => inferInstanceAs (Decidable (ref = nextInt))
  | .push _ | .localVar .. | .jump .. | .mark _ | .classOperand .. | .fieldOperand .. | .line _
  | .nops _ => .isFalse id

def Step.Quiet (s : Step) : Prop := s.line? = none ∧ ¬s.CanFail

end ClassFile

section

variable {program : Program} {vars : Variables} {lineOf : Option (Span → Nat)}

theorem Stmt.code_opens (s : Stmt) (n : Nat) :
    ∃ inside, s.code vars lineOf n = s.ownCode vars lineOf n ++ inside := by
  cases s with
  | absent | hollow | unknown | assign | read | print => exact ⟨[], by simp [Stmt.ownCode]⟩
  | ifElse site cond yes no hasElse =>
    cases hasElse
    all_goals
      simp only [Stmt.code, Stmt.ownCode, testHead, Bool.false_eq_true, if_true, if_false,
        List.append_assoc, List.nil_append]
      exact ⟨_, rfl⟩
  | whileLoop | forLoop =>
    simp only [Stmt.code, Stmt.ownCode, testHead, countHead, List.append_assoc, List.cons_append,
      List.nil_append]
    exact ⟨_, rfl⟩

theorem Program.Owns.code {s : Stmt} {before : List Step} {step : Step}
    (owns : program.Owns vars lineOf s before step)
    (proper : Stmt.AllProper (fun _ => True) program.stmts) :
    ∃ after, program.code vars lineOf = before ++ step :: after := by
  obtain ⟨k, start, n, rest, first, last, at_, own, rfl⟩ := owns
  obtain ⟨after, code⟩ := (at_.placed proper 0).code
  obtain ⟨inside, opens⟩ := @Stmt.code_opens vars lineOf s n
  rw [code, Stmt.allCode, opens, own]
  simp only [List.append_assoc, List.cons_append]
  exact ⟨_, rfl⟩

theorem Expr.code_silent (e : Expr) (n : Nat) : ∀ s ∈ e.code vars n, s.line? = none := by
  have truth : ∀ op m, ∀ s ∈ truthCode op m, s.line? = none := by simp [truthCode, Step.line?]
  induction e generalizing n with
  | absent | hollow | unknown => exact List.forall_mem_nil _
  | intLit => exact List.forall_mem_singleton.mpr rfl
  | varRef site name =>
    rw [Expr.code]
    split <;> exact List.forall_mem_singleton.mpr rfl
  | paren site inner ih => exact ih n
  | read => simp [Expr.code, readCode, Step.line?]
  | unary site op operand ih =>
    refine List.forall_mem_append.mpr ⟨ih n, ?_⟩
    cases op <;> simp [truthCode, Step.line?]
  | binary site form op left right leftIh rightIh =>
    cases form with
    | additive | multiplicative =>
      simp only [Expr.code, List.forall_mem_append]
      refine ⟨⟨leftIh _, rightIh _⟩, ?_⟩
      cases arithmetic? op with
      | none => exact List.forall_mem_nil _
      | some code => exact List.forall_mem_singleton.mpr rfl
    | comparison =>
      simp only [Expr.code, List.forall_mem_append]
      refine ⟨⟨leftIh _, rightIh _⟩, ?_⟩
      split
      · exact truth _ _
      · exact List.forall_mem_nil _
    | logicalAnd | logicalOr =>
      simp only [Expr.code, List.forall_mem_append]
      exact ⟨⟨⟨leftIh _, by simp [Step.line?]⟩, rightIh _⟩, by simp [Step.line?]⟩

theorem Expr.stepCode_silent (e : Expr) (n : Nat) : ∀ s ∈ e.stepCode vars n, s.line? = none := by
  rw [Expr.stepCode]
  split
  · exact List.forall_mem_singleton.mpr rfl
  · exact e.code_silent n

private theorem test_silent (marks : List Nat) (cond : Expr) (n no : Nat) :
    ∀ s ∈ marks.map Step.mark ++ (cond.code vars n ++ [Step.jump (.ifZero .eq) no]),
      s.line? = none := by
  simp only [List.forall_mem_append, List.forall_mem_map, List.forall_mem_singleton]
  exact ⟨fun _ _ => rfl, cond.code_silent n, rfl⟩

/-- A statement's own code announces the line of the statement first and no other. -/
theorem Stmt.ownCode_announces (s : Stmt) (line : Span → Nat) (n : Nat) :
    s.ownCode vars (some line) n = [] ∨ ∃ silent,
      s.ownCode vars (some line) n = .line (line s.span) :: silent ∧ ∀ t ∈ silent, t.line? = none := by
  cases s with
  | absent | hollow | unknown => exact .inl rfl
  | assign site name span value =>
    refine .inr ⟨value.code vars n ++ [Step.localVar .istore (slotOf vars name)], rfl, ?_⟩
    exact List.forall_mem_append.mpr ⟨value.code_silent n, List.forall_mem_singleton.mpr rfl⟩
  | read site name span =>
    exact .inr ⟨readCode ++ [Step.localVar .istore (slotOf vars name)], rfl,
      by simp [readCode, Step.line?]⟩
  | print site value =>
    refine .inr ⟨Step.fieldOperand .getStatic systemOut :: (value.code vars n ++
      [Step.methodOperand .invokeVirtual println]), rfl, List.forall_mem_cons.mpr ⟨rfl, ?_⟩⟩
    exact List.forall_mem_append.mpr ⟨value.code_silent n, List.forall_mem_singleton.mpr rfl⟩
  | ifElse site cond yes no hasElse =>
    cases hasElse with
    | true => exact .inr ⟨_, rfl, test_silent [] cond (n + 2) (n + 1)⟩
    | false => exact .inr ⟨_, rfl, test_silent [] cond (n + 1) n⟩
  | whileLoop site cond body => exact .inr ⟨_, rfl, test_silent [n] cond (n + 2) (n + 1)⟩
  | forLoop site name span start stop step body =>
    refine .inr ⟨_, rfl, ?_⟩
    change ∀ t ∈ start.code vars (n + 2) ++ _, _
    simp only [List.forall_mem_append, List.forall_mem_cons]
    exact ⟨start.code_silent _, rfl, rfl, stop.code_silent _, step.stepCode_silent _,
      rfl, rfl, rfl, rfl, rfl, rfl, rfl, List.forall_mem_nil _⟩

theorem lineBehind_silent {steps : List Step} (silent : ∀ s ∈ steps, s.line? = none) (line : Int) :
    lineBehind line steps = line := by
  induction steps with
  | nil => rfl
  | cons s rest ih =>
    obtain ⟨here, later⟩ := List.forall_mem_cons.mp silent
    rw [lineBehind, List.foldl_cons, here]
    exact ih later

end

namespace Program.Owns

variable {program : Program} {vars : Variables} {line : Span → Nat} {s : Stmt} {before : List Step}
  {step : Step}

/-- Before an instruction that a statement owns, its line was announced last. -/
theorem lineBehind (owns : program.Owns vars (some line) s before step) (one : step.size = 1)
    (current : Int) : ClassFile.lineBehind current before = line s.span := by
  obtain ⟨k, start, n, rest, first, last, at_, own, rfl⟩ := owns
  rcases s.ownCode_announces line n with none | ⟨silent, opens, quiet⟩
  · rw [none] at own
    simp at own
  · rw [opens] at own
    cases first with
    | nil =>
      cases own
      cases one
    | cons announced first =>
      cases own
      rw [ClassFile.lineBehind, List.foldl_append, List.foldl_cons]
      exact lineBehind_silent (fun t member => quiet t (List.mem_append_left _ member)) _

theorem announces (owns : program.Owns vars (some line) s before step) {number : Int}
    (tells : step.line? = some number) : number = line s.span := by
  obtain ⟨k, start, n, rest, first, last, at_, own, rfl⟩ := owns
  rcases s.ownCode_announces line n with none | ⟨silent, opens, quiet⟩
  · rw [none] at own
    simp at own
  · rw [opens] at own
    cases first with
    | nil =>
      cases own
      exact (Option.some.inj tells).symm
    | cons announced first =>
      cases own
      rw [quiet step (by simp)] at tells
      cases tells

end Program.Owns

private theorem split_of_append {α : Type} {first second before after : List α} {item : α}
    (joined : first ++ second = before ++ item :: after) :
    (∃ more, first = before ++ item :: more) ∨
      ∃ middle, before = first ++ middle ∧ second = middle ++ item :: after := by
  rcases List.append_eq_append_iff.mp joined with ⟨middle, rfl, rest⟩ | ⟨middle, rfl, rest⟩
  · exact .inr ⟨middle, rfl, rest⟩
  · cases middle with
    | nil => exact .inr ⟨[], by simp, by simpa using rest.symm⟩
    | cons head more =>
      cases rest
      exact .inl ⟨more, rfl⟩

section

variable {program : Program} {vars : Variables} {lineOf : Option (Span → Nat)}

/-- Steps in which each that announces a line or can fail is owned by a statement. -/
private def AllOwned (program : Program) (vars : Variables) (lineOf : Option (Span → Nat))
    (start steps : List Step) : Prop :=
  ∀ before step after, steps = before ++ step :: after → ¬step.Quiet →
    ∃ t, program.Owns vars lineOf t (start ++ before) step

private theorem AllOwned.append {start first second : List Step}
    (one : AllOwned program vars lineOf start first)
    (two : AllOwned program vars lineOf (start ++ first) second) :
    AllOwned program vars lineOf start (first ++ second) := by
  intro before step after joined loud
  rcases split_of_append joined with ⟨more, here⟩ | ⟨middle, rfl, later⟩
  · exact one before step more here loud
  · rw [← List.append_assoc]
    exact two middle step after later loud

private theorem allOwned_quiet {start steps : List Step} (quiet : ∀ s ∈ steps, s.Quiet) :
    AllOwned program vars lineOf start steps :=
  fun before step after split loud => absurd (quiet step (by simp [split])) loud

private theorem BodyAt.own {k n : Nat} {start : List Step} {s : Stmt} {rest : List Stmt}
    (at_ : BodyAt program vars lineOf k start n (s :: rest)) :
    AllOwned program vars lineOf start (s.ownCode vars lineOf n) :=
  fun before _ after own _ => ⟨s, k, start, n, rest, before, after, at_, own, rfl⟩

mutual

/-- What announces a line or can fail in the code of a statement is owned by the statement or by one
inside it. -/
private theorem Stmt.code_owned : (s : Stmt) → ∀ {k start n rest},
    BodyAt program vars lineOf k start n (s :: rest) →
    AllOwned program vars lineOf start (s.code vars lineOf n)
  | .absent, _, _, _, _, at_ | .hollow .., _, _, _, _, at_ | .unknown _, _, _, _, _, at_
  | .assign .., _, _, _, _, at_ | .read .., _, _, _, _, at_ | .print .., _, _, _, _, at_ => at_.own
  | .ifElse site cond yes no false, _, start, n, _, at_ => by
    have code : (Stmt.ifElse site cond yes no false).code vars lineOf n =
        testHead vars lineOf site [] cond (n + 1) n ++
          (Stmt.allCode vars lineOf (n + 1 + cond.labels) yes ++ [Step.mark n]) := by
      simp [Stmt.code, testHead]
    have own : AllOwned program vars lineOf start (testHead vars lineOf site [] cond (n + 1) n) :=
      at_.own
    have inner := Stmt.allCode_owned yes (.onlyThen at_)
    rw [code]
    exact own.append (inner.append (allOwned_quiet (by simp [Step.Quiet, Step.line?, Step.CanFail])))
  | .ifElse site cond yes no true, _, start, n, _, at_ => by
    have code : (Stmt.ifElse site cond yes no true).code vars lineOf n =
        (testHead vars lineOf site [] cond (n + 2) (n + 1) ++
          (Stmt.allCode vars lineOf (n + 2 + cond.labels) yes ++ [Step.jump .goto n, .mark (n + 1)])) ++
          (Stmt.allCode vars lineOf (n + 2 + cond.labels + Stmt.allLabels yes) no ++ [Step.mark n]) := by
      simp [Stmt.code, testHead]
    have own : AllOwned program vars lineOf start
        (testHead vars lineOf site [] cond (n + 2) (n + 1)) := at_.own
    have inner := Stmt.allCode_owned yes (.thenBody at_)
    have other := Stmt.allCode_owned no (.elseBody at_)
    rw [code]
    refine (own.append (inner.append (allOwned_quiet ?_))).append (other.append (allOwned_quiet ?_))
    all_goals simp [Step.Quiet, Step.line?, Step.CanFail]
  | .whileLoop site cond body, _, start, n, _, at_ => by
    have code : (Stmt.whileLoop site cond body).code vars lineOf n =
        testHead vars lineOf site [.mark n] cond (n + 2) (n + 1) ++
          (Stmt.allCode vars lineOf (n + 2 + cond.labels) body ++ [Step.jump .goto n, .mark (n + 1)]) := by
      simp [Stmt.code, testHead]
    have own : AllOwned program vars lineOf start
        (testHead vars lineOf site [.mark n] cond (n + 2) (n + 1)) := at_.own
    have inner := Stmt.allCode_owned body (.whileBody at_)
    rw [code]
    exact own.append (inner.append (allOwned_quiet (by simp [Step.Quiet, Step.line?, Step.CanFail])))
  | .forLoop site name span first last by_ body, _, start, n, _, at_ => by
    have code : (Stmt.forLoop site name span first last by_ body).code vars lineOf n =
        countHead vars lineOf site name first last by_ n ++
          (Stmt.allCode vars lineOf (n + 2 + first.labels + last.labels + by_.labels) body ++
            [Step.insn .swap, .insn .dupX1, .localVar .iload (slotOf vars name), .insn .iadd, .insn .dup,
              .localVar .istore (slotOf vars name), .jump .goto n, .mark (n + 1), .insn .pop2]) := by
      simp [Stmt.code, countHead]
    have own : AllOwned program vars lineOf start
        (countHead vars lineOf site name first last by_ n) := at_.own
    have inner := Stmt.allCode_owned body (.forBody at_)
    rw [code]
    refine own.append (inner.append (allOwned_quiet ?_))
    simp [Step.Quiet, Step.line?, Step.CanFail]
    decide

private theorem Stmt.allCode_owned : (list : List Stmt) → ∀ {k start n},
    BodyAt program vars lineOf k start n list →
    AllOwned program vars lineOf start (Stmt.allCode vars lineOf n list)
  | [], _, _, _, _ => allOwned_quiet fun _ member => nomatch member
  | s :: rest, _, _, _, at_ => .append (s.code_owned at_) (Stmt.allCode_owned rest (.rest at_))

end

/-- What announces a line or can fail in the code of a program is owned by a statement. -/
theorem Program.code_owned {before after : List Step} {step : Step}
    (code : program.code vars lineOf = before ++ step :: after) (loud : ¬step.Quiet) :
    ∃ s, program.Owns vars lineOf s before step := by
  have scanner : ∀ s ∈ prologueCode vars, s.Quiet := by
    simp only [prologueCode, List.forall_mem_append, List.forall_mem_flatMap]
    exact ⟨by simp [Step.Quiet, Step.line?, Step.CanFail]; decide,
      by simp [Step.Quiet, Step.line?, Step.CanFail]⟩
  have all : AllOwned program vars lineOf [] (program.code vars lineOf) :=
    .append (allOwned_quiet scanner) (Stmt.allCode_owned program.stmts .program)
  simpa using all before step after code loud

theorem Program.code_numbered {line : Span → Nat} (fits : ∀ span, 0 < line span ∧ line span ≤ 65535)
    (s : Step) (member : s ∈ program.code vars (some line)) : s.Numbered := by
  intro number tells
  obtain ⟨before, after, code⟩ := List.append_of_mem member
  obtain ⟨t, owns⟩ := Program.code_owned code fun quiet => by
    rw [quiet.1] at tells
    cases tells
  rw [owns.announces tells]
  have bounds := fits t.span
  omega

end

namespace ClassFile

open Machine (Cause)

def Action.CanFail (pool : Pool) : Action → Prop
  | .compute op => op = .div ∨ op = .rem
  | .invoke _ index =>
      ((pool.member index).toOption.getD MachineState.unresolved).text = nextInt.text
  | _ => False

section

variable {body : Body} {pool : Pool} {state : MachineState} {insn : Insn} {cause : Cause}

private theorem invoke_cause {ref : MemberRef} (fails : state.invoke ref = .error (.cause cause))
    (early : cause.number ≤ 2003) : ref.text = nextInt.text := by
  by_contra other
  obtain ⟨p, stack, locals, console⟩ := state
  simp only [MachineState.invoke, if_neg other] at fails
  split at fails
  · rcases stack with _ | ⟨argument, _ | ⟨receiver, stack⟩⟩
    · cases fails
    · cases fails
    · simp only [MachineState.pop, ok_bind] at fails
      split at fails <;> cases fails
  split at fails
  · rcases stack with _ | ⟨value, _ | ⟨receiver, stack⟩⟩
    · cases fails
    · cases fails
    · simp only [MachineState.popInt, MachineState.pop, ok_bind, pure_eq_ok] at fails
      split at fails
      · cases fails
      · -- Printing fails with a number of its own.
        split at fails <;> cases fails
        exact absurd early (by simp [Cause.number])
  · cases fails

theorem execute_cause (fails : state.execute body pool insn = .error (.cause cause))
    (early : cause.number ≤ 2003) : insn.action.CanFail pool := by
  obtain ⟨p, stack, locals, console⟩ := state
  unfold MachineState.execute at fails
  cases action : insn.action with
  | nop | ret | push =>
    simp only [action] at fails
    cases fails
  | constant index | new index | shuffle kind =>
    simp only [action] at fails
    split at fails <;> cases fails
  | intLoad slot | refLoad slot =>
    simp only [action, MachineState.load] at fails
    split at fails <;> cases fails
  | intStore slot | refStore slot =>
    simp only [action] at fails
    cases stack with
    | nil => cases fails
    | cons value stack =>
      simp only [MachineState.store, MachineState.pop, ok_bind] at fails
      split at fails <;> cases fails
  | negate =>
    simp only [action] at fails
    cases stack <;> cases fails
  | compute op =>
    simp only [action] at fails
    rcases stack with _ | ⟨right, _ | ⟨left, stack⟩⟩
    · cases fails
    · cases fails
    · cases op with
      | div => exact .inl rfl
      | rem => exact .inr rfl
      | add | sub | mul => cases fails
  | branchZero cond target =>
    simp only [action] at fails
    cases stack with
    | nil => cases fails
    | cons value stack =>
      simp only [MachineState.popInt, MachineState.pop, ok_bind, pure_eq_ok, MachineState.goto] at fails
      split at fails
      · split at fails <;> cases fails
      · cases fails
  | branchInts cond target =>
    simp only [action] at fails
    rcases stack with _ | ⟨right, _ | ⟨left, stack⟩⟩
    · cases fails
    · cases fails
    · simp only [MachineState.popInt, MachineState.pop, ok_bind, pure_eq_ok, MachineState.goto] at fails
      split at fails
      · split at fails <;> cases fails
      · cases fails
  | goto target =>
    simp only [action, MachineState.goto] at fails
    split at fails <;> cases fails
  | getStatic index =>
    simp only [action] at fails
    split at fails
    · cases fails
    · split at fails <;> cases fails
  | invoke kind index =>
    simp only [action] at fails
    cases kind with
    | staticCall => cases fails
    | virtualCall | specialCall => exact invoke_cause fails early

/-- A generated step whose instruction can fail is a division or a read. -/
theorem Step.Means.canFail {count : Nat} {s : Step} (generated : s.Generated count)
    {target : Nat → Option Nat} {action : Action} (means : s.Means pool target action)
    (fails : action.CanFail pool) : s.CanFail := by
  cases s with
  | insn op =>
    rw [show action = _ from means] at fails
    simp only [Step.Generated, Step.Usual, plainOpcodes, List.mem_cons, List.not_mem_nil,
      or_false] at generated
    rcases generated with rfl | rfl | rfl | rfl | rfl | rfl | rfl | rfl | rfl | rfl | rfl | rfl | rfl
    all_goals first | exact .inl rfl | exact .inr rfl | exact fails.elim | (rcases fails with wrong | wrong <;> cases wrong)
  | push value => rcases means with rfl | ⟨i, rfl, -⟩ <;> exact fails.elim
  | localVar op slot =>
    rw [show action = _ from means] at fails
    rcases Opcode.isLocal_iff.mp generated.1 with rfl | rfl | rfl | rfl <;> exact fails.elim
  | jump op label =>
    obtain ⟨place, -, rfl⟩ := means
    simp only [Step.Generated, Step.Usual, jumpOpcodes, List.mem_cons, List.mem_append,
      List.mem_map] at generated
    rcases generated with rfl | ⟨cond, -, rfl⟩ | ⟨cond, -, rfl⟩
    · exact fails.elim
    · rw [does_ifZero] at fails
      exact fails.elim
    · rw [does_ifInts] at fails
      exact fails.elim
  | classOperand op name =>
    obtain ⟨i, rfl, -⟩ := means
    obtain ⟨rfl, -⟩ := generated
    exact fails.elim
  | fieldOperand op ref =>
    obtain ⟨i, rfl, -⟩ := means
    obtain ⟨rfl, -⟩ := generated
    exact fails.elim
  | methodOperand op ref =>
    obtain ⟨i, rfl, names⟩ := means
    have calls : ∃ kind, op.does i.toNat = .invoke kind i := by
      rcases generated with ⟨rfl, -⟩ | ⟨rfl, -⟩
      · exact ⟨_, does_invokeSpecial i⟩
      · exact ⟨_, does_invokeVirtual i⟩
    obtain ⟨kind, calls⟩ := calls
    have text : ref.text = nextInt.text := by
      simpa only [calls, Action.CanFail, names.member, Except.toOption, Option.getD_some] using fails
    have known : ref ∈ [scannerInit, nextInt, println] := by
      rcases generated with ⟨-, rfl⟩ | ⟨-, member⟩
      · simp
      · exact List.mem_cons_of_mem _ member
    have texts : ∀ ref ∈ [scannerInit, nextInt, println], ref.text = nextInt.text → ref = nextInt := by
      decide
    exact texts ref known text
  | mark | line | nops => exact means.elim

theorem faultAt_line (code : CodeInfo) (offset : Nat) (early : cause.number ≤ 2003) :
    (faultAt code offset cause).line = code.lineAt offset := by
  cases cause with
  | output text => exact absurd early (by simp [Cause.number])
  | divByZero | inputExhausted | inputMismatch | badProgram | stepLimit => rfl

theorem runFrom_cause {code : CodeInfo} {limit fuel spent : Nat} {run : Machine.Run}
    {fault : Machine.Fault} (ran : runFrom code body pool limit fuel spent state = some run)
    (ending : run.ending = .fault fault) (early : fault.cause.number ≤ 2003) :
    ∃ k last insn, Runs (Advances body pool) k state last ∧ body.insns[last.next]? = some insn ∧
      insn.action ≠ .ret ∧ insn.action.CanFail pool ∧ fault = faultAt code insn.offset fault.cause := by
  induction fuel generalizing spent state with
  | zero => cases ran
  | succ fuel ih =>
    rw [runFrom] at ran
    cases present : body.insns[state.next]? with
    | none =>
      rw [present] at ran
      cases ran
      cases ending
    | some insn =>
      simp only [present] at ran
      split at ran
      · cases ran
        cases ending
        exact absurd early (by simp [faultAt, Cause.number])
      rw [ClassFile.step] at ran
      by_cases returns : insn.action = .ret
      · rw [if_pos returns] at ran
        cases ran
        cases ending
      rw [if_neg returns] at ran
      cases executed : ({ state with next := state.next + 1 } : MachineState).execute body pool
        insn with
      | error trouble =>
        simp only [executed] at ran
        cases trouble with
        | flaw flaw =>
          cases ran
          cases ending
          exact absurd early (by simp [faultAt, Cause.number])
        | outOfBounds =>
          cases ran
          cases ending
        | cause reason =>
          cases ran
          cases ending
          exact ⟨0, state, insn, .refl state, present, returns, execute_cause executed early, rfl⟩
      | ok next =>
        by_cases inside : next.next < body.insns.size
        · simp only [executed, if_pos inside] at ran
          obtain ⟨k, last, found, runs, rest⟩ := ih ran
          exact ⟨k + 1, last, found, .cons ⟨insn, present, returns, executed, inside⟩ runs, rest⟩
        · simp only [executed, if_neg inside] at ran
          cases ran
          cases ending
          exact absurd early (by simp [faultAt, Cause.number])

end

end ClassFile

private theorem offset_behind {first rest : List Step} {main middle : Method}
    {pool grown larger : Pool} (assembled : mainStart.steps {} (first ++ rest) = .ok (main, pool))
    (front : mainStart.steps {} first = .ok (middle, grown)) (sound : larger.Sound)
    (extends_ : pool.Extends larger) (fits : larger.overflowed = false) :
    middle.offset = (codeBytes larger first).length := by
  rw [Method.steps_append, front] at assembled
  obtain ⟨soundHere, -, did⟩ := Method.steps_did Pool.sound_empty front
  obtain ⟨-, more, -⟩ := Method.steps_did soundHere assembled
  rw [Method.offset, ← Array.length_toList,
    (did larger sound (more.trans extends_) fits).1.code]
  rfl

namespace Program.LoadedAs

variable {program : Program} {vars : Variables} {line : Span → Nat} {main : Method} {pool : Pool}
  {loaded : Loaded}

/-- The instruction of a step that a statement owns is found under the line of the statement. -/
theorem line_of_owned (found : program.LoadedAs vars (some line) main pool loaded)
    (lowerable : program.Lowerable vars) (fits : ∀ span, 0 < line span ∧ line span ≤ 65535)
    {s : Stmt} {before : List Step} {step : Step}
    (owns : program.Owns vars (some line) s before step) (one : step.size = 1) :
    ∃ insn, loaded.analysis.body.insns[width before]? = some insn ∧
      step.Means loaded.pool (main.labels[·]?) insn.action ∧
      loaded.code.lineAt insn.offset = line s.span := by
  have labelled := Program.labelled lowerable.sound (some line) lowerable.proper lowerable.known
  obtain ⟨after, code⟩ := owns.code lowerable.proper
  have whole : program.code vars (some line) ++ [Step.insn .ret] =
      before ++ step :: (after ++ [Step.insn .ret]) := by simp [code]
  have usual : step.Usual := (labelled.generated step (by simp [code])).usual found.few
  have numbered : ∀ t ∈ before ++ step :: (after ++ [Step.insn .ret]), t.Numbered := by
    rw [← whole, List.forall_mem_append]
    exact ⟨Program.code_numbered fits, List.forall_mem_singleton.mpr nofun⟩
  have assembled := found.assembled
  rw [whole] at assembled
  have start : mainStart.ShowsLine 0 := ⟨rfl, rfl, fun _ member => nomatch member⟩
  obtain ⟨middle, grown, front, shown⟩ :=
    start.lineIn_steps numbered usual one assembled found.short
  obtain ⟨larger, sound, extends_, room, decoded⟩ := found.decoded
  rw [whole] at decoded
  obtain ⟨insn, present, offset, -⟩ := decoded.at one
  rw [Nat.zero_add, ← offset_behind assembled front sound extends_ room] at offset
  obtain ⟨again, there, means⟩ :=
    found.real.step (width before) step ⟨before, after, by simp [code], rfl⟩ one
  rw [Array.getElem?_toList] at present
  cases present.symm.trans there
  refine ⟨insn, present, means, ?_⟩
  rw [CodeInfo.lineAt_eq, found.lines, offset]
  exact Int.ofNat.inj (shown.trans (owns.lineBehind one 0))

/-- An instruction that can fail is that of a step which a statement owns. -/
theorem owned_of_canFail {lineOf : Option (Span → Nat)}
    (found : program.LoadedAs vars lineOf main pool loaded) (lowerable : program.Lowerable vars)
    {p : Nat} {insn : Insn} (present : loaded.analysis.body.insns[p]? = some insn)
    (goes : insn.action ≠ .ret) (fails : insn.action.CanFail loaded.pool) :
    ∃ s before step, program.Owns vars lineOf s before step ∧ step.CanFail ∧ step.size = 1 ∧
      width before = p := by
  have labelled := Program.labelled lowerable.sound lineOf lowerable.proper lowerable.known
  have generated : ∀ s ∈ program.code vars lineOf, s.Generated vars.size :=
    fun s member => labelled.generated s (List.mem_append_left _ member)
  have inside : p < width (program.code vars lineOf) := by
    have bound := (Array.getElem?_eq_some_iff.mp present).1
    rw [found.real.size] at bound
    obtain ⟨last, there, returns⟩ := found.real.last
    by_contra beyond
    obtain rfl : p = width (program.code vars lineOf) := by omega
    cases present.symm.trans there
    exact goes returns
  obtain ⟨step, at_, one, member⟩ :=
    CodeAt.exists (fun s member => (generated s member).usual found.few) inside
  obtain ⟨again, there, means⟩ := found.real.step p step at_ one
  cases present.symm.trans there
  have canFail := means.canFail (generated step member) fails
  obtain ⟨before, after, code, rfl⟩ := at_
  rw [List.append_assoc, List.singleton_append] at code
  obtain ⟨s, owns⟩ := Program.code_owned code fun quiet => quiet.2 canFail
  exact ⟨s, before, step, owns, canFail, one, rfl⟩

end Program.LoadedAs

/-- Faults point at source lines: in the class of a file with at most 65535 lines, with names that
the format can hold, each instruction that was emitted for a statement itself is found under the
line on which the statement starts; and a run on any console that ends for want of a divisor or of
input ends at such an instruction, with that line. -/
theorem Program.faults_show_lines {options : ParseOptions} {file : SourceFile} {program : Program}
    {vars : Variables} (whole : file.IsMade) (short : file.content.length < 2 ^ 32)
    (few : file.lineCount ≤ 65535) (parsed : program = (Program.parse options file.tokens).program)
    (collected : vars = Variables.ofProgram program) {target : ClassOptions}
    (lines : target.lineOf = some fun span => (file.position span.start).line.toNat)
    (name : (ModifiedUtf8.encode target.name).length ≤ 65535)
    (source : (ModifiedUtf8.encode target.sourceFile).length ≤ 65535) {bytes : Bytes}
    (made : (program.toClass vars target).1 = .ok bytes) :
    ∃ loaded labels, load bytes = .ok loaded ∧
      (∀ s before step, program.Owns vars target.lineOf s before step → step.size = 1 →
        ∃ insn, loaded.analysis.body.insns[width before]? = some insn ∧
          step.Means loaded.pool labels insn.action ∧
          loaded.code.lineAt insn.offset = file.lineNumber s.span.start) ∧
      ∀ limit fuel console run fault, ClassFile.run bytes limit fuel console = some run →
        run.ending = .fault fault → fault.cause.number ∈ [2001, 2002, 2003] →
        ∃ s before step, program.Owns vars target.lineOf s before step ∧ step.size = 1 ∧
          step.CanFail ∧ ∃ k last insn,
            Runs (Advances loaded.analysis.body loaded.pool) k
              (startOf loaded.code.maxLocals console) last ∧ last.next = width before ∧
            loaded.analysis.body.insns[width before]? = some insn ∧
            fault.place = .pc insn.offset ∧ fault.line = file.lineNumber s.span.start := by
  have lowerable : program.Lowerable vars := by
    rw [collected, parsed]
    exact Program.parse_lowerable options file.tokens
  obtain ⟨loaded, main, pool, loads, found⟩ := Program.class_loads_main lowerable name source made
  have number : ∀ offset, (file.position offset).line.toNat = file.lineNumber offset :=
    SourceFile.position_line_toNat whole.2 short (by omega)
  simp only [number] at lines
  rw [lines] at found ⊢
  have fits : ∀ span : Span, 0 < file.lineNumber span.start ∧ file.lineNumber span.start ≤ 65535 :=
    fun span => ⟨Nat.succ_pos _, (SourceFile.lineNumber_le whole.2 short _).trans few⟩
  have owned : ∀ s before step,
      program.Owns vars (some fun span => file.lineNumber span.start) s before step →
      step.size = 1 → ∃ insn, loaded.analysis.body.insns[width before]? = some insn ∧
        step.Means loaded.pool (main.labels[·]?) insn.action ∧
        loaded.code.lineAt insn.offset = file.lineNumber s.span.start :=
    fun s before step owns one => found.line_of_owned lowerable fits owns one
  refine ⟨loaded, _, loads, owned, ?_⟩
  intro limit fuel console run fault ran ending number
  have early : fault.cause.number ≤ 2003 := by
    simp only [List.mem_cons, List.not_mem_nil, or_false] at number
    omega
  rw [ClassFile.run_loaded loads] at ran
  obtain ⟨k, last, insn, runs, present, goes, fails, same⟩ := runFrom_cause ran ending early
  obtain ⟨s, before, step, owns, canFail, one, place⟩ :=
    found.owned_of_canFail lowerable present goes fails
  obtain ⟨again, there, -, shown⟩ := owned s before step owns one
  rw [← place] at present
  cases present.symm.trans there
  refine ⟨s, before, step, owns, one, canFail, k, last, insn, runs, place.symm, present, ?_, ?_⟩
  · rw [same]
    rfl
  · rw [same, faultAt_line loaded.code insn.offset early, shown]

private theorem Program.Lowerable.class_fails {program : Program} {vars : Variables}
    (lowerable : program.Lowerable vars) {options : ClassOptions}
    (name : (ModifiedUtf8.encode options.name).length ≤ 65535)
    (source : (ModifiedUtf8.encode options.sourceFile).length ≤ 65535) {bytes : Bytes}
    (made : (program.toClass vars options).1 = .ok bytes) (fuel : Nat) (inputs : List Int32)
    {stop : EvalStop} (stops : (program.eval fuel 0 inputs).stop = some stop)
    (early : stop ≠ .outOfFuel) :
    ∃ steps run fault, ClassFile.run bytes 0 steps { input := .numbers inputs } = some run ∧
      run.ending = .fault fault ∧ stop.faultNumber? = some fault.cause.number := by
  obtain ⟨loaded, labels, loads, real, slots⟩ := Program.class_loads lowerable name source made
  have imitates := Program.class_imitates lowerable real inputs fuel
  rw [Program.eval_eq] at stops
  rcases ran : (Stmt.execAll fuel program.stmts).run.run { inputs } with ⟨result, after⟩
  rw [ran] at stops
  cases result with
  | ok value => cases stops
  | error other =>
    cases stops
    obtain ⟨k, last, runs, cause, causes, fails, -⟩ := imitates.stopped ran early
    obtain ⟨fault, rfl, ended⟩ := runFrom_fails fails loaded.code 0 (0 + k)
    refine ⟨k + 1, ⟨last.console, .fault fault⟩, fault, ?_, rfl, causeOf?_number causes⟩
    rw [ClassFile.run_loaded loads, slots, runFrom_runs runs loaded.code (.inl rfl), ended]

def quotients : SourceFile := .make 0 "" "while 1 \x7b\n  print 6 / read;\n\x7d" {}

theorem Program.quotients_show_line :
    let program := (Program.parse {} quotients.tokens).program
    let target : ClassOptions :=
      { lineOf := some fun span => (quotients.position span.start).line.toNat }
    ∃ bytes, (program.toClass (Variables.ofProgram program) target).1 = .ok bytes ∧
      ∃ steps run fault, ClassFile.run bytes 0 steps { input := .numbers [2, 0] } = some run ∧
        run.ending = .fault fault ∧ fault.cause.number = 2001 ∧ fault.line = 2 := by
  intro program target
  have lowerable : program.Lowerable (Variables.ofProgram program) :=
    Program.parse_lowerable {} quotients.tokens
  have few : (Variables.ofProgram program).size ≤ 65535 := by decide +kernel
  have small : 4 * ((program.code (Variables.ofProgram program) target.lineOf).length + 1) ≤ 32767 := by
    decide +kernel
  have short : quotients.content.length < 2 ^ 32 := by decide
  have lines : quotients.lineCount ≤ 65535 := by decide +kernel
  have name : (ModifiedUtf8.encode target.name).length ≤ 65535 := by decide +kernel
  have source : (ModifiedUtf8.encode target.sourceFile).length ≤ 65535 := by decide +kernel
  have whole : quotients.IsMade := SourceFile.make_isMade _ _ _ _
  obtain ⟨bytes, made⟩ := lowerable.small_class few target small
  obtain ⟨loaded, labels, loads, -, shows⟩ :=
    Program.faults_show_lines whole short lines (rfl : program = (Program.parse {} _).program) rfl
      (rfl : target.lineOf = some _) name source made
  have stops : (program.eval 12 0 [2, 0]).stop = some (.arith .divByZero) := by decide +kernel
  obtain ⟨steps, run, fault, ran, ending, number⟩ :=
    lowerable.class_fails name source made 12 [2, 0] stops (by decide)
  have number : fault.cause.number = 2001 := (Option.some.inj number).symm
  obtain ⟨s, before, step, owns, one, canFail, -, -, -, -, -, -, -, line⟩ :=
    shows 0 steps _ run fault ran ending (by simp [number])
  refine ⟨bytes, made, steps, run, fault, ran, ending, number, ?_⟩
  have second : ∀ i : Fin (program.code (Variables.ofProgram program) target.lineOf).length,
      ((program.code (Variables.ofProgram program) target.lineOf).get i).CanFail →
        lineBehind 0 ((program.code (Variables.ofProgram program) target.lineOf).take i) = 2 := by
    decide +kernel
  obtain ⟨after, code⟩ := owns.code lowerable.proper
  have here := second ⟨before.length, by simp [code]⟩
  simp only [code, List.get_eq_getElem, List.getElem_append_right (Nat.le_refl _), Nat.sub_self,
    List.getElem_cons_zero, List.take_left] at here
  have announced := (owns.lineBehind one 0).symm.trans (here canFail)
  rw [SourceFile.position_line_toNat whole.2 short (by omega), ← line] at announced
  exact_mod_cast announced

end Minilang
