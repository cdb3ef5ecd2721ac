import Minilang.ClassFile.Lower
import Minilang.Proofs.ParsedTrees
import Minilang.Proofs.VariableIndex

/-! The steps that lowering emits, as functions of the tree. Labels are numbered in the order in
which they are made, so the code of a node depends on the tree only through the number of labels
made before it. -/

namespace Minilang

namespace ClassFile

/-- The slot of a variable. -/
def slotOf (vars : Variables) (name : Bytes) : Nat := (vars.index? name).getD 0 + 1

theorem slotOf_bounds {vars : Variables} (sound : vars.Sound) {name : Bytes}
    (known : vars.has name = true) :
    0 < slotOf vars name ∧ slotOf vars name ≤ vars.size := by
  obtain ⟨i, found⟩ := Variables.has_iff.mp known
  have inside := sound.lt found
  simp only [slotOf, found, Option.getD_some]
  omega

def readCode : List Step := [.localVar .aload 0, .methodOperand .invokeVirtual nextInt]

/-- The code of a truth value; its labels are the next two. -/
def truthCode (branch : Opcode) (n : Nat) : List Step :=
  [.jump branch n, .push 0, .jump .goto (n + 1), .mark n, .push 1, .mark (n + 1)]

def lineCode (lineOf : Option (Span → Nat)) (site : Site) : List Step :=
  match lineOf with
  | none => []
  | some line => [.line (line site.span)]

/-- The code that goes before the statements. -/
def prologueCode (vars : Variables) : List Step :=
  [.classOperand .new scannerClass, .insn .dup, .fieldOperand .getStatic systemIn,
    .methodOperand .invokeSpecial scannerInit, .localVar .astore 0] ++
  (List.range vars.size).flatMap fun (i : Nat) => [.push 0, .localVar .istore (i + 1)]

end ClassFile

open ClassFile

/-- How many labels the code of an expression makes. -/
def Expr.labels : Expr → Nat
  | .absent | .hollow .. | .unknown _ | .intLit .. | .varRef .. | .read _ => 0
  | .paren _ inner => inner.labels
  | .unary _ op operand => operand.labels + if op = .not then 2 else 0
  | .binary _ form _ left right =>
      match form with
      | .additive | .multiplicative => left.labels + right.labels
      | .comparison => left.labels + right.labels + 2
      | .logicalAnd | .logicalOr => 1 + left.labels + right.labels

/-- The code of an expression when `n` labels have been made. -/
def Expr.code (vars : Variables) (n : Nat) : Expr → List Step
  | .absent | .hollow .. | .unknown _ => []
  | .intLit _ _ value => [.push value]
  | .varRef _ name =>
      if vars.has name then [.localVar .iload (slotOf vars name)] else [.push 0]
  | .paren _ inner => inner.code vars n
  | .read _ => readCode
  | .unary _ op operand =>
      operand.code vars n ++
        match op with
        | .neg => [.insn .ineg]
        | .not => truthCode (.ifZero .eq) (n + operand.labels)
        | _ => []
  | .binary _ form op left right =>
      match form with
      | .additive | .multiplicative =>
          left.code vars n ++ right.code vars (n + left.labels) ++
            ((arithmetic? op).map Step.insn).toList
      | .comparison =>
          left.code vars n ++ right.code vars (n + left.labels) ++
            match condition? op with
            | some cond => truthCode (.ifInts cond) (n + left.labels + right.labels)
            | none => []
      | .logicalAnd | .logicalOr =>
          left.code vars (n + 1) ++
            [.insn .dup, .jump (.ifZero (if form = .logicalAnd then .eq else .ne)) n, .insn .pop] ++
            right.code vars (n + 1 + left.labels) ++ [.mark n]

mutual

/-- How many labels the code of a statement makes. -/
def Stmt.labels : Stmt → Nat
  | .absent | .hollow .. | .unknown _ | .read .. => 0
  | .assign _ _ _ value | .print _ value => value.labels
  | .ifElse _ cond thenBody elseBody hasElse =>
      (if hasElse then 2 else 1) + cond.labels + Stmt.allLabels thenBody +
        if hasElse then Stmt.allLabels elseBody else 0
  | .whileLoop _ cond body => 2 + cond.labels + Stmt.allLabels body
  | .forLoop _ _ _ start stop step body =>
      2 + start.labels + stop.labels + step.labels + Stmt.allLabels body

def Stmt.allLabels : List Stmt → Nat
  | [] => 0
  | s :: rest => s.labels + Stmt.allLabels rest

end

/-- The code of the step of a counting loop, which is one when it is absent. -/
def Expr.stepCode (vars : Variables) (n : Nat) (step : Expr) : List Step :=
  if step.isAbsent then [.push 1] else step.code vars n

mutual

/-- The code of a statement when `n` labels have been made. -/
def Stmt.code (vars : Variables) (lineOf : Option (Span → Nat)) (n : Nat) : Stmt → List Step
  | .absent | .hollow .. | .unknown _ => []
  | .assign site name _ value =>
      lineCode lineOf site ++ value.code vars n ++ [.localVar .istore (slotOf vars name)]
  | .read site name _ => lineCode lineOf site ++ readCode ++ [.localVar .istore (slotOf vars name)]
  | .print site value =>
      lineCode lineOf site ++ [.fieldOperand .getStatic systemOut] ++ value.code vars n ++
        [.methodOperand .invokeVirtual println]
  | .ifElse site cond thenBody elseBody hasElse =>
      if hasElse then
        lineCode lineOf site ++ cond.code vars (n + 2) ++ [.jump (.ifZero .eq) (n + 1)] ++
          Stmt.allCode vars lineOf (n + 2 + cond.labels) thenBody ++
          [.jump .goto n, .mark (n + 1)] ++
          Stmt.allCode vars lineOf (n + 2 + cond.labels + Stmt.allLabels thenBody) elseBody ++
          [.mark n]
      else
        lineCode lineOf site ++ cond.code vars (n + 1) ++ [.jump (.ifZero .eq) n] ++
          Stmt.allCode vars lineOf (n + 1 + cond.labels) thenBody ++ [.mark n]
  | .whileLoop site cond body =>
      lineCode lineOf site ++ [.mark n] ++ cond.code vars (n + 2) ++
        [.jump (.ifZero .eq) (n + 1)] ++ Stmt.allCode vars lineOf (n + 2 + cond.labels) body ++
        [.jump .goto n, .mark (n + 1)]
  | .forLoop site name _ start stop step body =>
      lineCode lineOf site ++ start.code vars (n + 2) ++
        [.insn .dup, .localVar .istore (slotOf vars name)] ++
        stop.code vars (n + 2 + start.labels) ++
        step.stepCode vars (n + 2 + start.labels + stop.labels) ++
        [.insn .swap, .insn .dup2X1, .insn .pop2, .mark n, .insn .swap, .insn .dupX1,
          .jump (.ifInts .gt) (n + 1)] ++
        Stmt.allCode vars lineOf (n + 2 + start.labels + stop.labels + step.labels) body ++
        [.insn .swap, .insn .dupX1, .localVar .iload (slotOf vars name), .insn .iadd, .insn .dup,
          .localVar .istore (slotOf vars name), .jump .goto n, .mark (n + 1), .insn .pop2]

def Stmt.allCode (vars : Variables) (lineOf : Option (Span → Nat)) (n : Nat) :
    List Stmt → List Step
  | [] => []
  | s :: rest => s.code vars lineOf n ++ Stmt.allCode vars lineOf (n + s.labels) rest

end

/-- The code of a program up to its return. -/
def Program.code (program : Program) (vars : Variables) (lineOf : Option (Span → Nat)) :
    List Step :=
  prologueCode vars ++ Stmt.allCode vars lineOf 0 program.stmts

namespace ClassFile.Lower

/-- A lowering that succeeds with a value, takes the label count from `n` to `m` and emits code.
All it complains of is undefined variables. -/
def Emits {α : Type} (lowering : Lower α) (n : Nat) (value : α) (m : Nat) (code : List Step) :
    Prop :=
  ∀ state : LowerState, state.made = n → ∃ found : List Diagnostic,
    (∀ d ∈ found, ∃ span name, d = undefinedReport span name) ∧
    lowering.run.run state = (.ok value,
      { made := m, steps := state.steps ++ code, reports := state.reports ++ found })

variable {α β : Type} {n m : Nat}

private theorem append_lists {ι : Type} (items : Array ι) (first second : List ι) :
    items ++ (first ++ second) = items ++ first ++ second :=
  Array.toList_inj.mp (by simp)

theorem emits_pure (value : α) : Emits (pure value) n value n [] := by
  rintro state rfl
  exact ⟨[], by simp, by simp; rfl⟩

theorem run_bind (lowering : Lower α) (next : α → Lower β) (state : LowerState) :
    (lowering >>= next).run.run state =
      match lowering.run.run state with
      | (.ok value, after) => (next value).run.run after
      | (.error fault, after) => (.error fault, after) := by
  simp only [ExceptT.run_bind, StateT.run_bind]
  rcases lowering.run.run state with ⟨_ | value, after⟩ <;> rfl

theorem Emits.bind {lowering : Lower α} {next : α → Lower β} {value : α} {result : β}
    {middle : Nat} {code more : List Step} (first : Emits lowering n value middle code)
    (second : Emits (next value) middle result m more) :
    Emits (lowering >>= next) n result m (code ++ more) := by
  intro state made
  obtain ⟨found, undefined, ran⟩ := first state made
  obtain ⟨others, alike, goes⟩ := second { made := middle, steps := _, reports := _ } rfl
  refine ⟨found ++ others, fun d member => ?_, ?_⟩
  · exact (List.mem_append.mp member).elim (undefined d) (alike d)
  · rw [run_bind, ran, append_lists, append_lists]
    exact goes

theorem emits_emit (step : Step) : Emits (emit step) n () n [step] := by
  rintro state rfl
  exact ⟨[], by simp, by simp [emit]; rfl⟩

theorem emits_fresh : Emits fresh n n (n + 1) [] := by
  rintro state rfl
  exact ⟨[], by simp, by simp; rfl⟩

theorem emits_report (span : Span) (name : Bytes) :
    Emits (report (undefinedReport span name)) n () n [] := by
  rintro state rfl
  refine ⟨[undefinedReport span name], ?_, by simp; rfl⟩
  exact List.forall_mem_singleton.mpr ⟨span, name, rfl⟩

theorem Emits.cast {lowering : Lower α} {value : α} {m' : Nat} {code code' : List Step}
    (emits : Emits lowering n value m code) (labels : m = m') (same : code = code') :
    Emits lowering n value m' code' :=
  labels ▸ same ▸ emits

theorem emits_slot {vars : Variables} {name : Bytes} (known : vars.has name = true) :
    Emits (slot vars name) n (slotOf vars name : Int) n [] := by
  obtain ⟨i, found⟩ := Variables.has_iff.mp known
  simp only [slot, slotOf, found]
  exact emits_pure _

theorem emits_read : Emits read n () n readCode := (emits_emit _).bind (emits_emit _)

theorem emits_truth (branch : Opcode) : Emits (truth branch) n () (n + 2) (truthCode branch n) :=
  emits_fresh.bind <| emits_fresh.bind <| (emits_emit _).bind <| (emits_emit _).bind <|
    (emits_emit _).bind <| (emits_emit _).bind <| (emits_emit _).bind <| emits_emit _

end ClassFile.Lower

open ClassFile.Lower

theorem arithmetic?_isSome {form : BinaryForm} {op : Op} (admits : form.Admits op)
    (calculates : form = .additive ∨ form = .multiplicative) : ∃ code, arithmetic? op = some code := by
  rcases calculates with rfl | rfl
  · rcases admits with rfl | rfl <;> exact ⟨_, rfl⟩
  · rcases admits with rfl | rfl | rfl <;> exact ⟨_, rfl⟩

theorem condition?_isSome {op : Op} (admits : BinaryForm.comparison.Admits op) :
    ∃ cond, condition? op = some cond := by
  cases op <;> first | exact ⟨_, rfl⟩ | cases admits

/-- Lowering a complete expression succeeds with the code of that expression. -/
theorem Expr.toSteps_emits {isName : Bytes → Prop} (vars : Variables) (e : Expr)
    (proper : e.Proper isName) (n : Nat) :
    Emits (e.toSteps vars) n () (n + e.labels) (e.code vars n) := by
  induction e generalizing n with
  | absent | hollow | unknown => exact proper.elim
  | intLit site text value => exact emits_emit _
  | varRef site name =>
    rw [Expr.toSteps, Expr.code]
    split
    next known => exact (emits_slot known).bind (emits_emit _)
    next => exact (emits_report _ _).bind (emits_emit _)
  | read site => exact emits_read
  | paren site inner ih => exact ih proper n
  | unary site op operand ih =>
    have inner := ih proper.2 n
    rcases proper.1 with rfl | rfl | rfl
    · exact inner.bind (emits_pure _)
    · exact inner.bind (emits_emit _)
    · exact inner.bind (emits_truth _)
  | binary site form op left right leftIh rightIh =>
    obtain ⟨admits, first, second⟩ := proper
    have arithmetic : ∀ code, Emits (do
        left.toSteps vars
        right.toSteps vars
        Lower.insn code) n () (n + (left.labels + right.labels))
        (left.code vars n ++ right.code vars (n + left.labels) ++ [Step.insn code]) := by
      intro code
      refine ((leftIh first n).bind ((rightIh second _).bind (emits_emit (.insn code)))).cast ?_ ?_
      · omega
      · simp
    cases form with
    | additive =>
      obtain ⟨code, found⟩ := arithmetic?_isSome admits (.inl rfl)
      simp only [Expr.toSteps, Expr.code, found]
      exact arithmetic code
    | multiplicative =>
      obtain ⟨code, found⟩ := arithmetic?_isSome admits (.inr rfl)
      simp only [Expr.toSteps, Expr.code, found]
      exact arithmetic code
    | comparison =>
      obtain ⟨cond, found⟩ := condition?_isSome admits
      simp only [Expr.toSteps, Expr.labels, Expr.code, found]
      refine ((leftIh first n).bind ((rightIh second _).bind (emits_truth _))).cast ?_ ?_
      · omega
      · simp
    | logicalAnd | logicalOr =>
      simp only [Expr.toSteps, Expr.labels, Expr.code]
      refine (emits_fresh.bind ((leftIh first _).bind ((emits_emit _).bind ((emits_emit _).bind
        ((emits_emit _).bind ((rightIh second _).bind (emits_emit _))))))).cast ?_ ?_
      · omega
      · simp

private theorem emits_line (lineOf : Option (Span → Nat)) (site : Site) (n : Nat) :
    Emits (Stmt.toSteps.emitLine lineOf site) n () n (lineCode lineOf site) := by
  cases lineOf with
  | none => exact emits_pure _
  | some line => exact emits_emit _

private theorem emits_step {isName : Bytes → Prop} (vars : Variables) {step : Expr}
    (proper : step.isAbsent = false → step.Proper isName) (n : Nat) :
    Emits (if step.isAbsent then Lower.push 1 else step.toSteps vars) n () (n + step.labels)
      (step.stepCode vars n) := by
  rw [Expr.stepCode]
  cases absent : step.isAbsent with
  | true =>
    have none : step.labels = 0 := by
      cases step <;> first | rfl | cases absent
    rw [none]
    exact emits_emit _
  | false => exact step.toSteps_emits vars (proper absent) n

mutual

/-- Lowering a complete statement succeeds when every name it assigns has a slot. -/
theorem Stmt.toSteps_emits {isName : Bytes → Prop} {vars : Variables}
    (lineOf : Option (Span → Nat)) : (s : Stmt) → s.Proper isName →
      s.AssignsOnly (fun name => vars.has name = true) → (n : Nat) →
      Emits (s.toSteps vars lineOf) n () (n + s.labels) (s.code vars lineOf n)
  | .absent, proper, _, _ | .hollow .., proper, _, _ | .unknown _, proper, _, _ => proper.elim
  | .assign site name _ value, proper, known, n => by
    simp only [Stmt.toSteps, Stmt.labels, Stmt.code]
    refine Emits.cast (.bind (emits_line lineOf site n) <|
      .bind (value.toSteps_emits vars proper.2 n) <| .bind (emits_slot known) <|
      emits_emit _) ?_ ?_
    · rfl
    · simp
  | .read site name _, _, known, n => by
    simp only [Stmt.toSteps, Stmt.labels, Stmt.code]
    refine Emits.cast (.bind (emits_line lineOf site n) <| .bind emits_read <|
      .bind (emits_slot known) <| emits_emit _) ?_ ?_
    · rfl
    · simp
  | .print site value, proper, _, n => by
    simp only [Stmt.toSteps, Stmt.labels, Stmt.code]
    refine Emits.cast (.bind (emits_line lineOf site n) <| .bind (emits_emit _) <|
      .bind (value.toSteps_emits vars proper n) <| emits_emit _) ?_ ?_
    · rfl
    · simp
  | .ifElse site cond thenBody elseBody hasElse, proper, known, n => by
    obtain ⟨test, yes, no, -⟩ := proper
    cases hasElse with
    | true =>
      simp only [Stmt.toSteps, Stmt.labels, Stmt.code]
      refine Emits.cast (.bind (emits_line lineOf site n) <| .bind emits_fresh <|
        .bind emits_fresh <| .bind (cond.toSteps_emits vars test _) <| .bind (emits_emit _) <|
        .bind (Stmt.allToSteps_emits lineOf thenBody yes known.1 _) <| .bind (emits_emit _) <|
        .bind (emits_emit _) <| .bind (Stmt.allToSteps_emits lineOf elseBody no known.2 _) <|
        emits_emit _) ?_ ?_
      · simp only [if_true]
        omega
      · simp
    | false =>
      simp only [Stmt.toSteps, Stmt.labels, Stmt.code]
      refine Emits.cast (.bind (emits_line lineOf site n) <| .bind emits_fresh <|
        .bind (emits_pure _) <| .bind (cond.toSteps_emits vars test _) <| .bind (emits_emit _) <|
        .bind (Stmt.allToSteps_emits lineOf thenBody yes known.1 _) <| emits_emit _) ?_ ?_
      · simp only [Bool.false_eq_true, if_false]
        omega
      · simp
  | .whileLoop site cond body, proper, known, n => by
    simp only [Stmt.toSteps, Stmt.labels, Stmt.code]
    refine Emits.cast (.bind (emits_line lineOf site n) <| .bind emits_fresh <|
      .bind emits_fresh <| .bind (emits_emit _) <| .bind (cond.toSteps_emits vars proper.1 _) <|
      .bind (emits_emit _) <| .bind (Stmt.allToSteps_emits lineOf body proper.2 known _) <|
      .bind (emits_emit _) <| emits_emit _) ?_ ?_
    · omega
    · simp
  | .forLoop site name _ start stop step body, proper, known, n => by
    obtain ⟨-, first, last, increment, inside⟩ := proper
    have counted := emits_step vars increment
    simp only [Stmt.toSteps, Stmt.labels, Stmt.code]
    -- The branch on the step is taken first, so that the rest is one sequence.
    cases absent : step.isAbsent
    all_goals
      simp only [absent, if_true, if_false, Bool.false_eq_true] at counted ⊢
      refine Emits.cast (.bind (emits_line lineOf site n) <| .bind (emits_slot known.1) <|
        .bind emits_fresh <| .bind emits_fresh <| .bind (start.toSteps_emits vars first _) <|
        .bind (emits_emit _) <| .bind (emits_emit _) <| .bind (stop.toSteps_emits vars last _) <|
        .bind (counted _) <| .bind (emits_emit _) <| .bind (emits_emit _) <|
        .bind (emits_emit _) <| .bind (emits_emit _) <| .bind (emits_emit _) <|
        .bind (emits_emit _) <| .bind (emits_emit _) <|
        .bind (Stmt.allToSteps_emits lineOf body inside known.2 _) <| .bind (emits_emit _) <|
        .bind (emits_emit _) <| .bind (emits_emit _) <| .bind (emits_emit _) <|
        .bind (emits_emit _) <| .bind (emits_emit _) <| .bind (emits_emit _) <|
        .bind (emits_emit _) <| emits_emit _) ?_ ?_
      · omega
      · simp

theorem Stmt.allToSteps_emits {isName : Bytes → Prop} {vars : Variables}
    (lineOf : Option (Span → Nat)) : (body : List Stmt) → Stmt.AllProper isName body →
      Stmt.AllAssignOnly (fun name => vars.has name = true) body → (n : Nat) →
      Emits (Stmt.allToSteps vars lineOf body) n () (n + Stmt.allLabels body)
        (Stmt.allCode vars lineOf n body)
  | [], _, _, _ => emits_pure _
  | s :: rest, proper, known, n => by
    simp only [Stmt.allToSteps, Stmt.allLabels, Stmt.allCode]
    refine Emits.cast (.bind (s.toSteps_emits lineOf proper.1 known.1 n) <|
      Stmt.allToSteps_emits lineOf rest proper.2 known.2 _) ?_ rfl
    omega

end

private theorem emits_zeroes (from_ count n : Nat) :
    Emits (forIn (List.range' from_ count) PUnit.unit fun (i : Nat) _ => do
      Lower.push 0
      Lower.emit (.localVar .istore (i + 1))
      pure (ForInStep.yield PUnit.unit)) n PUnit.unit n
      ((List.range' from_ count).flatMap fun (i : Nat) => [.push 0, .localVar .istore (i + 1)]) := by
  induction count generalizing from_ with
  | zero => exact emits_pure _
  | succ count ih =>
    rw [List.range'_succ, List.forIn_cons, List.flatMap_cons]
    refine Emits.cast (.bind (.bind (emits_emit _) <| .bind (emits_emit _) <| emits_pure _) <|
      ih (from_ + 1)) rfl ?_
    simp

/-- The prologue succeeds unless there are more variables than slots. -/
theorem prologue_emits {vars : Variables} (few : vars.size ≤ 65535) (n : Nat) :
    Emits (prologue vars) n () n (prologueCode vars) := by
  have within : ¬ 65535 < vars.size := by omega
  rw [prologue, if_neg within, Std.Legacy.Range.forIn_eq_forIn_range']
  refine Emits.cast (.bind (emits_emit _) <| .bind (emits_emit _) <| .bind (emits_emit _) <|
    .bind (emits_emit _) <| .bind (emits_emit _) <| .bind (emits_zeroes _ _ _) <| emits_pure _) rfl ?_
  simp [prologueCode, List.range_eq_range']

/-- The steps of a program, and what it reports beside them. -/
theorem Program.toSteps_reports {isName : Bytes → Prop} {program : Program} {vars : Variables}
    (proper : Stmt.AllProper isName program.stmts)
    (known : Stmt.AllAssignOnly (fun name => vars.has name = true) program.stmts)
    (few : vars.size ≤ 65535) (lineOf : Option (Span → Nat)) :
    ∃ found : List Diagnostic, (∀ d ∈ found, ∃ span name, d = undefinedReport span name) ∧
      program.toSteps vars lineOf = (.ok (program.code vars lineOf ++ [Step.insn .ret]), found) := by
  have emits : Emits (do
      prologue vars
      Stmt.allToSteps vars lineOf program.stmts
      Lower.insn .ret) 0 () _ _ :=
    .bind (prologue_emits few 0) <|
      .bind (Stmt.allToSteps_emits lineOf program.stmts proper known 0) <| emits_emit _
  obtain ⟨found, undefined, ran⟩ := emits {} rfl
  refine ⟨found, undefined, ?_⟩
  rw [Program.toSteps]
  simp only [ran]
  simp [Program.code, Except.map]

/-- The steps of a complete program are its code and a return. -/
theorem Program.toSteps_eq {isName : Bytes → Prop} {program : Program} {vars : Variables}
    (proper : Stmt.AllProper isName program.stmts)
    (known : Stmt.AllAssignOnly (fun name => vars.has name = true) program.stmts)
    (few : vars.size ≤ 65535) (lineOf : Option (Span → Nat)) :
    (program.toSteps vars lineOf).1 = .ok (program.code vars lineOf ++ [.insn .ret]) := by
  obtain ⟨found, -, lowered⟩ := Program.toSteps_reports proper known few lineOf
  rw [lowered]

/-- A program with more variables than there are slots has no steps. -/
theorem Program.toSteps_many (program : Program) {vars : Variables} (many : 65535 < vars.size)
    (lineOf : Option (Span → Nat)) :
    (program.toSteps vars lineOf).1 = .error (.slotRange 65536) := by
  rw [Program.toSteps, prologue, if_pos many]
  rfl

end Minilang
