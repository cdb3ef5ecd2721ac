import Minilang.Proofs.ClassLowering
import Minilang.Proofs.CodeLayout

/-! Generated steps can be assembled: each is of a usual form, every label that is made is marked
exactly once, and every jump goes to one of them. -/

namespace Minilang

namespace ClassFile

/-- The labels from `n` on, `k` of them. -/
def Made (n k label : Nat) : Prop := n ≤ label ∧ label < n + k

theorem range'_add (n a b : Nat) :
    List.range' n (a + b) = List.range' n a ++ List.range' (n + a) b := List.range'_append_1.symm

/-- The steps that lowering makes for `count` variables: of the members of classes it needs only
five. -/
def Step.Generated (count : Nat) : Step → Prop
  | .localVar op slot => op.isLocal = true ∧ 0 ≤ slot ∧ slot ≤ count
  | .classOperand op name => op = .new ∧ name = scannerClass
  | .fieldOperand op ref => op = .getStatic ∧ ref ∈ [systemIn, systemOut]
  | .methodOperand op ref => op = .invokeSpecial ∧ ref = scannerInit ∨
      op = .invokeVirtual ∧ ref ∈ [nextInt, println]
  | s => s.Usual

theorem Step.Generated.usual {count : Nat} (few : count ≤ 65535) {s : Step}
    (generated : s.Generated count) : s.Usual := by
  cases s with
  | localVar op slot =>
    obtain ⟨moves, low, high⟩ := generated
    exact ⟨moves, low, by omega⟩
  | classOperand | fieldOperand => exact generated.1
  | methodOperand => exact generated.symm.imp And.left And.left
  | insn | push | jump | mark | line | nops => exact generated

/-- Generated steps that mark exactly the labels `made`, in some order, and jump to allowed ones. -/
structure Labelled (count : Nat) (allowed : Nat → Prop) (code : List Step) (made : List Nat) : Prop where
  generated : ∀ s ∈ code, s.Generated count
  marks : (code.filterMap Step.marked?).Perm made
  jumps : ∀ op label, Step.jump op label ∈ code → allowed label

namespace Labelled

variable {count : Nat} {allowed wider : Nat → Prop} {code more : List Step} {made others : List Nat} {s : Step}

theorem nil : Labelled count allowed [] [] := ⟨by simp, .refl _, by simp⟩

theorem append (first : Labelled count allowed code made) (second : Labelled count allowed more others) :
    Labelled count allowed (code ++ more) (made ++ others) where
  generated := List.forall_mem_append.mpr ⟨first.generated, second.generated⟩
  marks := by
    rw [List.filterMap_append]
    exact first.marks.append second.marks
  jumps := by
    intro op label member
    rcases List.mem_append.mp member with inside | inside
    · exact first.jumps op label inside
    · exact second.jumps op label inside

theorem mono (labelled : Labelled count allowed code made) (le : ∀ label, allowed label → wider label) :
    Labelled count wider code made :=
  ⟨labelled.generated, labelled.marks, fun op label member => le label (labelled.jumps op label member)⟩

theorem perm (labelled : Labelled count allowed code made) (same : made.Perm others) :
    Labelled count allowed code others :=
  ⟨labelled.generated, labelled.marks.trans same, labelled.jumps⟩

/-- A step that neither marks nor jumps. -/
theorem plain (generated : s.Generated count) (silent : s.marked? = none) (still : ∀ offset, s.jumps offset = [])
    (rest : Labelled count allowed code made) : Labelled count allowed (s :: code) made where
  generated := List.forall_mem_cons.mpr ⟨generated, rest.generated⟩
  marks := by
    rw [List.filterMap_cons_none silent]
    exact rest.marks
  jumps := by
    intro op label member
    rcases List.mem_cons.mp member with rfl | inside
    · cases still 0
    · exact rest.jumps op label inside

theorem jump {op : Opcode} {label : Nat} (usual : op ∈ jumpOpcodes) (fine : allowed label)
    (rest : Labelled count allowed code made) : Labelled count allowed (.jump op label :: code) made where
  generated := List.forall_mem_cons.mpr ⟨usual, rest.generated⟩
  marks := rest.marks
  jumps := by
    intro other target member
    rcases List.mem_cons.mp member with same | inside
    · cases same
      exact fine
    · exact rest.jumps other target inside

theorem mark {label : Nat} (rest : Labelled count allowed code made) :
    Labelled count allowed (.mark label :: code) (label :: made) where
  generated := List.forall_mem_cons.mpr ⟨trivial, rest.generated⟩
  marks := by
    show (label :: code.filterMap Step.marked?).Perm (label :: made)
    exact rest.marks.cons label
  jumps := by
    intro op target member
    rcases List.mem_cons.mp member with same | inside
    · cases same
    · exact rest.jumps op target inside

theorem insn {op : Opcode} (plain_ : op ∈ plainOpcodes) (rest : Labelled count allowed code made) :
    Labelled count allowed (.insn op :: code) made := rest.plain plain_ rfl fun _ => rfl

theorem push {value : Int32} (rest : Labelled count allowed code made) :
    Labelled count allowed (.push value :: code) made := rest.plain trivial rfl fun _ => rfl

theorem local_ {op : Opcode} {slot : Nat} (moves : op.isLocal = true) (low : slot ≤ count)
    (rest : Labelled count allowed code made) : Labelled count allowed (.localVar op slot :: code) made :=
  rest.plain ⟨moves, by omega, by omega⟩ rfl fun _ => rfl

theorem line {lineOf : Option (Span → Nat)} {site : Site} (rest : Labelled count allowed code made) :
    Labelled count allowed (lineCode lineOf site ++ code) made := by
  cases lineOf with
  | none => exact rest
  | some line => exact rest.plain trivial rfl fun _ => rfl

theorem call {ref : MemberRef} (known : ref ∈ [nextInt, println])
    (rest : Labelled count allowed code made) :
    Labelled count allowed (.methodOperand .invokeVirtual ref :: code) made :=
  rest.plain (.inr ⟨rfl, known⟩) rfl fun _ => rfl

theorem static {ref : MemberRef} (known : ref ∈ [systemIn, systemOut])
    (rest : Labelled count allowed code made) :
    Labelled count allowed (.fieldOperand .getStatic ref :: code) made :=
  rest.plain ⟨rfl, known⟩ rfl fun _ => rfl

theorem read (rest : Labelled count allowed code made) : Labelled count allowed (readCode ++ code) made :=
  (rest.call (by simp)).local_ rfl (Nat.zero_le _)

/-- The labels that are made may be among more. -/
theorem widen {n k m j : Nat} (labelled : Labelled count (Made n k) code made) (low : m ≤ n)
    (high : n + k ≤ m + j) : Labelled count (Made m j) code made :=
  labelled.mono fun _ inside => ⟨low.trans inside.1, inside.2.trans_le high⟩

theorem truth {branch : Opcode} {n : Nat} (usual : branch ∈ jumpOpcodes) (first : allowed n)
    (second : allowed (n + 1)) : Labelled count allowed (truthCode branch n) [n, n + 1] :=
  .jump usual first (.push (.jump (by decide) second (.mark (.push (.mark .nil)))))

end Labelled

theorem ifZero_usual (cond : Cond) : Opcode.ifZero cond ∈ jumpOpcodes := by
  cases cond <;> decide

theorem ifInts_usual (cond : Cond) : Opcode.ifInts cond ∈ jumpOpcodes := by
  cases cond <;> decide

theorem arithmetic?_plain {op : Op} {code : Opcode} (found : arithmetic? op = some code) :
    code ∈ plainOpcodes := by
  cases op <;> cases found <;> decide

end ClassFile

open ClassFile

section

variable {isName : Bytes → Prop} {vars : Variables} (sound : vars.Sound)
include sound

theorem Expr.labelled (e : Expr) (proper : e.Proper isName) (n : Nat) :
    Labelled vars.size (Made n e.labels) (e.code vars n) (List.range' n e.labels) := by
  induction e generalizing n with
  | absent | hollow | unknown => exact proper.elim
  | intLit site text value => exact .push .nil
  | varRef site name =>
    rw [Expr.code]
    split
    next known => exact .local_ rfl (slotOf_bounds sound known).2 .nil
    next => exact .push .nil
  | paren site inner ih => exact ih proper n
  | read site => exact .read .nil
  | unary site op operand ih =>
    obtain ⟨which, inner⟩ := proper
    have rest := ih inner n
    rcases which with rfl | rfl | rfl
    · simpa [Expr.code, Expr.labels] using rest
    · simpa [Expr.code, Expr.labels] using rest.append (.insn (by decide) .nil)
    · have made : (Expr.unary site .not operand).labels = operand.labels + 2 := rfl
      rw [made]
      refine ((rest.widen (le_refl n) (by omega)).append (.truth (ifZero_usual .eq)
        ⟨by omega, by omega⟩ ⟨by omega, by omega⟩)).perm ?_
      rw [range'_add]
      exact .refl _
  | binary site form op left right leftIh rightIh =>
    obtain ⟨admits, first, second⟩ := proper
    have operands : ∀ k, left.labels + right.labels ≤ k → Labelled vars.size (Made n k)
        (left.code vars n ++ right.code vars (n + left.labels))
        (List.range' n (left.labels + right.labels)) := by
      intro k enough
      rw [range'_add]
      exact ((leftIh first n).widen (le_refl n) (by omega)).append
        ((rightIh second (n + left.labels)).widen (by omega) (by omega))
    cases form with
    | additive =>
      obtain ⟨code, found⟩ := arithmetic?_isSome admits (.inl rfl)
      have last : Labelled vars.size (Made n (left.labels + right.labels)) [.insn code] [] :=
        .insn (arithmetic?_plain found) .nil
      simpa [Expr.code, Expr.labels, found] using (operands _ (le_refl _)).append last
    | multiplicative =>
      obtain ⟨code, found⟩ := arithmetic?_isSome admits (.inr rfl)
      have last : Labelled vars.size (Made n (left.labels + right.labels)) [.insn code] [] :=
        .insn (arithmetic?_plain found) .nil
      simpa [Expr.code, Expr.labels, found] using (operands _ (le_refl _)).append last
    | comparison =>
      obtain ⟨cond, found⟩ := condition?_isSome admits
      have last : Labelled vars.size (Made n (left.labels + right.labels + 2))
          (truthCode (.ifInts cond) (n + left.labels + right.labels))
          [n + left.labels + right.labels, n + left.labels + right.labels + 1] :=
        .truth (ifInts_usual cond) ⟨by omega, by omega⟩ ⟨by omega, by omega⟩
      simp only [Expr.code, Expr.labels, found]
      refine ((operands _ (by omega)).append last).perm ?_
      rw [range'_add n (left.labels + right.labels) 2, ← Nat.add_assoc]
      exact .refl _
    | logicalAnd | logicalOr =>
      simp only [Expr.code, Expr.labels]
      refine ((((leftIh first (n + 1)).widen (by omega) (by omega)).append
        (.insn (by decide) (.jump (ifZero_usual _) ⟨le_refl n, by omega⟩
          (.insn (by decide) .nil)))).append
        ((rightIh second (n + 1 + left.labels)).widen (by omega) (by omega))).append
        (.mark .nil) |>.perm ?_
      simp only [range'_add, ← Nat.add_assoc, List.range'_one]
      grind

omit sound in
theorem Expr.stepLabels {step : Expr} (absent : step.isAbsent = true) : step.labels = 0 := by
  cases step <;> first | rfl | cases absent

theorem Expr.stepLabelled {step : Expr} (proper : step.isAbsent = false → step.Proper isName)
    (n : Nat) :
    Labelled vars.size (Made n step.labels) (step.stepCode vars n) (List.range' n step.labels) := by
  rw [Expr.stepCode]
  cases absent : step.isAbsent with
  | true =>
    rw [Expr.stepLabels absent]
    exact .push .nil
  | false => exact step.labelled sound (proper absent) n

omit sound

mutual

theorem Stmt.labelled (sound : vars.Sound) (lineOf : Option (Span → Nat)) : (s : Stmt) → s.Proper isName →
    s.AssignsOnly (fun name => vars.has name = true) → (n : Nat) →
      Labelled vars.size (Made n s.labels) (s.code vars lineOf n) (List.range' n s.labels)
  | .absent, proper, _, _ | .hollow .., proper, _, _ | .unknown _, proper, _, _ => proper.elim
  | .assign site name _ value, proper, known, n => by
    simp only [Stmt.code, Stmt.labels, List.append_assoc]
    have last : Labelled vars.size (Made n value.labels) [.localVar .istore (slotOf vars name)] [] :=
      .local_ rfl (slotOf_bounds sound known).2 .nil
    simpa using ((value.labelled sound proper.2 n).append last).line
  | .read site name _, _, known, n => by
    simp only [Stmt.code, Stmt.labels, List.append_assoc]
    exact .line (.read (.local_ rfl (slotOf_bounds sound known).2 .nil))
  | .print site value, proper, _, n => by
    simp only [Stmt.code, Stmt.labels, List.append_assoc, List.cons_append, List.nil_append]
    have last : Labelled vars.size (Made n value.labels) [.methodOperand .invokeVirtual println] [] :=
      .call (by simp) .nil
    have first : Labelled vars.size (Made n value.labels) [.fieldOperand .getStatic systemOut] [] :=
      .static (by simp) .nil
    simpa using (first.append ((value.labelled sound proper n).append last)).line
  | .ifElse site cond thenBody elseBody true, proper, known, n => by
    obtain ⟨test, yes, no, -⟩ := proper
    have first := cond.labelled sound test (n + 2)
    have then_ := Stmt.allLabelled sound lineOf thenBody yes known.1 (n + 2 + cond.labels)
    have else_ := Stmt.allLabelled sound lineOf elseBody no known.2
      (n + 2 + cond.labels + Stmt.allLabels thenBody)
    simp only [Stmt.code, Stmt.labels, if_true, List.append_assoc, List.cons_append,
      List.nil_append]
    refine Labelled.line ((first.widen (by omega) (by omega)).append
      (.jump (ifZero_usual .eq) ⟨by omega, by omega⟩ ((then_.widen (by omega) (by omega)).append
        (.jump (by decide) ⟨by omega, by omega⟩ (.mark ((else_.widen (by omega) (by omega)).append
          (.mark .nil))))))) |>.perm ?_
    simp only [range'_add, ← Nat.add_assoc, List.range'_succ, List.range'_zero]
    grind
  | .ifElse site cond thenBody elseBody false, proper, known, n => by
    obtain ⟨test, yes, no, -⟩ := proper
    have first := cond.labelled sound test (n + 1)
    have then_ := Stmt.allLabelled sound lineOf thenBody yes known.1 (n + 1 + cond.labels)
    simp only [Stmt.code, Stmt.labels, Bool.false_eq_true, if_false, List.append_assoc,
      List.cons_append, List.nil_append, Nat.add_zero]
    refine Labelled.line ((first.widen (by omega) (by omega)).append
      (.jump (ifZero_usual .eq) ⟨by omega, by omega⟩ ((then_.widen (by omega) (by omega)).append
        (.mark .nil)))) |>.perm ?_
    simp only [range'_add, ← Nat.add_assoc, List.range'_succ, List.range'_zero]
    grind
  | .whileLoop site cond inner, proper, known, n => by
    have first := cond.labelled sound proper.1 (n + 2)
    have inner_ := Stmt.allLabelled sound lineOf inner proper.2 known (n + 2 + cond.labels)
    simp only [Stmt.code, Stmt.labels, List.append_assoc, List.cons_append, List.nil_append]
    refine Labelled.line (.mark ((first.widen (by omega) (by omega)).append
      (.jump (ifZero_usual .eq) ⟨by omega, by omega⟩ ((inner_.widen (by omega) (by omega)).append
        (.jump (by decide) ⟨by omega, by omega⟩ (.mark .nil)))))) |>.perm ?_
    simp only [range'_add, ← Nat.add_assoc, List.range'_succ, List.range'_zero]
    grind
  | .forLoop site name _ start stop step inner, proper, known, n => by
    obtain ⟨-, first, last, increment, inside⟩ := proper
    have slot := (slotOf_bounds sound known.1).2
    have start_ := start.labelled sound first (n + 2)
    have stop_ := stop.labelled sound last (n + 2 + start.labels)
    have step_ := Expr.stepLabelled sound increment (n + 2 + start.labels + stop.labels)
    have inner_ := Stmt.allLabelled sound lineOf inner inside known.2
      (n + 2 + start.labels + stop.labels + step.labels)
    simp only [Stmt.code, Stmt.labels, List.append_assoc, List.cons_append, List.nil_append]
    have after : Labelled vars.size
        (Made n (2 + start.labels + stop.labels + step.labels + Stmt.allLabels inner))
        [.insn .swap, .insn .dupX1, .localVar .iload (slotOf vars name), .insn .iadd, .insn .dup,
          .localVar .istore (slotOf vars name), .jump .goto n, .mark (n + 1), .insn .pop2]
        [n + 1] :=
      .insn (by decide) (.insn (by decide) (.local_ rfl slot (.insn (by decide) (.insn (by decide)
        (.local_ rfl slot (.jump (by decide) ⟨by omega, by omega⟩
          (.mark (.insn (by decide) .nil))))))))
    refine Labelled.line ((start_.widen (by omega) (by omega)).append
      (.insn (by decide) (.local_ rfl slot ((stop_.widen (by omega) (by omega)).append
        ((step_.widen (by omega) (by omega)).append (.insn (by decide) (.insn (by decide)
          (.insn (by decide) (.mark (.insn (by decide) (.insn (by decide)
            (.jump (ifInts_usual .gt) ⟨by omega, by omega⟩
              ((inner_.widen (by omega) (by omega)).append after))))))))))))) |>.perm ?_
    simp only [range'_add, ← Nat.add_assoc, List.range'_succ, List.range'_zero]
    grind

theorem Stmt.allLabelled (sound : vars.Sound) (lineOf : Option (Span → Nat)) : (list : List Stmt) → Stmt.AllProper isName list →
    Stmt.AllAssignOnly (fun name => vars.has name = true) list → (n : Nat) →
      Labelled vars.size (Made n (Stmt.allLabels list)) (Stmt.allCode vars lineOf n list)
        (List.range' n (Stmt.allLabels list))
  | [], _, _, _ => .nil
  | s :: rest, proper, known, n => by
    have first := s.labelled sound lineOf proper.1 known.1 n
    have second := Stmt.allLabelled sound lineOf rest proper.2 known.2 (n + s.labels)
    simp only [Stmt.allCode, Stmt.allLabels, range'_add]
    exact (first.widen (le_refl n) (by omega)).append (second.widen (by omega) (by omega))

end

end

namespace ClassFile

private theorem Labelled.flatMap {count : Nat} {allowed : Nat → Prop} {list : List Nat} {code : Nat → List Step}
    (all : ∀ i ∈ list, Labelled count allowed (code i) []) : Labelled count allowed (list.flatMap code) [] := by
  induction list with
  | nil => exact .nil
  | cons i rest ih =>
    obtain ⟨here, later⟩ := List.forall_mem_cons.mp all
    exact here.append (ih later)

theorem prologueCode_labelled (allowed : Nat → Prop) (vars : Variables) :
    Labelled vars.size allowed (prologueCode vars) [] := by
  have clears : Labelled vars.size allowed ((List.range vars.size).flatMap fun (i : Nat) =>
      [.push 0, .localVar .istore (i + 1)]) [] := by
    refine .flatMap fun i inside => ?_
    have low : i + 1 ≤ vars.size := List.mem_range.mp inside
    exact .push (.local_ rfl low .nil)
  have scanner : Labelled vars.size allowed [.classOperand .new scannerClass, .insn .dup,
      .fieldOperand .getStatic systemIn, .methodOperand .invokeSpecial scannerInit,
      .localVar .astore 0] [] :=
    .plain ⟨rfl, rfl⟩ rfl (fun _ => rfl) (.insn (by decide) (.static (by simp)
      (.plain (.inl ⟨rfl, rfl⟩) rfl (fun _ => rfl) (.local_ rfl (Nat.zero_le _) .nil))))
  exact scanner.append clears

end ClassFile

theorem Program.labelled {isName : Bytes → Prop} {program : Program} {vars : Variables}
    (sound : vars.Sound) (lineOf : Option (Span → Nat))
    (proper : Stmt.AllProper isName program.stmts)
    (known : Stmt.AllAssignOnly (fun name => vars.has name = true) program.stmts) :
    Labelled vars.size (Made 0 (Stmt.allLabels program.stmts)) (program.code vars lineOf ++ [.insn .ret])
      (List.range' 0 (Stmt.allLabels program.stmts)) := by
  have statements := Stmt.allLabelled sound lineOf program.stmts proper known 0
  have last : Labelled vars.size (Made 0 (Stmt.allLabels program.stmts)) [.insn .ret] [] :=
    .insn (by decide) .nil
  simpa [Program.code] using ((prologueCode_labelled _ vars).append statements).append last

namespace ClassFile

/-- Every jump goes to a label that is marked. -/
theorem Labelled.marked {count k : Nat} {code : List Step}
    (labelled : Labelled count (Made 0 k) code (List.range' 0 k)) {op : Opcode} {label : Nat}
    (jump : Step.jump op label ∈ code) : ∃ first rest, code = first ++ .mark label :: rest := by
  have inside := labelled.jumps op label jump
  have made : label ∈ code.filterMap Step.marked? := by
    rw [labelled.marks.mem_iff, List.mem_range'_1]
    exact inside
  obtain ⟨s, member, marks⟩ := List.mem_filterMap.mp made
  have same : s = .mark label := by
    cases s <;> cases marks
    rfl
  rw [same] at member
  exact List.append_of_mem member

namespace Method

/-- Usual steps that mark no label twice can be assembled. -/
theorem steps_ok {steps : List Step} (method : Method) (pool : Pool)
    (usual : ∀ s ∈ steps, s.Usual) (once : (steps.filterMap Step.marked?).Nodup)
    (new : ∀ label ∈ steps.filterMap Step.marked?, method.labels[label]? = none) :
    ∃ after next, method.steps pool steps = .ok (after, next) := by
  induction steps generalizing method pool with
  | nil => exact ⟨method, pool, rfl⟩
  | cons s rest ih =>
    obtain ⟨here, later⟩ := List.forall_mem_cons.mp usual
    have free : ∀ label, s.marked? = some label → method.labels[label]? = none := by
      intro label marks
      refine new label ?_
      rw [List.filterMap_cons_some marks]
      exact List.mem_cons_self
    obtain ⟨middle, grown, stepped⟩ := step_ok method pool here.regular free
    obtain ⟨-, did⟩ := step_did stepped
    have fresh : ∀ label ∈ rest.filterMap Step.marked?, middle.labels[label]? = none := by
      intro label member
      rw [did.labels label]
      cases marks : s.marked? with
      | none =>
        rw [List.filterMap_cons_none marks] at new
        simpa using new label member
      | some other =>
        rw [List.filterMap_cons_some marks] at new once
        have apart : other ≠ label := by
          rintro rfl
          exact (List.nodup_cons.mp once).1 member
        simpa [apart] using new label (List.mem_cons_of_mem other member)
    have onceRest : (rest.filterMap Step.marked?).Nodup := by
      cases marks : s.marked? with
      | none => rwa [List.filterMap_cons_none marks] at once
      | some other =>
        rw [List.filterMap_cons_some marks] at once
        exact (List.nodup_cons.mp once).2
    obtain ⟨after, next, assembled⟩ := ih middle grown later onceRest fresh
    refine ⟨after, next, ?_⟩
    simp only [steps, stepped]
    exact assembled

end Method

/-- Jumps that are in reach one by one are all in reach. -/
theorem allReach_of_jumps {pool : Pool} {target : Nat → Option Nat} {steps : List Step}
    {offset : Nat}
    (bound : ∀ op label, Step.jump op label ∈ steps → ∃ place, target label = some place)
    (near : ∀ jump ∈ jumpsFrom pool offset steps, ∀ place, target jump.label = some place →
      -32768 ≤ (place : Int) - jump.offset ∧ (place : Int) - jump.offset ≤ 32767) :
    AllReach pool target offset steps := by
  induction steps generalizing offset with
  | nil => trivial
  | cons s rest ih =>
    rw [jumpsFrom] at near
    refine ⟨?_, ih (fun op label member => bound op label (List.mem_cons_of_mem s member))
      fun jump member => near jump (List.mem_append_right _ member)⟩
    cases s with
    | jump op label =>
      obtain ⟨place, found⟩ := bound op label List.mem_cons_self
      exact ⟨place, found, near ⟨label, offset⟩ (by simp [Step.jumps]) place found⟩
    | insn | push | localVar | mark | classOperand | fieldOperand | methodOperand | line | nops =>
      trivial

end ClassFile

end Minilang
