import Minilang.Proofs.ClassLowering
import Minilang.Proofs.ConsistentTyping
import Minilang.Proofs.RealizedCode

/-! The operand stack at every instruction of generated code, as a function of the tree. An
expression leaves one more integer than it found; a counting loop keeps two more integers under
its body. -/

namespace Minilang

namespace ClassFile

/-- What is below the printed value. -/
def streamType : VType := .object "java/io/PrintStream"

def scannerType : VType := .object scannerClass

/-- The stacks at the instructions of a truth value that starts from some operands. -/
def truthShapes (operands σ : List VType) : List (List VType) := [operands, σ, .int :: σ, σ]

end ClassFile

open ClassFile

/-- The stacks at the instructions of an expression that starts on `σ`. -/
def Expr.shapes (σ : List VType) : Expr → List (List VType)
  | .absent | .hollow .. | .unknown _ => []
  | .intLit .. | .varRef .. => [σ]
  | .paren _ inner => inner.shapes σ
  | .read _ => [σ, scannerType :: σ]
  | .unary _ op operand =>
      operand.shapes σ ++
        match op with
        | .neg => [.int :: σ]
        | .not => truthShapes (.int :: σ) σ
        | _ => []
  | .binary _ form _ left right =>
      match form with
      | .additive | .multiplicative =>
          left.shapes σ ++ right.shapes (.int :: σ) ++ [.int :: .int :: σ]
      | .comparison =>
          left.shapes σ ++ right.shapes (.int :: σ) ++ truthShapes (.int :: .int :: σ) σ
      | .logicalAnd | .logicalOr =>
          left.shapes σ ++ [.int :: σ, .int :: .int :: σ, .int :: σ] ++ right.shapes σ

/-- The stacks at the instructions of the step of a counting loop. -/
def Expr.stepShapes (σ : List VType) (step : Expr) : List (List VType) :=
  if step.isAbsent then [σ] else step.shapes σ

mutual

/-- The stacks at the instructions of a statement that starts on `σ`. -/
def Stmt.shapes (σ : List VType) : Stmt → List (List VType)
  | .absent | .hollow .. | .unknown _ => []
  | .assign _ _ _ value => value.shapes σ ++ [.int :: σ]
  | .read .. => [σ, scannerType :: σ, .int :: σ]
  | .print _ value => [σ] ++ value.shapes (streamType :: σ) ++ [.int :: streamType :: σ]
  | .ifElse _ cond thenBody elseBody hasElse =>
      cond.shapes σ ++ [.int :: σ] ++ Stmt.allShapes σ thenBody ++
        if hasElse then [σ] ++ Stmt.allShapes σ elseBody else []
  | .whileLoop _ cond body => cond.shapes σ ++ [.int :: σ] ++ Stmt.allShapes σ body ++ [σ]
  | .forLoop _ _ _ start stop step body =>
      start.shapes σ ++ [.int :: σ, .int :: .int :: σ] ++ stop.shapes (.int :: σ) ++
        step.stepShapes (.int :: .int :: σ) ++
        [.int :: .int :: .int :: σ, .int :: .int :: .int :: σ,
          .int :: .int :: .int :: .int :: .int :: σ, .int :: .int :: .int :: σ,
          .int :: .int :: .int :: σ, .int :: .int :: .int :: .int :: σ] ++
        Stmt.allShapes (.int :: .int :: σ) body ++
        [.int :: .int :: σ, .int :: .int :: σ, .int :: .int :: .int :: σ,
          .int :: .int :: .int :: .int :: σ, .int :: .int :: .int :: σ,
          .int :: .int :: .int :: .int :: σ, .int :: .int :: .int :: σ, .int :: .int :: σ]

def Stmt.allShapes (σ : List VType) : List Stmt → List (List VType)
  | [] => []
  | s :: rest => s.shapes σ ++ Stmt.allShapes σ rest

end

@[simp] theorem width_lineCode (lineOf : Option (Span → Nat)) (site : Site) :
    width (lineCode lineOf site) = 0 := by
  cases lineOf <;> rfl

@[simp] theorem width_truthCode (branch : Opcode) (n : Nat) : width (truthCode branch n) = 4 := rfl

@[simp] theorem width_readCode : width readCode = 2 := rfl

theorem Expr.length_shapes {isName : Bytes → Prop} (vars : Variables) (e : Expr)
    (proper : e.Proper isName) (n : Nat) (σ : List VType) :
    (e.shapes σ).length = width (e.code vars n) := by
  induction e generalizing n σ with
  | absent | hollow | unknown => exact proper.elim
  | intLit | read => rfl
  | varRef site name =>
    rw [Expr.code]
    split <;> rfl
  | paren site inner ih => exact ih proper n σ
  | unary site op operand ih =>
    rcases proper.1 with rfl | rfl | rfl <;>
      simp [Expr.shapes, Expr.code, ih proper.2 n, truthShapes, Step.size]
  | binary site form op left right leftIh rightIh =>
    obtain ⟨admits, first, second⟩ := proper
    cases form with
    | additive =>
      obtain ⟨code, found⟩ := arithmetic?_isSome admits (.inl rfl)
      simp [Expr.shapes, Expr.code, leftIh first n, rightIh second (n + left.labels), found, Step.size]
    | multiplicative =>
      obtain ⟨code, found⟩ := arithmetic?_isSome admits (.inr rfl)
      simp [Expr.shapes, Expr.code, leftIh first n, rightIh second (n + left.labels), found, Step.size]
    | comparison =>
      obtain ⟨cond, found⟩ := condition?_isSome admits
      simp [Expr.shapes, Expr.code, leftIh first n, rightIh second (n + left.labels), found,
        truthShapes]
    | logicalAnd | logicalOr =>
      simp [Expr.shapes, Expr.code, leftIh first (n + 1), rightIh second (n + 1 + left.labels),
        Step.size]
      omega

theorem Expr.length_stepShapes {isName : Bytes → Prop} (vars : Variables) {step : Expr}
    (proper : step.isAbsent = false → step.Proper isName) (n : Nat) (σ : List VType) :
    (step.stepShapes σ).length = width (step.stepCode vars n) := by
  rw [Expr.stepShapes, Expr.stepCode]
  cases absent : step.isAbsent with
  | true => rfl
  | false => exact step.length_shapes vars (proper absent) n σ

/-- The first instruction of an expression finds the stack it starts on. -/
theorem Expr.shapes_head {isName : Bytes → Prop} (e : Expr) (proper : e.Proper isName)
    (σ : List VType) : ∃ rest, e.shapes σ = σ :: rest := by
  induction e generalizing σ with
  | absent | hollow | unknown => exact proper.elim
  | intLit | varRef | read => exact ⟨_, rfl⟩
  | paren site inner ih => exact ih proper σ
  | unary site op operand ih =>
    obtain ⟨rest, same⟩ := ih proper.2 σ
    rcases proper.1 with rfl | rfl | rfl <;> simp only [Expr.shapes, same, List.cons_append] <;>
      exact ⟨_, rfl⟩
  | binary site form op left right leftIh _ =>
    obtain ⟨rest, same⟩ := leftIh proper.2.1 σ
    cases form <;> simp only [Expr.shapes, same, List.cons_append] <;> exact ⟨_, rfl⟩

theorem Expr.stepShapes_head {isName : Bytes → Prop} {step : Expr}
    (proper : step.isAbsent = false → step.Proper isName) (σ : List VType) :
    ∃ rest, step.stepShapes σ = σ :: rest := by
  rw [Expr.stepShapes]
  cases absent : step.isAbsent with
  | true => exact ⟨_, rfl⟩
  | false => exact step.shapes_head (proper absent) σ

mutual

theorem Stmt.length_shapes {isName : Bytes → Prop} (vars : Variables)
    (lineOf : Option (Span → Nat)) : (s : Stmt) → s.Proper isName → (n : Nat) → (σ : List VType) →
      (s.shapes σ).length = width (s.code vars lineOf n)
  | .absent, proper, _, _ | .hollow .., proper, _, _ | .unknown _, proper, _, _ => proper.elim
  | .assign _ _ _ value, proper, n, σ => by
    simp [Stmt.shapes, Stmt.code, value.length_shapes vars proper.2 n, Step.size]
  | .read .., _, _, _ => by simp [Stmt.shapes, Stmt.code, Step.size]
  | .print _ value, proper, n, σ => by
    simp [Stmt.shapes, Stmt.code, value.length_shapes vars proper n, Step.size]
    omega
  | .ifElse _ cond thenBody elseBody hasElse, proper, n, σ => by
    obtain ⟨test, yes, no, -⟩ := proper
    cases hasElse with
    | true =>
      simp [Stmt.shapes, Stmt.code, cond.length_shapes vars test (n + 2), Step.size,
        Stmt.length_allShapes vars lineOf thenBody yes (n + 2 + cond.labels),
        Stmt.length_allShapes vars lineOf elseBody no
          (n + 2 + cond.labels + Stmt.allLabels thenBody)]
      omega
    | false =>
      simp [Stmt.shapes, Stmt.code, cond.length_shapes vars test (n + 1), Step.size,
        Stmt.length_allShapes vars lineOf thenBody yes (n + 1 + cond.labels)]
      omega
  | .whileLoop _ cond body, proper, n, σ => by
    simp [Stmt.shapes, Stmt.code, cond.length_shapes vars proper.1 (n + 2), Step.size,
      Stmt.length_allShapes vars lineOf body proper.2 (n + 2 + cond.labels)]
    omega
  | .forLoop _ _ _ start stop step body, proper, n, σ => by
    obtain ⟨-, first, last, increment, inside⟩ := proper
    simp [Stmt.shapes, Stmt.code, Step.size, start.length_shapes vars first (n + 2),
      stop.length_shapes vars last (n + 2 + start.labels),
      Expr.length_stepShapes vars increment (n + 2 + start.labels + stop.labels),
      Stmt.length_allShapes vars lineOf body inside
        (n + 2 + start.labels + stop.labels + step.labels)]
    omega

theorem Stmt.length_allShapes {isName : Bytes → Prop} (vars : Variables)
    (lineOf : Option (Span → Nat)) : (body : List Stmt) → Stmt.AllProper isName body → (n : Nat) →
      (σ : List VType) → (Stmt.allShapes σ body).length = width (Stmt.allCode vars lineOf n body)
  | [], _, _, _ => rfl
  | s :: rest, proper, n, σ => by
    simp [Stmt.allShapes, Stmt.allCode, s.length_shapes vars lineOf proper.1 n,
      Stmt.length_allShapes vars lineOf rest proper.2 (n + s.labels)]

end

/-- The first instruction of a statement finds the stack it starts on. -/
theorem Stmt.shapes_head {isName : Bytes → Prop} (s : Stmt) (proper : s.Proper isName)
    (σ : List VType) : ∃ rest, s.shapes σ = σ :: rest := by
  cases s with
  | absent | hollow | unknown => exact proper.elim
  | read | print => exact ⟨_, rfl⟩
  | assign _ _ _ value =>
    obtain ⟨rest, same⟩ := value.shapes_head proper.2 σ
    simp only [Stmt.shapes, same, List.cons_append]
    exact ⟨_, rfl⟩
  | ifElse _ cond =>
    obtain ⟨rest, same⟩ := cond.shapes_head proper.1 σ
    simp only [Stmt.shapes, same, List.cons_append]
    exact ⟨_, rfl⟩
  | whileLoop _ cond =>
    obtain ⟨rest, same⟩ := cond.shapes_head proper.1 σ
    simp only [Stmt.shapes, same, List.cons_append]
    exact ⟨_, rfl⟩
  | forLoop _ _ _ start =>
    obtain ⟨rest, same⟩ := start.shapes_head proper.2.1 σ
    simp only [Stmt.shapes, same, List.cons_append]
    exact ⟨_, rfl⟩

/-- So does whatever follows a list of statements, if they are followed on the same stack. -/
theorem Stmt.allShapes_head {isName : Bytes → Prop} (body : List Stmt)
    (proper : Stmt.AllProper isName body) (σ : List VType) (more : List (List VType)) :
    ∃ rest, Stmt.allShapes σ body ++ σ :: more = σ :: rest := by
  cases body with
  | nil => exact ⟨_, rfl⟩
  | cons s body =>
    obtain ⟨rest, same⟩ := s.shapes_head proper.1 σ
    simp only [Stmt.allShapes, same, List.cons_append]
    exact ⟨_, rfl⟩

namespace ClassFile

/-- Stacks that are at most one deeper with every instruction. -/
def Climbs (base : Nat) (shapes : List (List VType)) : Prop :=
  ∀ i shape, shapes[i]? = some shape → shape.length ≤ base + i

theorem climbs_nil (base : Nat) : Climbs base [] := nofun

theorem Climbs.mono {base higher : Nat} {shapes : List (List VType)} (climbs : Climbs base shapes)
    (le : base ≤ higher) : Climbs higher shapes :=
  fun i shape found => (climbs i shape found).trans (by omega)

theorem Climbs.append {base : Nat} {first second : List (List VType)} (low : Climbs base first)
    (high : Climbs (base + first.length) second) : Climbs base (first ++ second) := by
  intro i shape found
  rw [List.getElem?_append] at found
  split at found
  · exact low i shape found
  · have bound := high _ shape found
    omega

theorem Climbs.cons {base : Nat} {shape : List VType} {rest : List (List VType)}
    (low : shape.length ≤ base) (high : Climbs (base + 1) rest) : Climbs base (shape :: rest) := by
  intro i other found
  cases i with
  | zero => cases found; exact low
  | succ i =>
    have bound := high i other found
    omega

end ClassFile

theorem Expr.shapes_pos {isName : Bytes → Prop} {e : Expr} (proper : e.Proper isName)
    (σ : List VType) : 0 < (e.shapes σ).length := by
  obtain ⟨rest, same⟩ := e.shapes_head proper σ
  simp [same]

theorem Expr.shapes_climb {isName : Bytes → Prop} (e : Expr) (proper : e.Proper isName)
    (σ : List VType) : Climbs σ.length (e.shapes σ) := by
  induction e generalizing σ with
  | absent | hollow | unknown => exact proper.elim
  | intLit | varRef => exact .cons (le_refl _) (climbs_nil _)
  | read => exact .cons (le_refl _) (.cons (le_refl _) (climbs_nil _))
  | paren site inner ih => exact ih proper σ
  | unary site op operand ih =>
    have some_ := shapes_pos proper.2 σ
    refine (ih proper.2 σ).append ?_
    rcases proper.1 with rfl | rfl | rfl
    · exact climbs_nil _
    · exact .cons (by simp; omega) (climbs_nil _)
    · exact .cons (by simp; omega) (.cons (by omega) (.cons (by simp; omega)
        (.cons (by omega) (climbs_nil _))))
  | binary site form op left right leftIh rightIh =>
    obtain ⟨-, first, second⟩ := proper
    have someLeft := shapes_pos first σ
    have someRight := shapes_pos second (.int :: σ)
    have both : Climbs σ.length (left.shapes σ ++ right.shapes (.int :: σ)) :=
      (leftIh first σ).append ((rightIh second (.int :: σ)).mono (by simp; omega))
    cases form with
    | additive | multiplicative => exact both.append (.cons (by simp; omega) (climbs_nil _))
    | comparison =>
      exact both.append (.cons (by simp; omega) (.cons (by simp; omega) (.cons (by simp; omega)
        (.cons (by simp; omega) (climbs_nil _)))))
    | logicalAnd | logicalOr =>
      refine ((leftIh first σ).append (.cons (by simp; omega) (.cons (by simp; omega)
        (.cons (by simp; omega) (climbs_nil _))))).append ((rightIh second σ).mono (by simp))

theorem Expr.stepShapes_climb {isName : Bytes → Prop} {step : Expr}
    (proper : step.isAbsent = false → step.Proper isName) (σ : List VType) :
    Climbs σ.length (step.stepShapes σ) ∧ 0 < (step.stepShapes σ).length := by
  rw [Expr.stepShapes]
  cases absent : step.isAbsent with
  | true => exact ⟨.cons (le_refl _) (climbs_nil _), Nat.zero_lt_one⟩
  | false => exact ⟨step.shapes_climb (proper absent) σ, shapes_pos (proper absent) σ⟩

mutual

theorem Stmt.shapes_climb {isName : Bytes → Prop} : (s : Stmt) → s.Proper isName →
    (σ : List VType) → Climbs σ.length (s.shapes σ)
  | .absent, proper, _ | .hollow .., proper, _ | .unknown _, proper, _ => proper.elim
  | .assign _ _ _ value, proper, σ => by
    have some_ := Expr.shapes_pos proper.2 σ
    exact (value.shapes_climb proper.2 σ).append (.cons (by simp; omega) (climbs_nil _))
  | .read .., _, σ => by
    exact .cons (le_refl _) (.cons (le_refl _) (.cons (by simp) (climbs_nil _)))
  | .print _ value, proper, σ => by
    have some_ := Expr.shapes_pos proper (streamType :: σ)
    refine (Climbs.cons (le_refl _) ?_).append (.cons (by simp; omega) (climbs_nil _))
    exact value.shapes_climb proper (streamType :: σ)
  | .ifElse _ cond thenBody elseBody hasElse, proper, σ => by
    obtain ⟨test, yes, no, -⟩ := proper
    have some_ := Expr.shapes_pos test σ
    have then_ : Climbs σ.length (cond.shapes σ ++ [.int :: σ] ++ Stmt.allShapes σ thenBody) :=
      ((cond.shapes_climb test σ).append (.cons (by simp; omega) (climbs_nil _))).append
        ((Stmt.allShapes_climb thenBody yes σ).mono (by simp))
    refine then_.append ?_
    cases hasElse with
    | true => exact .cons (by simp) ((Stmt.allShapes_climb elseBody no σ).mono (by simp; omega))
    | false => exact climbs_nil _
  | .whileLoop _ cond body, proper, σ => by
    have some_ := Expr.shapes_pos proper.1 σ
    refine (((cond.shapes_climb proper.1 σ).append (.cons (by simp; omega) (climbs_nil _))).append
      ((Stmt.allShapes_climb body proper.2 σ).mono (by simp))).append ?_
    exact .cons (by simp) (climbs_nil _)
  | .forLoop _ _ _ start stop step body, proper, σ => by
    obtain ⟨-, first, last, increment, inside⟩ := proper
    have someStart := Expr.shapes_pos first σ
    have someStop := Expr.shapes_pos last (.int :: σ)
    obtain ⟨stepClimbs, someStep⟩ := Expr.stepShapes_climb increment (.int :: .int :: σ)
    simp only [Stmt.shapes, List.append_assoc]
    refine (start.shapes_climb first σ).append (.append ?_ (.append ?_ (.append ?_
      (.append ?_ (.append ?_ ?_)))))
    · exact .cons (by simp; omega) (.cons (by simp; omega) (climbs_nil _))
    · exact (stop.shapes_climb last (.int :: σ)).mono (by simp; omega)
    · exact stepClimbs.mono (by simp; omega)
    · exact .cons (by simp; omega) (.cons (by simp; omega) (.cons (by simp; omega)
        (.cons (by simp; omega) (.cons (by simp; omega) (.cons (by simp; omega)
          (climbs_nil _))))))
    · exact (Stmt.allShapes_climb body inside _).mono (by simp; omega)
    · exact .cons (by simp; omega) (.cons (by simp; omega) (.cons (by simp; omega)
        (.cons (by simp; omega) (.cons (by simp; omega) (.cons (by simp; omega)
          (.cons (by simp; omega) (.cons (by simp; omega) (climbs_nil _))))))))

theorem Stmt.allShapes_climb {isName : Bytes → Prop} : (body : List Stmt) →
    Stmt.AllProper isName body → (σ : List VType) → Climbs σ.length (Stmt.allShapes σ body)
  | [], _, σ => climbs_nil _
  | s :: rest, proper, σ =>
    (s.shapes_climb proper.1 σ).append ((Stmt.allShapes_climb rest proper.2 σ).mono (by simp))

end

namespace ClassFile

/-- A stack of integers, scanners and streams. -/
def Plain (σ : List VType) : Prop := ∀ type ∈ σ, type = .int ∨ type = scannerType ∨ type = streamType

theorem plain_cons {type : VType} {σ : List VType} : Plain (type :: σ) ↔
    (type = .int ∨ type = scannerType ∨ type = streamType) ∧ Plain σ := List.forall_mem_cons

@[simp] theorem plain_int {σ : List VType} : Plain (.int :: σ) ↔ Plain σ := by simp [plain_cons]

@[simp] theorem plain_scanner {σ : List VType} : Plain (scannerType :: σ) ↔ Plain σ := by
  simp [plain_cons]

@[simp] theorem plain_stream {σ : List VType} : Plain (streamType :: σ) ↔ Plain σ := by
  simp [plain_cons]

end ClassFile

theorem Expr.shapes_plain (e : Expr) {σ : List VType} (plain : Plain σ) :
    ∀ shape ∈ e.shapes σ, Plain shape := by
  induction e generalizing σ with
  | absent | hollow | unknown => exact fun _ member => nomatch member
  | intLit | varRef | read => simp [Expr.shapes, plain]
  | paren site inner ih => exact ih plain
  | unary site op operand ih =>
    refine List.forall_mem_append.mpr ⟨ih plain, ?_⟩
    cases op <;> simp [truthShapes, plain]
  | binary site form op left right leftIh rightIh =>
    have first := leftIh plain
    have above : Plain (.int :: σ) := by simpa using plain
    cases form with
    | additive | multiplicative | comparison =>
      have both := List.forall_mem_append.mpr ⟨first, rightIh above⟩
      exact List.forall_mem_append.mpr ⟨both, by simp [truthShapes, plain]⟩
    | logicalAnd | logicalOr =>
      have middle : ∀ shape ∈ [.int :: σ, .int :: .int :: σ, .int :: σ], Plain shape := by
        simp [plain]
      exact List.forall_mem_append.mpr
        ⟨List.forall_mem_append.mpr ⟨first, middle⟩, rightIh plain⟩

mutual

theorem Stmt.shapes_plain : (s : Stmt) → {σ : List VType} → Plain σ →
    ∀ shape ∈ s.shapes σ, Plain shape
  | .absent, _, _ | .hollow .., _, _ | .unknown _, _, _ => fun _ member => nomatch member
  | .assign _ _ _ value, σ, plain => by
    simp only [Stmt.shapes, List.forall_mem_append]
    exact ⟨value.shapes_plain plain, by simp [plain]⟩
  | .read .., σ, plain => by simp [Stmt.shapes, plain]
  | .print _ value, σ, plain => by
    simp only [Stmt.shapes, List.forall_mem_append]
    exact ⟨⟨by simp [plain], value.shapes_plain (by simpa using plain)⟩, by simp [plain]⟩
  | .ifElse _ cond thenBody elseBody hasElse, σ, plain => by
    simp only [Stmt.shapes, List.forall_mem_append]
    refine ⟨⟨⟨cond.shapes_plain plain, by simp [plain]⟩, Stmt.allShapes_plain thenBody plain⟩, ?_⟩
    cases hasElse with
    | true =>
      exact List.forall_mem_append.mpr ⟨by simp [plain], Stmt.allShapes_plain elseBody plain⟩
    | false => exact fun _ member => nomatch member
  | .whileLoop _ cond body, σ, plain => by
    simp only [Stmt.shapes, List.forall_mem_append]
    exact ⟨⟨⟨cond.shapes_plain plain, by simp [plain]⟩, Stmt.allShapes_plain body plain⟩,
      by simp [plain]⟩
  | .forLoop _ _ _ start stop step body, σ, plain => by
    have above : Plain (.int :: .int :: σ) := by simpa using plain
    have increment : ∀ shape ∈ step.stepShapes (.int :: .int :: σ), Plain shape := by
      rw [Expr.stepShapes]
      split
      · simpa using plain
      · exact step.shapes_plain above
    simp only [Stmt.shapes, List.forall_mem_append]
    refine ⟨⟨⟨⟨⟨⟨start.shapes_plain plain, by simp [plain]⟩, stop.shapes_plain (by simpa using plain)⟩,
      increment⟩, by simp [plain]⟩, Stmt.allShapes_plain body above⟩, by simp [plain]⟩

theorem Stmt.allShapes_plain : (list : List Stmt) → {σ : List VType} → Plain σ →
    ∀ shape ∈ Stmt.allShapes σ list, Plain shape
  | [], _, _ => fun _ member => nomatch member
  | s :: rest, _, plain =>
    List.forall_mem_append.mpr ⟨s.shapes_plain plain, Stmt.allShapes_plain rest plain⟩

end

end Minilang
