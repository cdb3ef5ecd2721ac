import Mathlib.Data.Set.Insert
import Minilang.Proofs.DecimalText
import Minilang.Proofs.IrLowering

/-! The names of intermediate code: each number that lowering gives out names one cell, value or
label, every branch goes to a label of the same code, and what an instruction uses is a cell or a
result of that code. -/

namespace Minilang

namespace Ir

theorem temp_inj {n m : Nat} (same : temp n = temp m) : n = m :=
  Bytes.dec_inj (List.append_cancel_left same)

/-- The name of a block or of a result. -/
def Item.name? : Item → Option Bytes
  | .label name => some name
  | .insn body => body.result

/-- The names that items define. -/
def namesOf (items : List Item) : List Bytes := items.filterMap Item.name?

/-- The next `count` names after the first `n`. -/
def temps (n count : Nat) : List Bytes := (List.range' (n + 1) count).map temp

@[simp] theorem namesOf_append (first second : List Item) :
    namesOf (first ++ second) = namesOf first ++ namesOf second := List.filterMap_append

@[simp] theorem namesOf_nil : namesOf [] = [] := rfl

@[simp] theorem namesOf_plain (action : Action) (rest : List Item) :
    namesOf (plain action :: rest) = namesOf rest := rfl

@[simp] theorem namesOf_result (n : Nat) (action : Action) (rest : List Item) :
    namesOf (result n action :: rest) = temp n :: namesOf rest := rfl

@[simp] theorem namesOf_mark (n : Nat) (rest : List Item) :
    namesOf (mark n :: rest) = temp n :: namesOf rest := rfl

theorem temps_add (n a b : Nat) : temps n (a + b) = temps n a ++ temps (n + a) b := by
  rw [temps, ← List.range'_append_1, List.map_append, Nat.add_right_comm]
  rfl

theorem temps_zero (n : Nat) : temps n 0 = [] := rfl

theorem temps_succ (n a : Nat) : temps n (a + 1) = temps n a ++ [temp (n + a + 1)] := temps_add n a 1

/-- Each name of a range is made once, for a cell or by an item. -/
def MadeOnce (n count : Nat) (cells : List Nat) (items : List Item) : Prop :=
  (cells.map temp ++ namesOf items).Perm (temps n count)

/-- How often a name is the `n`th one. -/
def occurs (name : Bytes) (n : Nat) : Nat := [temp n].count name

theorem count_temp_cons (name : Bytes) (n : Nat) (rest : List Bytes) :
    (temp n :: rest).count name = rest.count name + occurs name n := by
  rw [occurs, List.count_cons, List.count_singleton]

theorem MadeOnce.count {n count : Nat} {cells : List Nat} {items : List Item}
    (made : MadeOnce n count cells items) (name : Bytes) :
    (cells.map temp).count name + (namesOf items).count name = (temps n count).count name := by
  rw [← List.count_append]
  exact List.perm_iff_count.mp made name

theorem MadeOnce.of_count {n count : Nat} {cells : List Nat} {items : List Item}
    (counts : ∀ name,
      (cells.map temp).count name + (namesOf items).count name = (temps n count).count name) :
    MadeOnce n count cells items := by
  refine List.perm_iff_count.mpr fun name => ?_
  rw [List.count_append]
  exact counts name

/-- The names that an operand counts on. -/
def Operand.names (operand : Operand) : Set Bytes := {name | operand.name? = some name}

@[simp] theorem Operand.names_imm (value : Int32) : (Operand.imm value).names = ∅ := by
  ext name
  simp [Operand.names, Operand.name?]

@[simp] theorem Operand.names_reg (name : Bytes) : (Operand.reg name).names = {name} := by
  ext other
  simp [Operand.names, Operand.name?, eq_comm]

@[simp] theorem Operand.name?_eq_some {operand : Operand} {name : Bytes} :
    operand.name? = some name ↔ name ∈ operand.names := Iff.rfl

/-- The names of the values that items define. -/
def resultsOf (items : List Item) : List Bytes :=
  items.filterMap fun
    | .label _ => none
    | .insn insn => insn.result

@[simp] theorem resultsOf_append (first second : List Item) :
    resultsOf (first ++ second) = resultsOf first ++ resultsOf second := List.filterMap_append

@[simp] theorem resultsOf_nil : resultsOf [] = [] := rfl

@[simp] theorem resultsOf_plain (action : Action) (rest : List Item) :
    resultsOf (plain action :: rest) = resultsOf rest := rfl

@[simp] theorem resultsOf_result (n : Nat) (action : Action) (rest : List Item) :
    resultsOf (result n action :: rest) = temp n :: resultsOf rest := rfl

@[simp] theorem resultsOf_mark (n : Nat) (rest : List Item) :
    resultsOf (mark n :: rest) = resultsOf rest := rfl

theorem mem_resultsOf {items : List Item} {name : Bytes} :
    name ∈ resultsOf items ↔ ∃ insn, Item.insn insn ∈ items ∧ insn.result = some name := by
  rw [resultsOf, List.mem_filterMap]
  refine ⟨?_, ?_⟩
  · rintro ⟨item, member, named⟩
    cases item with
    | label => cases named
    | insn insn => exact ⟨insn, member, named⟩
  · rintro ⟨insn, member, named⟩
    exact ⟨.insn insn, member, named⟩

@[simp] theorem label_ne_plain {label : Bytes} {action : Action} :
    Item.label label ≠ plain action := nofun

@[simp] theorem label_ne_result {label : Bytes} {n : Nat} {action : Action} :
    Item.label label ≠ result n action := nofun

@[simp] theorem label_eq_mark {label : Bytes} {n : Nat} :
    Item.label label = mark n ↔ label = temp n := by
  simp [mark]

/-- An instruction fits into items: its targets are among their labels, and what it uses is known
or one of their results. Cells are made elsewhere. -/
structure Fits (known : Set Bytes) (items : List Item) (action : Action) : Prop where
  targets : ∀ label ∈ action.targets, Item.label label ∈ items
  uses : ∀ name ∈ action.uses, name ∈ known ∨ name ∈ resultsOf items
  notAlloca : action ≠ .alloca

/-- Every instruction of a part fits into the whole. -/
def FitsIn (known : Set Bytes) (part whole : List Item) : Prop :=
  ∀ insn, Item.insn insn ∈ part → Fits known whole insn.action

namespace FitsIn

variable {known : Set Bytes} {part rest whole more : List Item} {action : Action} {n : Nat}

theorem within (fits : FitsIn known part whole) (within : whole ⊆ more) : FitsIn known part more := by
  intro insn member
  obtain ⟨targets, uses, notAlloca⟩ := fits insn member
  refine ⟨fun label target => within (targets label target), fun name use => ?_, notAlloca⟩
  rcases uses name use with before | inside
  · exact .inl before
  · obtain ⟨other, present, named⟩ := mem_resultsOf.mp inside
    exact .inr (mem_resultsOf.mpr ⟨other, within present, named⟩)

theorem left (fits : FitsIn known part whole) : FitsIn known part (whole ++ more) :=
  fits.within (List.subset_append_left _ _)

theorem right (fits : FitsIn known part whole) : FitsIn known part (more ++ whole) :=
  fits.within (List.subset_append_right _ _)

@[simp] theorem nil : FitsIn known [] whole := nofun

@[simp] theorem append_iff :
    FitsIn known (part ++ rest) whole ↔ FitsIn known part whole ∧ FitsIn known rest whole := by
  simp only [FitsIn, List.mem_append, or_imp, forall_and]

@[simp] theorem plain_iff : FitsIn known (plain action :: rest) whole ↔
    Fits known whole action ∧ FitsIn known rest whole := by
  simp [FitsIn, plain]

@[simp] theorem result_iff : FitsIn known (result n action :: rest) whole ↔
    Fits known whole action ∧ FitsIn known rest whole := by
  simp [FitsIn, result]

@[simp] theorem mark_iff : FitsIn known (mark n :: rest) whole ↔ FitsIn known rest whole := by
  simp [FitsIn, mark]

end FitsIn

theorem fits_iff {known : Set Bytes} {items : List Item} {action : Action} :
    Fits known items action ↔ (∀ label ∈ action.targets, Item.label label ∈ items) ∧
      (∀ name ∈ action.uses, name ∈ known ∨ name ∈ resultsOf items) ∧ action ≠ .alloca :=
  ⟨fun ⟨targets, uses, notAlloca⟩ => ⟨targets, uses, notAlloca⟩,
    fun ⟨targets, uses, notAlloca⟩ => ⟨targets, uses, notAlloca⟩⟩

end Ir

open Ir

theorem Expr.made_once (e : Expr) (n : Nat) : MadeOnce n e.made (e.cells n) (e.items n) := by
  induction e generalizing n with
  | absent | hollow | unknown | intLit | varRef | read => exact .refl _
  | paren site inner ih => exact ih n
  | unary site op operand ih =>
    refine .of_count fun name => ?_
    have inner := (ih n).count name
    cases op
    all_goals
      simp only [Expr.cells, Expr.items, Expr.made, namesOf_append, namesOf_result, namesOf_nil,
        temps_succ, List.count_append, count_temp_cons, List.count_nil, Nat.add_assoc,
        Nat.reduceAdd, Nat.add_zero] at inner ⊢
      omega
  | binary site form op left right leftIh rightIh =>
    refine .of_count fun name => ?_
    cases form with
    | additive | multiplicative | comparison =>
      have first := (leftIh n).count name
      have second := (rightIh (n + left.made)).count name
      simp only [Expr.cells, Expr.items, Expr.made, List.map_append, namesOf_append, namesOf_result,
        namesOf_nil, temps_add, temps_succ, List.count_append, count_temp_cons, List.count_nil,
        Nat.add_assoc, Nat.reduceAdd] at first second ⊢
      rw [← first, ← second]
      ac_rfl
    | logicalAnd | logicalOr =>
      have first := (leftIh (n + 1)).count name
      have second := (rightIh (n + 1 + left.made + 3)).count name
      have total : left.made + right.made + 5 = 1 + left.made + 3 + right.made + 1 := by omega
      simp only [Expr.cells, Expr.items, Expr.made, total, List.map_cons, List.map_append,
        namesOf_append, namesOf_plain, namesOf_result, namesOf_mark, namesOf_nil, temps_add,
        temps_succ, temps_zero, List.nil_append, List.count_append, count_temp_cons, List.count_nil,
        Nat.add_assoc, Nat.reduceAdd, Nat.add_zero] at first second ⊢
      rw [← first, ← second]
      ac_rfl

mutual

theorem Stmt.made_once : (s : Stmt) → (n : Nat) → MadeOnce n s.made (s.cells n) (s.items n)
  | .absent, _ | .hollow .., _ | .unknown _, _ | .read .., _ => .refl _
  | .assign _ _ _ value, n => by
    simpa [MadeOnce, Stmt.made, Stmt.cells, Stmt.items] using value.made_once n
  | .print _ value, n => by
    simpa [MadeOnce, Stmt.made, Stmt.cells, Stmt.items] using value.made_once n
  | .ifElse _ cond thenBody elseBody hasElse, n => by
    refine .of_count fun name => ?_
    have test := (cond.made_once n).count name
    cases hasElse with
    | true =>
      have yes := (Stmt.allMade_once thenBody (n + cond.made + 4)).count name
      have no := (Stmt.allMade_once elseBody (n + cond.made + 4 + Stmt.allMade thenBody)).count name
      simp only [Stmt.cells, Stmt.items, Stmt.made, if_true, List.map_append, namesOf_append,
        namesOf_plain, namesOf_result, namesOf_mark, namesOf_nil, temps_add, temps_succ,
        temps_zero, List.nil_append, List.count_append, count_temp_cons, List.count_nil,
        Nat.add_assoc, Nat.reduceAdd, Nat.add_zero] at test yes no ⊢
      rw [← test, ← yes, ← no]
      ac_rfl
    | false =>
      have yes := (Stmt.allMade_once thenBody (n + cond.made + 3)).count name
      simp only [Stmt.cells, Stmt.items, Stmt.made, Bool.false_eq_true, if_false, List.map_append,
        namesOf_append, namesOf_plain, namesOf_result, namesOf_mark, namesOf_nil, temps_add,
        temps_succ, temps_zero, List.nil_append, List.count_append, count_temp_cons, List.count_nil,
        Nat.add_assoc, Nat.reduceAdd, Nat.add_zero] at test yes ⊢
      rw [← test, ← yes]
      ac_rfl
  | .whileLoop _ cond body, n => by
    refine .of_count fun name => ?_
    have test := (cond.made_once (n + 3)).count name
    have inside := (Stmt.allMade_once body (n + 3 + cond.made + 1)).count name
    simp only [Stmt.cells, Stmt.items, Stmt.made, List.map_append, namesOf_append, namesOf_plain,
      namesOf_result, namesOf_mark, namesOf_nil, temps_add, temps_succ, temps_zero,
      List.nil_append, List.count_append, count_temp_cons, List.count_nil, Nat.add_assoc,
      Nat.reduceAdd, Nat.add_zero] at test inside ⊢
    rw [← test, ← inside]
    ac_rfl
  | .forLoop _ _ _ start stop step body, n => by
    refine .of_count fun name => ?_
    have first := (start.made_once n).count name
    have last := (stop.made_once (n + start.made)).count name
    have stride := (step.made_once (n + start.made + stop.made)).count name
    have inside :=
      (Stmt.allMade_once body (n + start.made + stop.made + step.made + 5)).count name
    simp only [Stmt.cells, Stmt.items, Stmt.made, List.map_append, namesOf_append, namesOf_plain,
      namesOf_result, namesOf_mark, namesOf_nil, temps_add, temps_succ, temps_zero,
      List.nil_append, List.count_append, count_temp_cons, List.count_nil, Nat.add_assoc,
      Nat.reduceAdd, Nat.add_zero] at first last stride inside ⊢
    rw [← first, ← last, ← stride, ← inside]
    ac_rfl

theorem Stmt.allMade_once : (body : List Stmt) → (n : Nat) →
    MadeOnce n (Stmt.allMade body) (Stmt.allCells n body) (Stmt.allItems n body)
  | [], _ => .refl _
  | s :: rest, n => by
    refine .of_count fun name => ?_
    have first := (Stmt.made_once s n).count name
    have second := (Stmt.allMade_once rest (n + s.made)).count name
    simp only [Stmt.allCells, Stmt.allItems, Stmt.allMade, List.map_append, namesOf_append,
      temps_add, List.count_append] at first second ⊢
    rw [← first, ← second]
    ac_rfl

end

/-- What the operand of an expression names is a result of its code. -/
theorem Expr.operand_defined {isName : Bytes → Prop} (e : Expr) (proper : e.Proper isName) (n : Nat) :
    ∀ name ∈ (e.operand n).names, name ∈ resultsOf (e.items n) := by
  induction e generalizing n with
  | absent | hollow | unknown => exact proper.elim
  | intLit => simp [Expr.operand]
  | varRef | read => simp [Expr.operand, Expr.made, Expr.items]
  | paren site inner ih => exact ih proper n
  | unary site op operand ih =>
    have inner := ih proper.2 n
    rcases proper.1 with rfl | rfl | rfl
    · simpa [Expr.operand, Expr.items] using inner
    · simp [Expr.operand, Expr.items, Expr.made, Nat.add_assoc]
    · simp [Expr.operand, Expr.items, Expr.made, Nat.add_assoc]
  | binary site form op left right leftIh rightIh =>
    have last : n + 1 + left.made + 3 + right.made + 1 = n + (left.made + right.made + 5) := by omega
    cases form <;> simp [Expr.operand, Expr.items, Expr.made, last]
    all_goals simp [Nat.add_assoc]

/-- Every instruction of an expression fits into its code. -/
theorem Expr.items_fit {isName : Bytes → Prop} {known : Set Bytes} (e : Expr)
    (proper : e.Proper isName) (n : Nat) (named : ∀ name, isName name → name ∈ known)
    (cells : ∀ c ∈ e.cells n, temp c ∈ known) : FitsIn known (e.items n) (e.items n) := by
  induction e generalizing n with
  | absent | hollow | unknown => exact proper.elim
  | intLit => exact .nil
  | varRef site name =>
    have cell := named name proper
    simp [Expr.items, fits_iff, Action.targets, Action.uses, cell]
  | read =>
    have cell := cells (n + 1) (by simp [Expr.cells])
    simp [Expr.items, fits_iff, Action.targets, Action.uses, cell]
  | paren site inner ih => exact ih proper n cells
  | unary site op operand ih =>
    have inner := ih proper.2 n cells
    have defined := operand.operand_defined proper.2 n
    rcases proper.1 with rfl | rfl | rfl
    · simpa [Expr.items] using inner
    · simp only [Expr.items, FitsIn.append_iff]
      refine ⟨inner.left, ?_⟩
      simp [fits_iff, Action.targets, Action.uses]
      grind
    · simp only [Expr.items, FitsIn.append_iff]
      refine ⟨inner.left, ?_⟩
      simp [fits_iff, Action.targets, Action.uses]
      grind
  | binary site form op left right leftIh rightIh =>
    obtain ⟨-, first, second⟩ := proper
    cases form with
    | additive | multiplicative | comparison =>
      simp only [Expr.cells, List.mem_append, or_imp, forall_and] at cells
      have leftFits := leftIh first n cells.1
      have rightFits := rightIh second _ cells.2
      have leftDefined := left.operand_defined first n
      have rightDefined := right.operand_defined second (n + left.made)
      simp only [Expr.items, FitsIn.append_iff]
      refine ⟨⟨leftFits.left.left, rightFits.right.left⟩, ?_⟩
      simp [fits_iff, Action.targets, Action.uses]
      grind
    | logicalAnd | logicalOr =>
      simp only [Expr.cells, List.mem_cons, List.mem_append, or_imp, forall_and, forall_eq] at cells
      obtain ⟨cell, inLeft, inRight⟩ := cells
      have leftFits := leftIh first _ inLeft
      have rightFits := rightIh second _ inRight
      have leftDefined := left.operand_defined first (n + 1)
      have rightDefined := right.operand_defined second (n + 1 + left.made + 3)
      simp only [Expr.items, FitsIn.append_iff]
      refine ⟨⟨⟨leftFits.left.left.left, ?_⟩, rightFits.right.left⟩, ?_⟩
      · simp [fits_iff, Action.targets, Action.uses]
        grind
      · simp [fits_iff, Action.targets, Action.uses, cell]
        grind

theorem Expr.step_fits {isName : Bytes → Prop} {known : Set Bytes} (step : Expr)
    (proper : step.isAbsent = false → step.Proper isName) (n : Nat)
    (named : ∀ name, isName name → name ∈ known) (cells : ∀ c ∈ step.cells n, temp c ∈ known) :
    FitsIn known (step.items n) (step.items n) ∧
      ∀ name ∈ (step.stepOperand n).names, name ∈ resultsOf (step.items n) := by
  cases step with
  | absent => simp [Expr.items, Expr.stepOperand, Expr.isAbsent]
  | _ =>
    exact ⟨Expr.items_fit _ (proper rfl) n named cells, Expr.operand_defined _ (proper rfl) n⟩

mutual

/-- Every instruction of a statement fits into its code. -/
theorem Stmt.items_fit {isName : Bytes → Prop} {known : Set Bytes}
    (named : ∀ name, isName name → name ∈ known) : (s : Stmt) → s.Proper isName → (n : Nat) →
      (∀ c ∈ s.cells n, temp c ∈ known) → FitsIn known (s.items n) (s.items n)
  | .absent, proper, _, _ | .hollow .., proper, _, _ | .unknown _, proper, _, _ => proper.elim
  | .assign _ name _ value, proper, n, cells => by
    have fits := value.items_fit proper.2 n named cells
    have defined := value.operand_defined proper.2 n
    have cell := named name proper.1
    simp only [Stmt.items, FitsIn.append_iff]
    refine ⟨fits.left, ?_⟩
    simp [fits_iff, Action.targets, Action.uses]
    grind
  | .read _ name _, proper, n, cells => by
    have cell := named name proper
    simp [Stmt.items, fits_iff, Action.targets, Action.uses, cell]
  | .print _ value, proper, n, cells => by
    have fits := value.items_fit proper n named cells
    have defined := value.operand_defined proper n
    simp only [Stmt.items, FitsIn.append_iff]
    refine ⟨fits.left, ?_⟩
    simp [fits_iff, Action.targets, Action.uses]
    grind
  | .ifElse _ cond thenBody elseBody hasElse, proper, n, cells => by
    obtain ⟨test, yes, no, -⟩ := proper
    have defined := cond.operand_defined test n
    cases hasElse with
    | true =>
      simp only [Stmt.cells, if_true, List.mem_append, or_imp, forall_and] at cells
      have testFits := cond.items_fit test n named cells.1.1
      have thenFits := Stmt.allItems_fit named thenBody yes _ cells.1.2
      have elseFits := Stmt.allItems_fit named elseBody no _ cells.2
      simp only [Stmt.items, if_true, FitsIn.append_iff]
      refine ⟨⟨⟨⟨⟨testFits.left.left.left.left.left, ?_⟩, thenFits.right.left.left.left⟩, ?_⟩,
        elseFits.right.left⟩, ?_⟩
      · simp [fits_iff, Action.targets, Action.uses]
        grind
      · simp [fits_iff, Action.targets, Action.uses]
      · simp [fits_iff, Action.targets, Action.uses]
    | false =>
      simp only [Stmt.cells, Bool.false_eq_true, if_false, List.mem_append, or_imp,
        forall_and] at cells
      have testFits := cond.items_fit test n named cells.1
      have thenFits := Stmt.allItems_fit named thenBody yes _ cells.2
      simp only [Stmt.items, Bool.false_eq_true, if_false, FitsIn.append_iff]
      refine ⟨⟨⟨testFits.left.left.left, ?_⟩, thenFits.right.left⟩, ?_⟩
      · simp [fits_iff, Action.targets, Action.uses]
        grind
      · simp [fits_iff, Action.targets, Action.uses]
  | .whileLoop _ cond body, proper, n, cells => by
    simp only [Stmt.cells, List.mem_append, or_imp, forall_and] at cells
    have defined := cond.operand_defined proper.1 (n + 3)
    have testFits := cond.items_fit proper.1 _ named cells.1
    have bodyFits := Stmt.allItems_fit named body proper.2 _ cells.2
    simp only [Stmt.items, FitsIn.append_iff]
    refine ⟨⟨⟨⟨?_, testFits.right.left.left.left⟩, ?_⟩, bodyFits.right.left⟩, ?_⟩
    · simp [fits_iff, Action.targets, Action.uses]
    · simp [fits_iff, Action.targets, Action.uses]
      grind
    · simp [fits_iff, Action.targets, Action.uses]
  | .forLoop _ name _ start stop step body, proper, n, cells => by
    obtain ⟨counter, first, last, increment, inside⟩ := proper
    have cell := named name counter
    simp only [Stmt.cells, List.mem_append, or_imp, forall_and] at cells
    obtain ⟨⟨⟨inStart, inStop⟩, inStep⟩, inBody⟩ := cells
    have startFits := start.items_fit first n named inStart
    have startDefined := start.operand_defined first n
    have stopFits := stop.items_fit last _ named inStop
    have stopDefined := stop.operand_defined last (n + start.made)
    obtain ⟨stepFits, stepDefined⟩ := step.step_fits increment _ named inStep
    have bodyFits := Stmt.allItems_fit named body inside _ inBody
    simp only [Stmt.items, FitsIn.append_iff]
    refine ⟨⟨⟨⟨⟨⟨startFits.left.left.left.left.left.left, ?_⟩, stopFits.right.left.left.left.left⟩,
      stepFits.right.left.left.left⟩, ?_⟩, bodyFits.right.left⟩, ?_⟩
    · simp [fits_iff, Action.targets, Action.uses]
      grind
    · simp [fits_iff, Action.targets, Action.uses, cell]
      grind
    · simp [fits_iff, Action.targets, Action.uses, cell]
      grind

theorem Stmt.allItems_fit {isName : Bytes → Prop} {known : Set Bytes}
    (named : ∀ name, isName name → name ∈ known) : (body : List Stmt) →
      Stmt.AllProper isName body → (n : Nat) → (∀ c ∈ Stmt.allCells n body, temp c ∈ known) →
      FitsIn known (Stmt.allItems n body) (Stmt.allItems n body)
  | [], _, _, _ => .nil
  | s :: rest, proper, n, cells => by
    simp only [Stmt.allCells, List.mem_append, or_imp, forall_and] at cells
    simp only [Stmt.allItems, FitsIn.append_iff]
    exact ⟨(Stmt.items_fit named s proper.1 n cells.1).left,
      (Stmt.allItems_fit named rest proper.2 _ cells.2).right⟩

end

end Minilang
