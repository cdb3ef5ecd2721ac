import Minilang.Proofs.IrNames

/-! The intermediate code of a program is in static single assignment form. A flow through a list
of items carries the names that are defined on every way there: an instruction may use them, a
branch must bring those that its target counts on, and a label is only met behind a terminator.
Each label of a program counts on the cells, and in a counting loop also on its bounds. -/

namespace Minilang

namespace Ir

def Item.isTerminator : Item → Bool
  | .label _ => false
  | .insn body => body.action.isTerminator

/-- A way from the start of a body to an item, with the items it has passed, latest first. -/
inductive Path (body : List Item) : Nat → List Nat → Prop where
  | start : Path body 0 []
  | next {i : Nat} {passed : List Nat} {item : Item} (path : Path body i passed)
      (present : body[i]? = some item) (goesOn : item.isTerminator = false) :
      Path body (i + 1) (i :: passed)
  | branch {i j : Nat} {passed : List Nat} {insn : Insn} {label : Bytes} (path : Path body i passed)
      (present : body[i]? = some (.insn insn)) (named : label ∈ insn.action.targets)
      (opens : body[j]? = some (.label label)) : Path body j (i :: passed)

/-- The item at a position defines a value. -/
def Defines (body : List Item) (i : Nat) (name : Bytes) : Prop :=
  ∃ insn, body[i]? = some (.insn insn) ∧ insn.result = some name

/-- A name of a value: it is defined or used somewhere. -/
def IsRegister (body : List Item) (name : Bytes) : Prop :=
  ∃ insn, Item.insn insn ∈ body ∧ (insn.result = some name ∨ name ∈ insn.action.uses)

/-- A body in static single assignment form. -/
structure ValidSsa (body : List Item) : Prop where
  defined_once : ∀ name, IsRegister body name → ∃! i, Defines body i name
  no_label : ∀ name, IsRegister body name → Item.label name ∉ body
  targets : ∀ insn, Item.insn insn ∈ body → ∀ label ∈ insn.action.targets,
    ∃! i : Nat, body[i]? = some (Item.label label)
  /-- A terminator is the last item of its block, and no other item is. -/
  blocks : ∀ (i : Nat) item, body[i]? = some item → (item.isTerminator = true ↔
    body[i + 1]? = none ∨ ∃ label, body[i + 1]? = some (.label label))
  entry : ∃ insn, body[0]? = some (.insn insn)
  allocas : ∀ (i : Nat) insn, body[i]? = some (Item.insn insn) → insn.action = .alloca →
    ∀ (j : Nat) label, body[j]? = some (.label label) → i < j
  /-- Each way to a use passes the definition. -/
  dominated : ∀ i passed insn, Path body i passed → body[i]? = some (.insn insn) →
    ∀ name ∈ insn.action.uses, ∃ d ∈ passed, Defines body d name

/-- The known names together with a result. -/
def withResult (known : Set Bytes) : Option Bytes → Set Bytes
  | none => known
  | some name => insert name known

/-- A flow through items, from the names known before to the names known behind; none behind a
terminator. Each label has a scope, the names it counts on. -/
inductive Flow (scope : Bytes → Set Bytes) :
    Option (Set Bytes) → List Item → Option (Set Bytes) → Prop where
  | forget {known kept : Set Bytes} (fewer : kept ⊆ known) : Flow scope (some known) [] (some kept)
  | gone : Flow scope none [] none
  | insn {known : Set Bytes} {insn : Insn} {rest : List Item} {last : Option (Set Bytes)}
      (goesOn : insn.action.isTerminator = false) (uses : ∀ name ∈ insn.action.uses, name ∈ known)
      (flow : Flow scope (some (withResult known insn.result)) rest last) :
      Flow scope (some known) (.insn insn :: rest) last
  | leave {known : Set Bytes} {insn : Insn} {rest : List Item} {last : Option (Set Bytes)}
      (ends : insn.action.isTerminator = true) (uses : ∀ name ∈ insn.action.uses, name ∈ known)
      (brings : ∀ label ∈ insn.action.targets, scope label ⊆ known) (flow : Flow scope none rest last) :
      Flow scope (some known) (.insn insn :: rest) last
  | enter {label : Bytes} {rest : List Item} {last : Option (Set Bytes)}
      (flow : Flow scope (some (scope label)) rest last) :
      Flow scope none (.label label :: rest) last

namespace Flow

variable {scope : Bytes → Set Bytes} {known more kept : Set Bytes} {before last : Option (Set Bytes)}
  {items rest : List Item}

theorem widen (flow : Flow scope before items last) (has : before = some known)
    (wider : known ⊆ more) : Flow scope (some more) items last := by
  induction flow generalizing known more with
  | forget fewer =>
    cases has
    exact .forget (fewer.trans wider)
  | gone => cases has
  | @insn _ body _ _ goesOn uses flow ih =>
    cases has
    refine .insn goesOn (fun name use => wider (uses name use)) (ih rfl ?_)
    cases body.result with
    | none => exact wider
    | some name => exact Set.insert_subset_insert wider
  | leave ends uses brings flow =>
    cases has
    exact .leave ends (fun name use => wider (uses name use))
      (fun label target => (brings label target).trans wider) flow
  | enter => cases has

theorem append {middle : Option (Set Bytes)} (first : Flow scope before items middle)
    (second : Flow scope middle rest last) : Flow scope before (items ++ rest) last := by
  induction first with
  | forget fewer => exact second.widen rfl fewer
  | gone => exact second
  | insn goesOn uses _ ih => exact .insn goesOn uses (ih second)
  | leave ends uses brings _ ih => exact .leave ends uses brings (ih second)
  | enter _ ih => exact .enter (ih second)

/-- Anywhere in a flow there is a flow through what is left. -/
theorem drop (flow : Flow scope before items last) (i : Nat) (inside : i ≤ items.length) :
    ∃ here, Flow scope here (items.drop i) last := by
  induction flow generalizing i with
  | forget fewer =>
    rw [List.drop_nil]
    exact ⟨_, .forget fewer⟩
  | gone =>
    rw [List.drop_nil]
    exact ⟨_, .gone⟩
  | insn goesOn uses flow ih =>
    cases i with
    | zero => exact ⟨_, .insn goesOn uses flow⟩
    | succ i => exact ih i (by simpa using inside)
  | leave ends uses brings flow ih =>
    cases i with
    | zero => exact ⟨_, .leave ends uses brings flow⟩
    | succ i => exact ih i (by simpa using inside)
  | enter flow ih =>
    cases i with
    | zero => exact ⟨_, .enter flow⟩
    | succ i => exact ih i (by simpa using inside)

/-- A flow that does not end with known names goes on with an instruction. -/
theorem goes_on (flow : Flow scope before items none) (has : before = some known) :
    ∃ insn rest, items = .insn insn :: rest := by
  cases flow with
  | insn | leave => exact ⟨_, _, rfl⟩
  | gone | enter => cases has

end Flow

theorem drop_of_getElem? {body : List Item} {i : Nat} {item : Item}
    (present : body[i]? = some item) : body.drop i = item :: body.drop (i + 1) := by
  obtain ⟨inside, rfl⟩ := List.getElem?_eq_some_iff.mp present
  exact List.drop_eq_getElem_cons inside

/-- In a whole flow exactly the terminators close a block. -/
theorem Flow.blocks {scope : Bytes → Set Bytes} {before : Option (Set Bytes)} {body : List Item}
    (flow : Flow scope before body none) {i : Nat} {item : Item} (present : body[i]? = some item) :
    item.isTerminator = true ↔
      body[i + 1]? = none ∨ ∃ label, body[i + 1]? = some (.label label) := by
  have inside := (List.getElem?_eq_some_iff.mp present).1
  have next : body[i + 1]? = (body.drop (i + 1)).head? := by
    rw [List.head?_drop]
  obtain ⟨here, left⟩ := flow.drop i (by omega)
  rw [drop_of_getElem? present] at left
  rw [next]
  cases left with
  | insn goesOn uses flow =>
    obtain ⟨insn, rest, follows⟩ := flow.goes_on rfl
    simp [Item.isTerminator, goesOn, follows]
  | leave ends uses brings flow =>
    simp only [Item.isTerminator, ends, true_iff]
    cases rest : body.drop (i + 1) with
    | nil => exact .inl rfl
    | cons item tail =>
      rw [rest] at flow
      cases flow with
      | enter => exact .inr ⟨_, rfl⟩
  | enter flow =>
    obtain ⟨insn, rest, follows⟩ := flow.goes_on rfl
    simp [Item.isTerminator, follows]

/-- Each of the names is defined by an item that was passed. -/
def DefinedBy (body : List Item) (passed : List Nat) (known : Set Bytes) : Prop :=
  ∀ name ∈ known, ∃ d ∈ passed, Defines body d name

theorem DefinedBy.pass {body : List Item} {passed : List Nat} {known : Set Bytes}
    (defined : DefinedBy body passed known) (i : Nat) : DefinedBy body (i :: passed) known := by
  intro name member
  obtain ⟨d, behind, defines⟩ := defined name member
  exact ⟨d, List.mem_cons_of_mem i behind, defines⟩

theorem DefinedBy.passInsn {body : List Item} {passed : List Nat} {known : Set Bytes} {i : Nat}
    {insn : Insn} (defined : DefinedBy body passed known) (present : body[i]? = some (.insn insn)) :
    DefinedBy body (i :: passed) (withResult known insn.result) := by
  cases named : insn.result with
  | none => exact defined.pass i
  | some result =>
    intro name member
    rcases Set.mem_insert_iff.mp member with rfl | before
    · exact ⟨i, List.mem_cons_self, insn, present, named⟩
    · exact defined.pass i name before

theorem Action.isTerminator_of_target {action : Action} {label : Bytes}
    (named : label ∈ action.targets) : action.isTerminator = true := by
  cases action <;> first | rfl | cases named

/-- Wherever a way comes to, the names that the flow knows there are defined by what it passed; at
a label these are the names of its scope. -/
theorem Path.known {scope : Bytes → Set Bytes} {body : List Item} {last : Option (Set Bytes)}
    (flow : Flow scope (some ∅) body last) {i : Nat} {passed : List Nat} (path : Path body i passed) :
    (∃ known, Flow scope (some known) (body.drop i) last ∧ DefinedBy body passed known) ∨
      ∃ label, body[i]? = some (.label label) ∧ DefinedBy body passed (scope label) := by
  induction path with
  | start => exact .inl ⟨∅, flow, nofun⟩
  | @next i passed item path present goesOn ih =>
    left
    rcases ih with ⟨known, left, defined⟩ | ⟨label, opens, defined⟩
    · rw [drop_of_getElem? present] at left
      cases left with
      | insn _ uses left => exact ⟨_, left, defined.passInsn present⟩
      | leave ends =>
        rw [Item.isTerminator, ends] at goesOn
        cases goesOn
    · have inside := (List.getElem?_eq_some_iff.mp opens).1
      obtain ⟨here, left⟩ := flow.drop i (by omega)
      rw [drop_of_getElem? opens] at left
      cases left with
      | enter left => exact ⟨_, left, defined.pass i⟩
  | @branch i j passed insn label path present named opens ih =>
    right
    refine ⟨label, opens, ?_⟩
    rcases ih with ⟨known, left, defined⟩ | ⟨other, there, -⟩
    · rw [drop_of_getElem? present] at left
      cases left with
      | insn goesOn =>
        rw [Action.isTerminator_of_target named] at goesOn
        cases goesOn
      | leave _ _ brings =>
        intro name member
        exact defined.pass i name (brings label named member)
    · rw [present] at there
      cases there

/-- Every way to a use passes the definition. -/
theorem Flow.dominated {scope : Bytes → Set Bytes} {body : List Item} {last : Option (Set Bytes)}
    (flow : Flow scope (some ∅) body last) {i : Nat} {passed : List Nat} {insn : Insn}
    (path : Path body i passed) (present : body[i]? = some (.insn insn)) {name : Bytes}
    (use : name ∈ insn.action.uses) : ∃ d ∈ passed, Defines body d name := by
  rcases path.known flow with ⟨known, left, defined⟩ | ⟨label, there, -⟩
  · rw [drop_of_getElem? present] at left
    cases left with
    | insn _ uses => exact defined name (uses name use)
    | leave _ uses => exact defined name (uses name use)
  · rw [present] at there
    cases there

/-- The scopes of the labels with numbers from `n` to `m`. -/
def Agree (n m : Nat) (scope : Bytes → Set Bytes) (scopes : Nat → Set Bytes) : Prop :=
  ∀ k, n < k → k ≤ m → scope (temp k) = scopes k

theorem Agree.within {n m k j : Nat} {scope : Bytes → Set Bytes} {scopes : Nat → Set Bytes}
    (agree : Agree n m scope scopes) (below : n ≤ k) (above : j ≤ m) : Agree k j scope scopes :=
  fun i low high => agree i (by omega) (by omega)

/-- Items whose labels have numbers from `n` to `m` and can be given scopes such that control
flows through. -/
def Scoped (n m : Nat) (known : Set Bytes) (items : List Item) (kept : Set Bytes) : Prop :=
  ∃ scopes, ∀ scope, Agree n m scope scopes → Flow scope (some known) items (some kept)

/-- Scopes for a range of labels out of those for its two ends, with one scope in between. -/
theorem exists_scopes (n k j m : Nat) (ordered : n ≤ k ∧ k ≤ j ∧ j ≤ m)
    (first second : Nat → Set Bytes) (between : Set Bytes) :
    ∃ scopes, ∀ scope, Agree n m scope scopes → Agree n k scope first ∧
      (∀ i, k < i → i ≤ j → scope (temp i) = between) ∧ Agree j m scope second := by
  refine ⟨fun i => if i ≤ k then first i else if i ≤ j then between else second i, ?_⟩
  intro scope agree
  refine ⟨fun i above below => ?_, fun i above below => ?_, fun i above below => ?_⟩
  · exact (agree i above (by omega)).trans (if_pos below)
  · refine (agree i (by omega) (by omega)).trans ((if_neg ?_).trans (if_pos below))
    omega
  · refine (agree i (by omega) below).trans ((if_neg ?_).trans (if_neg ?_)) <;> omega

namespace Scoped

variable {n k m : Nat} {known middle kept : Set Bytes} {items rest : List Item}

theorem of_flow (flow : ∀ scope, Flow scope (some known) items (some kept)) :
    Scoped n m known items kept :=
  ⟨fun _ => ∅, fun scope _ => flow scope⟩

theorem append (first : Scoped n k known items middle) (second : Scoped k m middle rest kept)
    (below : n ≤ k) (above : k ≤ m) : Scoped n m known (items ++ rest) kept := by
  obtain ⟨scopes, flow⟩ := first
  obtain ⟨others, follows⟩ := second
  obtain ⟨all, agrees⟩ := exists_scopes n k k m ⟨below, Nat.le_refl k, above⟩ scopes others ∅
  refine ⟨all, fun scope agree => ?_⟩
  obtain ⟨before, -, behind⟩ := agrees scope agree
  exact (flow scope before).append (follows scope behind)

end Scoped

namespace Flow

variable {scope : Bytes → Set Bytes} {known entered : Set Bytes} {rest : List Item}
  {last : Option (Set Bytes)} {action : Action} {n : Nat}

theorem plain (goesOn : action.isTerminator = false) (uses : ∀ name ∈ action.uses, name ∈ known)
    (flow : Flow scope (some known) rest last) :
    Flow scope (some known) (Ir.plain action :: rest) last :=
  .insn goesOn uses flow

theorem result (goesOn : action.isTerminator = false) (uses : ∀ name ∈ action.uses, name ∈ known)
    (flow : Flow scope (some (insert (temp n) known)) rest last) :
    Flow scope (some known) (Ir.result n action :: rest) last :=
  .insn goesOn uses flow

theorem jump {label : Bytes} (brings : scope label ⊆ known) (flow : Flow scope none rest last) :
    Flow scope (some known) (Ir.plain (.jump label) :: rest) last :=
  .leave rfl nofun (by simpa [Action.targets] using brings) flow

theorem branch {flag : Operand} {yes no : Bytes} (uses : flag.names ⊆ known)
    (whenYes : scope yes ⊆ known) (whenNo : scope no ⊆ known) (flow : Flow scope none rest last) :
    Flow scope (some known) (Ir.plain (.branch flag yes no) :: rest) last := by
  refine .leave rfl ?_ ?_ flow
  · intro name use
    exact uses (Option.mem_toList.mp use)
  · simpa [Action.targets] using ⟨whenYes, whenNo⟩

theorem mark (given : scope (temp n) = entered) (flow : Flow scope (some entered) rest last) :
    Flow scope none (Ir.mark n :: rest) last :=
  .enter (given.symm ▸ flow)

end Flow

end Ir

open Ir

theorem Expr.unary_scoped (site : Site) {op : Op} (usual : op = .plus ∨ op = .neg ∨ op = .not)
    {operand : Expr} {n : Nat} {known : Set Bytes}
    (inner : Scoped n (n + operand.made) known (operand.items n) (known ∪ (operand.operand n).names)) :
    Scoped n (n + (Expr.unary site op operand).made) known ((Expr.unary site op operand).items n)
      (known ∪ ((Expr.unary site op operand).operand n).names) := by
  rcases usual with rfl | rfl | rfl
  · simpa [Expr.items, Expr.made, Expr.operand] using inner
  · refine inner.append (.of_flow fun scope => .result rfl ?_ (.forget ?_)) (by omega) ?_
    · simp +contextual [Action.uses]
    · simp [Expr.operand, Expr.made]
      grind
    · simp [Expr.made]
  · refine inner.append (.of_flow fun scope => .result rfl ?_ (.result rfl ?_ (.forget ?_)))
      (by omega) ?_
    · simp +contextual [Action.uses]
    · simp [Action.uses]
    · simp [Expr.operand, Expr.made]
      grind
    · simp [Expr.made]

section

variable {left right : Expr} {n : Nat} {known : Set Bytes}

theorem Expr.operator_scoped (site : Site) {form : BinaryForm} (op : Op)
    (calculates : form = .additive ∨ form = .multiplicative ∨ form = .comparison)
    (operands : Scoped n (n + left.made + right.made) known
      (left.items n ++ right.items (n + left.made))
      (known ∪ (left.operand n).names ∪ (right.operand (n + left.made)).names)) :
    Scoped n (n + (Expr.binary site form op left right).made) known
      ((Expr.binary site form op left right).items n)
      (known ∪ ((Expr.binary site form op left right).operand n).names) := by
  rcases calculates with rfl | rfl | rfl
  on_goal 3 =>
    refine operands.append
      (.of_flow fun scope => .result rfl ?_ (.result rfl ?_ (.forget ?_))) (by omega) ?_
    · simp [Action.uses]
      grind
    · simp [Action.uses]
    · simp [Expr.operand, Expr.made]
      grind
    · simp [Expr.made]
      omega
  all_goals
    refine operands.append (.of_flow fun scope => .result rfl ?_ (.forget ?_)) (by omega) ?_
    · simp [Action.uses]
      grind
    · simp [Expr.operand, Expr.made]
      grind
    · simp [Expr.made]
      omega

/-- The second operand of `&&` and `||` is entered from the first only, and the end from both. -/
theorem Expr.circuit_scoped (site : Site) {form : BinaryForm} (op : Op)
    (logical : form = .logicalAnd ∨ form = .logicalOr) (cell : temp (n + 1) ∈ known)
    (first : Scoped (n + 1) (n + 1 + left.made) known (left.items (n + 1))
      (known ∪ (left.operand (n + 1)).names))
    (second : Scoped (n + 1 + left.made + 3) (n + 1 + left.made + 3 + right.made) known
      (right.items (n + 1 + left.made + 3))
      (known ∪ (right.operand (n + 1 + left.made + 3)).names)) :
    Scoped n (n + (Expr.binary site form op left right).made) known
      ((Expr.binary site form op left right).items n)
      (known ∪ ((Expr.binary site form op left right).operand n).names) := by
  obtain ⟨scopes, flow⟩ := first
  obtain ⟨others, follows⟩ := second
  obtain ⟨all, agrees⟩ := exists_scopes n (n + 1 + left.made) (n + 1 + left.made + 3)
    (n + (left.made + right.made + 5)) (by omega) scopes others known
  rcases logical with rfl | rfl
  all_goals
    simp only [Expr.made]
    refine ⟨all, fun scope agree => ?_⟩
    obtain ⟨before, joins, behind⟩ := agrees scope agree
    have more := joins (n + 1 + left.made + 2) (by omega) (by omega)
    have done := joins (n + 1 + left.made + 3) (by omega) (by omega)
    refine (((flow scope (before.within (by omega) (by omega))).append
      (.plain rfl ?_ (.result rfl ?_ (.branch ?_ ?_ ?_ (.mark more (.forget subset_rfl)))))).append
      (follows scope (behind.within (by omega) (by omega)))).append
      (.plain rfl ?_ (.jump ?_ (.mark done (.result rfl ?_ (.forget ?_)))))
    · simp [Action.uses]
      grind
    · simp [Action.uses]
      grind
    · simp
    · simp only [more, done]
      grind
    · simp only [more, done]
      grind
    · simp [Action.uses]
      grind
    · rw [done]
      grind
    · simpa [Action.uses] using cell
    · have last : n + 1 + left.made + 3 + right.made + 1 = n + (left.made + right.made + 5) := by
        omega
      simp [Expr.operand, Expr.made, last]

end

/-- Control flows through the code of an expression; behind it the operand is known. -/
theorem Expr.items_scoped {isName : Bytes → Prop} (e : Expr) (proper : e.Proper isName) (n : Nat)
    {known : Set Bytes} (named : ∀ name, isName name → name ∈ known)
    (cells : ∀ c ∈ e.cells n, temp c ∈ known) :
    Scoped n (n + e.made) known (e.items n) (known ∪ (e.operand n).names) := by
  induction e generalizing n known with
  | absent | hollow | unknown => exact proper.elim
  | intLit site text value =>
    refine .of_flow fun scope => .forget ?_
    simp [Expr.operand]
  | varRef site name =>
    refine .of_flow fun scope => .result rfl ?_ (.forget ?_)
    · simpa [Action.uses] using named name proper
    · simp [Expr.operand, Expr.made]
  | read site =>
    have cell := cells (n + 1) (by simp [Expr.cells])
    refine .of_flow fun scope => .plain rfl ?_ (.plain rfl ?_ (.result rfl ?_ (.forget ?_)))
    · simpa [Action.uses] using cell
    · simpa [Action.uses] using cell
    · simpa [Action.uses] using cell
    · simp [Expr.operand, Expr.made]
  | paren site inner ih => exact ih proper n named cells
  | unary site op operand ih => exact Expr.unary_scoped site proper.1 (ih proper.2 n named cells)
  | binary site form op left right leftIh rightIh =>
    obtain ⟨-, one, two⟩ := proper
    have operands (cells : ∀ c ∈ left.cells n ++ right.cells (n + left.made), temp c ∈ known) :=
      (leftIh one n named fun c member => cells c (List.mem_append_left _ member)).append
        (rightIh two (n + left.made) (fun name is => .inl (named name is))
          fun c member => .inl (cells c (List.mem_append_right _ member))) (by omega) (by omega)
    cases form with
    | additive => exact Expr.operator_scoped site op (.inl rfl) (operands cells)
    | multiplicative => exact Expr.operator_scoped site op (.inr (.inl rfl)) (operands cells)
    | comparison => exact Expr.operator_scoped site op (.inr (.inr rfl)) (operands cells)
    | logicalAnd | logicalOr =>
      refine Expr.circuit_scoped site op (by simp) (cells (n + 1) List.mem_cons_self)
        (leftIh one (n + 1) named fun c member => ?_)
        (rightIh two (n + 1 + left.made + 3) named fun c member => ?_)
      · exact cells c (List.mem_cons_of_mem _ (List.mem_append_left _ member))
      · exact cells c (List.mem_cons_of_mem _ (List.mem_append_right _ member))

theorem Expr.step_scoped {isName : Bytes → Prop} (step : Expr)
    (proper : step.isAbsent = false → step.Proper isName) (n : Nat) {known : Set Bytes}
    (named : ∀ name, isName name → name ∈ known) (cells : ∀ c ∈ step.cells n, temp c ∈ known) :
    Scoped n (n + step.made) known (step.items n) (known ∪ (step.stepOperand n).names) := by
  cases step with
  | absent =>
    refine .of_flow fun scope => .forget ?_
    simp [Expr.stepOperand, Expr.isAbsent]
  | _ => exact Expr.items_scoped _ (proper rfl) n named cells

/-- The bounds of a counting loop are computed once and known behind its header. -/
theorem Expr.header_scoped {isName : Bytes → Prop} {known : Set Bytes} {name : Bytes}
    {start stop step : Expr} (named : ∀ name, isName name → name ∈ known) (cell : name ∈ known)
    (first : start.Proper isName) (last : stop.Proper isName)
    (increment : step.isAbsent = false → step.Proper isName) (n : Nat)
    (inStart : ∀ c ∈ start.cells n, temp c ∈ known)
    (inStop : ∀ c ∈ stop.cells (n + start.made), temp c ∈ known)
    (inStep : ∀ c ∈ step.cells (n + start.made + stop.made), temp c ∈ known) :
    Scoped n (n + start.made + stop.made + step.made) known
      (start.items n ++ [plain (.store (start.operand n) name)] ++ stop.items (n + start.made) ++
        step.items (n + start.made + stop.made))
      (known ∪ (stop.operand (n + start.made)).names ∪
        (step.stepOperand (n + start.made + stop.made)).names) := by
  have kept : Scoped (n + start.made) (n + start.made) (known ∪ (start.operand n).names)
      [plain (.store (start.operand n) name)] known := by
    refine .of_flow fun scope => .plain rfl ?_ (.forget Set.subset_union_left)
    simp [Action.uses]
    grind
  exact (((start.items_scoped first n named inStart).append kept (by omega) (by omega)).append
    (stop.items_scoped last _ named inStop) (by omega) (by omega)).append
    (step.step_scoped increment _ (fun name is => .inl (named name is))
      fun c member => .inl (inStep c member)) (by omega) (by omega)

section

variable {known : Set Bytes} {site : Site} {cond : Expr} {thenBody elseBody body : List Stmt}
  {n : Nat}

/-- Both bodies of a conditional are entered with what was known before the test. -/
theorem Stmt.ifElse_scoped
    (test : Scoped n (n + cond.made) known (cond.items n) (known ∪ (cond.operand n).names))
    (yes : Scoped (n + cond.made + 4) (n + cond.made + 4 + Stmt.allMade thenBody) known
      (Stmt.allItems (n + cond.made + 4) thenBody) known)
    (no : Scoped (n + cond.made + 4 + Stmt.allMade thenBody)
      (n + cond.made + 4 + Stmt.allMade thenBody + Stmt.allMade elseBody) known
      (Stmt.allItems (n + cond.made + 4 + Stmt.allMade thenBody) elseBody) known) :
    Scoped n (n + (Stmt.ifElse site cond thenBody elseBody true).made) known
      ((Stmt.ifElse site cond thenBody elseBody true).items n) known := by
  obtain ⟨scopes, flow⟩ := test
  obtain ⟨others, follows⟩ := yes
  obtain ⟨lasts, ends⟩ := no
  simp only [Stmt.made, if_true, Stmt.items]
  generalize hk : n + cond.made = k at *
  obtain ⟨bodies, together⟩ := exists_scopes (k + 4) (k + 4 + Stmt.allMade thenBody)
    (k + 4 + Stmt.allMade thenBody) (k + 4 + Stmt.allMade thenBody + Stmt.allMade elseBody)
    (by omega) others lasts known
  obtain ⟨all, agrees⟩ := exists_scopes n k (k + 4)
    (n + (cond.made + 4 + Stmt.allMade thenBody + Stmt.allMade elseBody)) (by omega) scopes
    bodies known
  refine ⟨all, fun scope agree => ?_⟩
  obtain ⟨before, joins, behind⟩ := agrees scope agree
  obtain ⟨inside, -, after⟩ := together scope (behind.within (by omega) (by omega))
  have label := fun j (one : 0 < j) (four : j ≤ 4) => joins (k + j) (by omega) (by omega)
  refine (((((flow scope before).append
    (.result rfl ?_ (.branch ?_ ?_ ?_ (.mark (label 2 ?_ ?_) (.forget subset_rfl))))).append
    (follows scope inside)).append
    (.jump ?_ (.mark (label 4 ?_ ?_) (.forget subset_rfl)))).append (ends scope after)).append
    (.jump ?_ (.mark (label 3 ?_ ?_) (.forget subset_rfl)))
  all_goals try decide
  · simp +contextual [Action.uses]
  · simp
  · rw [label 2 (by decide) (by decide)]
    grind
  · rw [label 4 (by decide) (by decide)]
    grind
  · exact (label 3 (by decide) (by decide)).subset
  · exact (label 3 (by decide) (by decide)).subset

theorem Stmt.if_scoped
    (test : Scoped n (n + cond.made) known (cond.items n) (known ∪ (cond.operand n).names))
    (yes : Scoped (n + cond.made + 3) (n + cond.made + 3 + Stmt.allMade thenBody) known
      (Stmt.allItems (n + cond.made + 3) thenBody) known) :
    Scoped n (n + (Stmt.ifElse site cond thenBody elseBody false).made) known
      ((Stmt.ifElse site cond thenBody elseBody false).items n) known := by
  obtain ⟨scopes, flow⟩ := test
  obtain ⟨others, follows⟩ := yes
  simp only [Stmt.made, Bool.false_eq_true, if_false, Stmt.items]
  generalize hk : n + cond.made = k at *
  obtain ⟨all, agrees⟩ := exists_scopes n k (k + 3)
    (n + (cond.made + 3 + Stmt.allMade thenBody)) (by omega) scopes others known
  refine ⟨all, fun scope agree => ?_⟩
  obtain ⟨before, joins, behind⟩ := agrees scope agree
  have label := fun j (one : 0 < j) (three : j ≤ 3) => joins (k + j) (by omega) (by omega)
  refine (((flow scope before).append
    (.result rfl ?_ (.branch ?_ ?_ ?_ (.mark (label 2 ?_ ?_) (.forget subset_rfl))))).append
    (follows scope (behind.within (by omega) (by omega)))).append
    (.jump ?_ (.mark (label 3 ?_ ?_) (.forget subset_rfl)))
  all_goals try decide
  · simp +contextual [Action.uses]
  · simp
  · rw [label 2 (by decide) (by decide)]
    grind
  · rw [label 3 (by decide) (by decide)]
    grind
  · exact (label 3 (by decide) (by decide)).subset

/-- The test of a loop is entered from in front of the loop and from the end of the body. -/
theorem Stmt.whileLoop_scoped
    (test : Scoped (n + 3) (n + 3 + cond.made) known (cond.items (n + 3))
      (known ∪ (cond.operand (n + 3)).names))
    (again : Scoped (n + 3 + cond.made + 1) (n + 3 + cond.made + 1 + Stmt.allMade body) known
      (Stmt.allItems (n + 3 + cond.made + 1) body) known) :
    Scoped n (n + (Stmt.whileLoop site cond body).made) known
      ((Stmt.whileLoop site cond body).items n) known := by
  obtain ⟨scopes, flow⟩ := test
  obtain ⟨others, follows⟩ := again
  simp only [Stmt.made, Stmt.items]
  obtain ⟨parts, together⟩ := exists_scopes (n + 3) (n + 3 + cond.made) (n + 3 + cond.made + 1)
    (n + 3 + cond.made + 1 + Stmt.allMade body) (by omega) scopes others known
  obtain ⟨all, agrees⟩ := exists_scopes n n (n + 3)
    (n + (3 + cond.made + 1 + Stmt.allMade body)) (by omega) parts parts known
  refine ⟨all, fun scope agree => ?_⟩
  obtain ⟨-, joins, behind⟩ := agrees scope agree
  obtain ⟨test, -, inside⟩ := together scope (behind.within (by omega) (by omega))
  have label := fun j (one : 0 < j) (three : j ≤ 3) => joins (n + j) (by omega) (by omega)
  refine ((((Flow.jump ?_ (.mark (label 1 ?_ ?_) (.forget subset_rfl))).append
    (flow scope test)).append
    (.result rfl ?_ (.branch ?_ ?_ ?_ (.mark (label 2 ?_ ?_) (.forget subset_rfl))))).append
    (follows scope inside)).append (.jump ?_ (.mark (label 3 ?_ ?_) (.forget subset_rfl)))
  all_goals try decide
  · exact (label 1 (by decide) (by decide)).subset
  · simp +contextual [Action.uses]
  · simp
  · rw [label 2 (by decide) (by decide)]
    grind
  · rw [label 3 (by decide) (by decide)]
    grind
  · exact (label 1 (by decide) (by decide)).subset

/-- The operands of the header stay known through all rounds of a counting loop. -/
theorem Stmt.forLoop_scoped {name : Bytes} {span : Span} {start stop step : Expr}
    (cell : name ∈ known)
    (header : Scoped n (n + start.made + stop.made + step.made) known
      (start.items n ++ [plain (.store (start.operand n) name)] ++ stop.items (n + start.made) ++
        step.items (n + start.made + stop.made))
      (known ∪ (stop.operand (n + start.made)).names ∪
        (step.stepOperand (n + start.made + stop.made)).names))
    (again : Scoped (n + start.made + stop.made + step.made + 5)
      (n + start.made + stop.made + step.made + 5 + Stmt.allMade body)
      (known ∪ (stop.operand (n + start.made)).names ∪
        (step.stepOperand (n + start.made + stop.made)).names)
      (Stmt.allItems (n + start.made + stop.made + step.made + 5) body)
      (known ∪ (stop.operand (n + start.made)).names ∪
        (step.stepOperand (n + start.made + stop.made)).names)) :
    Scoped n (n + (Stmt.forLoop site name span start stop step body).made) known
      ((Stmt.forLoop site name span start stop step body).items n) known := by
  simp only [Stmt.made, Stmt.items]
  generalize stop.operand (n + start.made) = limit at *
  generalize step.stepOperand (n + start.made + stop.made) = stride at *
  obtain ⟨scopes, flow⟩ := header
  obtain ⟨others, follows⟩ := again
  generalize hk : n + start.made + stop.made + step.made = k at *
  obtain ⟨all, agrees⟩ := exists_scopes n k (k + 5)
    (n + (start.made + stop.made + step.made + 5 + Stmt.allMade body + 2)) (by omega) scopes
    others (known ∪ limit.names ∪ stride.names)
  refine ⟨all, fun scope agree => ?_⟩
  obtain ⟨before, joins, behind⟩ := agrees scope agree
  have label := fun j (one : 0 < j) (five : j ≤ 5) => joins (k + j) (by omega) (by omega)
  refine (((flow scope before).append
    (.jump ?_ (.mark (label 1 ?_ ?_) (.result rfl ?_ (.result rfl ?_
      (.branch ?_ ?_ ?_ (.mark (label 2 ?_ ?_) (.forget subset_rfl)))))))).append
    (follows scope (behind.within (by omega) (by omega)))).append
    (.result rfl ?_ (.result rfl ?_ (.plain rfl ?_ (.jump ?_
      (.mark (label 3 ?_ ?_) (.forget ?_))))))
  all_goals try decide
  · exact (label 1 (by decide) (by decide)).subset
  · simpa [Action.uses] using .inl (.inl cell)
  · simp [Action.uses]
    grind
  · simp
  · rw [label 2 (by decide) (by decide)]
    grind
  · rw [label 3 (by decide) (by decide)]
    grind
  · simpa [Action.uses] using .inl (.inl cell)
  · simp [Action.uses]
    grind
  · simp [Action.uses]
    grind
  · rw [label 1 (by decide) (by decide)]
    grind
  · grind

end

mutual

/-- Control flows through the code of a statement. -/
theorem Stmt.items_scoped {isName : Bytes → Prop} {known : Set Bytes}
    (named : ∀ name, isName name → name ∈ known) : (s : Stmt) → s.Proper isName → (n : Nat) →
      (∀ c ∈ s.cells n, temp c ∈ known) → Scoped n (n + s.made) known (s.items n) known
  | .absent, proper, _, _ | .hollow .., proper, _, _ | .unknown _, proper, _, _ => proper.elim
  | .assign site name _ value, proper, n, cells => by
    refine (value.items_scoped proper.2 n named cells).append
      (.of_flow fun scope => .plain rfl ?_ (.forget Set.subset_union_left)) (by omega) ?_
    · have cell := named name proper.1
      simp [Action.uses]
      grind
    · simp [Stmt.made]
  | .read site name _, proper, n, cells => by
    refine .of_flow fun scope => .plain rfl ?_ (.forget subset_rfl)
    simpa [Action.uses] using named name proper
  | .print site value, proper, n, cells => by
    refine (value.items_scoped proper n named cells).append
      (.of_flow fun scope => .plain rfl ?_ (.forget Set.subset_union_left)) (by omega) ?_
    · simp +contextual [Action.uses]
    · simp [Stmt.made]
  | .ifElse site cond thenBody elseBody hasElse, proper, n, cells => by
    obtain ⟨test, yes, no, -⟩ := proper
    cases hasElse with
    | true =>
      simp only [Stmt.cells, if_true, List.mem_append, or_imp, forall_and] at cells
      exact Stmt.ifElse_scoped (cond.items_scoped test n named cells.1.1)
        (Stmt.allItems_scoped named thenBody yes _ cells.1.2)
        (Stmt.allItems_scoped named elseBody no _ cells.2)
    | false =>
      simp only [Stmt.cells, Bool.false_eq_true, if_false, List.mem_append, or_imp,
        forall_and] at cells
      exact Stmt.if_scoped (cond.items_scoped test n named cells.1)
        (Stmt.allItems_scoped named thenBody yes _ cells.2)
  | .whileLoop site cond body, proper, n, cells => by
    simp only [Stmt.cells, List.mem_append, or_imp, forall_and] at cells
    exact Stmt.whileLoop_scoped (cond.items_scoped proper.1 _ named cells.1)
      (Stmt.allItems_scoped named body proper.2 _ cells.2)
  | .forLoop site name _ start stop step body, proper, n, cells => by
    obtain ⟨counter, first, last, increment, inside⟩ := proper
    have cell := named name counter
    simp only [Stmt.cells, List.mem_append, or_imp, forall_and] at cells
    obtain ⟨⟨⟨inStart, inStop⟩, inStep⟩, inBody⟩ := cells
    exact Stmt.forLoop_scoped cell
      (Expr.header_scoped named cell first last increment n inStart inStop inStep)
      (Stmt.allItems_scoped (fun name is => .inl (.inl (named name is))) body inside _
        fun c member => .inl (.inl (inBody c member)))

theorem Stmt.allItems_scoped {isName : Bytes → Prop} {known : Set Bytes}
    (named : ∀ name, isName name → name ∈ known) : (body : List Stmt) →
      Stmt.AllProper isName body → (n : Nat) → (∀ c ∈ Stmt.allCells n body, temp c ∈ known) →
      Scoped n (n + Stmt.allMade body) known (Stmt.allItems n body) known
  | [], _, _, _ => .of_flow fun _ => .forget subset_rfl
  | s :: rest, proper, n, cells => by
    simp only [Stmt.allCells, List.mem_append, or_imp, forall_and] at cells
    rw [Stmt.allMade, ← Nat.add_assoc]
    exact (Stmt.items_scoped named s proper.1 n cells.1).append
      (Stmt.allItems_scoped named rest proper.2 _ cells.2) (by omega) (by omega)

end

/-- The names of the cells of a program. -/
def Program.cellNames (program : Program) (vars : Variables) : List Bytes :=
  vars.names.toList ++ (Stmt.allCells 0 program.stmts).map temp

private theorem variables_flow (scope : Bytes → Set Bytes) {names : List Bytes}
    {known kept : Set Bytes} (fewer : ∀ name ∈ kept, name ∈ known ∨ name ∈ names) :
    Flow scope (some known) (names.flatMap variableCell) (some kept) := by
  induction names generalizing known with
  | nil => exact .forget fun name member => (fewer name member).resolve_right List.not_mem_nil
  | cons name rest ih =>
    refine .insn rfl nofun (.insn rfl ?_ (ih fun other member => ?_))
    · simp [Action.uses, withResult]
    · have known := fewer other member
      simp only [List.mem_cons] at known
      simp only [withResult, Set.mem_insert_iff]
      grind

private theorem scratch_flow (scope : Bytes → Set Bytes) {cells : List Nat}
    {known kept : Set Bytes} (fewer : ∀ name ∈ kept, name ∈ known ∨ name ∈ cells.map temp) :
    Flow scope (some known) (scratchCells cells) (some kept) := by
  induction cells generalizing known with
  | nil => exact .forget fun name member => (fewer name member).resolve_right List.not_mem_nil
  | cons cell rest ih =>
    refine .result rfl nofun (ih fun other member => ?_)
    have known := fewer other member
    simp only [List.map_cons, List.mem_cons] at known
    simp only [Set.mem_insert_iff]
    grind

/-- A program of names that are cells. -/
structure Program.Ready (program : Program) (vars : Variables) : Prop where
  sound : vars.Sound
  proper : Stmt.AllProper (fun name => vars.has name = true) program.stmts
  /-- No variable has a name that lowering makes. -/
  apart : ∀ name, vars.has name = true → ∀ n, name ≠ temp n

namespace Program.Ready

variable {program : Program} {vars : Variables}

theorem known (ready : program.Ready vars) {name : Bytes} (variable_ : vars.has name = true) :
    name ∈ program.cellNames vars := by
  obtain ⟨i, found⟩ := Variables.has_iff.mp variable_
  have listed := Array.mem_of_getElem? ((ready.sound name i).mp found)
  exact List.mem_append_left _ (Array.mem_toList_iff.mpr listed)

theorem cell {n : Nat} (member : n ∈ Stmt.allCells 0 program.stmts) :
    temp n ∈ program.cellNames vars :=
  List.mem_append_right _ (List.mem_map_of_mem member)

/-- Control flows through the whole body. -/
theorem flow (ready : program.Ready vars) :
    ∃ scope, Flow scope (some ∅) (program.irItems vars) none := by
  have named : ∀ name, vars.has name = true → name ∈ {name | name ∈ program.cellNames vars} :=
    fun name => ready.known
  obtain ⟨scopes, flow⟩ := Stmt.allItems_scoped named program.stmts ready.proper 0
    fun c member => cell member
  refine ⟨fun label => {name | ∃ n, label = temp n ∧ name ∈ scopes n}, ?_⟩
  have entry : ∀ scope, Flow scope (some ∅) (program.entryItems vars)
      (some {name | name ∈ program.cellNames vars}) := by
    intro scope
    have declared : Flow scope (some ∅) (vars.names.toList.flatMap variableCell)
        (some {name | name ∈ vars.names.toList}) := variables_flow scope fun name => .inr
    exact declared.append (scratch_flow scope fun name => List.mem_append.mp)
  refine ((entry _).append (flow _ fun k _ _ => ?_)).append (.leave rfl nofun nofun .gone)
  ext name
  refine ⟨fun ⟨n, same, member⟩ => temp_inj same ▸ member, fun member => ⟨k, rfl, member⟩⟩

end Program.Ready

private theorem namesOf_variables (names : List Bytes) :
    namesOf (names.flatMap variableCell) = names := by
  induction names with
  | nil => rfl
  | cons name rest ih =>
    rw [List.flatMap_cons, namesOf_append, ih]
    rfl

private theorem namesOf_scratch (cells : List Nat) :
    namesOf (scratchCells cells) = cells.map temp := by
  induction cells with
  | nil => rfl
  | cons cell rest ih =>
    rw [List.map_cons, ← ih]
    rfl

theorem Variables.Sound.nodup {vars : Variables} (sound : vars.Sound) : vars.names.toList.Nodup := by
  refine List.pairwise_iff_getElem.mpr fun i j inside within before same => ?_
  have first := (sound _ i).mpr (Array.getElem?_eq_getElem (by simpa using inside))
  have second := (sound _ j).mpr (Array.getElem?_eq_getElem (by simpa using within))
  simp only [Array.getElem_toList] at same
  rw [same, second] at first
  have position := Option.some.inj first
  omega

namespace Program.Ready

variable {program : Program} {vars : Variables}

theorem namesOf_entry : namesOf (program.entryItems vars) = program.cellNames vars := by
  rw [entryItems, namesOf_append, namesOf_variables, namesOf_scratch]
  rfl

/-- No name is given to two items. -/
theorem names_nodup (ready : program.Ready vars) : (namesOf (program.irItems vars)).Nodup := by
  have made := Stmt.allMade_once program.stmts 0
  have all : (namesOf (program.irItems vars)).Perm
      (vars.names.toList ++ temps 0 (Stmt.allMade program.stmts)) := by
    rw [irItems, namesOf_append, namesOf_append, namesOf_entry, cellNames, List.append_assoc,
      List.append_assoc]
    refine List.Perm.append_left _ ?_
    simpa [MadeOnce] using made
  refine all.nodup_iff.mpr (List.nodup_append.mpr ⟨ready.sound.nodup, ?_, ?_⟩)
  · exact List.Pairwise.map temp (fun n m differ same => differ (temp_inj same)) List.nodup_range'
  · intro name listed other made same
    obtain ⟨i, inside, rfl⟩ := List.mem_iff_getElem.mp listed
    obtain ⟨n, -, rfl⟩ := List.mem_map.mp made
    refine ready.apart _ (Variables.has_iff.mpr ⟨i, (ready.sound _ i).mpr ?_⟩) n same
    simp

/-- Two items with one name are the same. -/
theorem position_unique (ready : program.Ready vars) {i j : Nat} {first second : Item} {name : Bytes}
    (here : (program.irItems vars)[i]? = some first)
    (there : (program.irItems vars)[j]? = some second) (one : first.name? = some name)
    (two : second.name? = some name) : i = j := by
  have apart : ∀ {i j : Nat} {first second : Item}, (program.irItems vars)[i]? = some first →
      (program.irItems vars)[j]? = some second → first.name? = some name →
      second.name? = some name → ¬ i < j := by
    intro i j first second here there one two before
    obtain ⟨inside, rfl⟩ := List.getElem?_eq_some_iff.mp here
    obtain ⟨within, rfl⟩ := List.getElem?_eq_some_iff.mp there
    have distinct := List.pairwise_filterMap.mp ready.names_nodup
    exact List.pairwise_iff_getElem.mp distinct i j inside within before name one name two rfl
  have notBefore := apart here there one two
  have notBehind := apart there here two one
  omega

/-- The items of the entry are cells and their first values. -/
theorem entry_items {item : Item} (member : item ∈ program.entryItems vars) :
    ∃ name ∈ program.cellNames vars, item = .insn { result := some name, action := .alloca } ∨
      item = .insn { action := .store (.imm 0) name } := by
  rcases List.mem_append.mp member with variable_ | scratch
  · obtain ⟨name, listed, here⟩ := List.mem_flatMap.mp variable_
    have known : name ∈ program.cellNames vars := List.mem_append_left _ listed
    simp only [variableCell, List.mem_cons, List.not_mem_nil, or_false] at here
    exact ⟨name, known, here⟩
  · obtain ⟨n, needed, rfl⟩ := List.mem_map.mp scratch
    exact ⟨temp n, cell needed, .inl rfl⟩

theorem mem_irItems {item : Item} : item ∈ program.irItems vars ↔
    item ∈ program.entryItems vars ∨ item ∈ Stmt.allItems 0 program.stmts ∨
      item = plain (.ret (.imm 0)) := by
  simp [irItems]

theorem cell_defined {name : Bytes} (known : name ∈ program.cellNames vars) :
    ∃ insn, Item.insn insn ∈ program.irItems vars ∧ insn.result = some name := by
  rw [← namesOf_entry] at known
  obtain ⟨item, member, named⟩ := List.mem_filterMap.mp known
  obtain ⟨other, -, rfl | rfl⟩ := entry_items member
  · exact ⟨_, mem_irItems.mpr (.inl member), named⟩
  · cases named

/-- Everything but cells fits into the body. -/
theorem fits (ready : program.Ready vars) {insn : Insn} (member : Item.insn insn ∈ program.irItems vars) :
    (∀ label ∈ insn.action.targets, Item.label label ∈ program.irItems vars) ∧
      ∀ name ∈ insn.action.uses, ∃ definition, Item.insn definition ∈ program.irItems vars ∧
        definition.result = some name := by
  rcases mem_irItems.mp member with entry | inside | last
  · obtain ⟨name, known, same | same⟩ := entry_items entry
    · cases same
      exact ⟨nofun, nofun⟩
    · cases same
      refine ⟨nofun, ?_⟩
      simpa [Action.uses] using cell_defined known
  · have named : ∀ name, vars.has name = true → name ∈ {name | name ∈ program.cellNames vars} :=
      fun name => ready.known
    obtain ⟨targets, uses, -⟩ := Stmt.allItems_fit named program.stmts ready.proper 0
      (fun c needed => cell needed) insn inside
    refine ⟨fun label target => ?_, fun name use => ?_⟩
    · exact mem_irItems.mpr (.inr (.inl (targets label target)))
    · rcases uses name use with known | result
      · exact cell_defined known
      · obtain ⟨definition, present, defines⟩ := mem_resultsOf.mp result
        exact ⟨definition, mem_irItems.mpr (.inr (.inl present)), defines⟩
  · cases last
    exact ⟨nofun, nofun⟩

theorem register_defined (ready : program.Ready vars) {name : Bytes}
    (register : IsRegister (program.irItems vars) name) :
    ∃ i, Defines (program.irItems vars) i name := by
  obtain ⟨insn, member, named | use⟩ := register
  · obtain ⟨i, present⟩ := List.mem_iff_getElem?.mp member
    exact ⟨i, insn, present, named⟩
  · obtain ⟨definition, present, named⟩ := (ready.fits member).2 name use
    obtain ⟨i, present⟩ := List.mem_iff_getElem?.mp present
    exact ⟨i, definition, present, named⟩

/-- Cells stand before every label. -/
theorem alloca_before (ready : program.Ready vars) {i j : Nat} {insn : Insn} {label : Bytes}
    (present : (program.irItems vars)[i]? = some (.insn insn)) (alloca : insn.action = .alloca)
    (opens : (program.irItems vars)[j]? = some (.label label)) : i < j := by
  have split : program.irItems vars =
      program.entryItems vars ++ (Stmt.allItems 0 program.stmts ++ [plain (.ret (.imm 0))]) := by
    rw [irItems, List.append_assoc]
  rw [split] at present opens
  have first : i < (program.entryItems vars).length := by
    rcases Nat.lt_or_ge i (program.entryItems vars).length with inside | behind
    · exact inside
    · rw [List.getElem?_append_right behind] at present
      rcases List.mem_append.mp (List.mem_of_getElem? present) with here | last
      · have named : ∀ name, vars.has name = true → name ∈ {name | name ∈ program.cellNames vars} :=
          fun name => ready.known
        exact ((Stmt.allItems_fit named program.stmts ready.proper 0
          (fun c needed => cell needed) insn here).notAlloca alloca).elim
      · cases List.mem_singleton.mp last
        cases alloca
  rcases Nat.lt_or_ge j (program.entryItems vars).length with inside | behind
  · rw [List.getElem?_append_left inside] at opens
    obtain ⟨name, -, same | same⟩ := entry_items (List.mem_of_getElem? opens)
    · cases same
    · cases same
  · omega

/-- The body of a program is in static single assignment form. -/
theorem validSsa (ready : program.Ready vars) : ValidSsa (program.irItems vars) := by
  obtain ⟨scope, flow⟩ := ready.flow
  refine ⟨?_, ?_, ?_, ?_, ?_, ?_, ?_⟩
  · intro name register
    obtain ⟨i, insn, present, named⟩ := ready.register_defined register
    refine ⟨i, ⟨insn, present, named⟩, ?_⟩
    rintro j ⟨other, there, again⟩
    exact ready.position_unique there present again named
  · intro name register label
    obtain ⟨i, insn, present, named⟩ := ready.register_defined register
    obtain ⟨j, opens⟩ := List.mem_iff_getElem?.mp label
    cases ready.position_unique present opens named rfl
    rw [present] at opens
    cases opens
  · intro insn member label target
    obtain ⟨i, opens⟩ := List.mem_iff_getElem?.mp ((ready.fits member).1 label target)
    exact ⟨i, opens, fun j there => ready.position_unique there opens rfl rfl⟩
  · intro i item present
    exact flow.blocks present
  · obtain ⟨insn, rest, starts⟩ := flow.goes_on rfl
    exact ⟨insn, by rw [starts]; rfl⟩
  · intro i insn present alloca j label opens
    exact ready.alloca_before present alloca opens
  · intro i passed insn path present name use
    exact flow.dominated path present use

end Program.Ready

end Minilang
