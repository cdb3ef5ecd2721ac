import Minilang.Tree.Walk
import Minilang.Proofs.ParsedTrees

/-! Walks through syntax trees. A walk is what comes out of going from a node to its children, so
it meets exactly what can be reached from the statements of a program. -/

namespace Minilang

namespace Node

def isAbsent : Node → Bool
  | expr .absent | stmt .absent => true
  | _ => false

/-- What a node refers to, in source order. -/
def children : Node → List Node
  | expr (.binary _ _ _ left right) => [expr left, expr right]
  | expr (.unary _ _ operand) => [expr operand]
  | expr (.paren _ inner) => [expr inner]
  | stmt (.assign _ _ _ value) => [expr value]
  | stmt (.print _ value) => [expr value]
  | stmt (.ifElse _ cond thenBody elseBody _) => expr cond :: (thenBody ++ elseBody).map stmt
  | stmt (.whileLoop _ cond body) => expr cond :: body.map stmt
  | stmt (.forLoop _ _ _ start stop step body) =>
      expr start :: expr stop :: expr step :: body.map stmt
  | _ => []

def walk : Node → List Node
  | expr e => e.walk fun _ => true
  | stmt s => s.walk fun _ => true

def place (node : Node) : Nat := node.site.span.start.toNat

def Proper (isName : Bytes → Prop) : Node → Prop
  | expr e => e.Proper isName
  | stmt s => s.Proper isName

end Node

def Stmt.trees (body : List Stmt) : List Node := (body.map Node.stmt).flatMap Node.walk

theorem Stmt.walkAll_eq (body : List Stmt) : Stmt.walkAll (fun _ => true) body = Stmt.trees body := by
  induction body with
  | nil => rfl
  | cons s body ih =>
    rw [Stmt.walkAll, ih]
    rfl

namespace Node

theorem walk_absent {node : Node} (absent : node.isAbsent = true) : node.walk = [] := by
  unfold isAbsent at absent
  split at absent
  · rfl
  · rfl
  · cases absent

theorem walk_eq {node : Node} (present : node.isAbsent = false) :
    node.walk = node :: node.children.flatMap walk := by
  cases node with
  | expr e =>
    cases e with
    | absent => cases present
    | _ => simp [walk, children, Expr.walk]
  | stmt s =>
    cases s with
    | absent => cases present
    | _ => simp [walk, children, Stmt.walk, Stmt.walkAll_eq, Stmt.trees, List.append_assoc]

theorem mem_walk_self {node : Node} (present : node.isAbsent = false) : node ∈ node.walk := by
  rw [walk_eq present]
  exact List.mem_cons_self

theorem walk_child {node child : Node} (member : child ∈ node.children) :
    node.isAbsent = false ∧ child.walk.length < node.walk.length := by
  have present : node.isAbsent = false := by
    unfold isAbsent
    split
    · cases member
    · cases member
    · rfl
  refine ⟨present, ?_⟩
  rw [walk_eq present, List.length_cons, Nat.lt_succ_iff]
  exact (List.sublist_flatten_of_mem (List.mem_map_of_mem member)).length_le

/-- What holds of a node when it holds of its children holds of every node. -/
theorem induct {motive : Node → Prop}
    (step : ∀ node, (∀ child ∈ node.children, motive child) → motive node) (node : Node) :
    motive node := by
  induction size : node.walk.length using Nat.strongRecOn generalizing node with
  | ind size ih =>
    subst size
    exact step node fun child member => ih _ (walk_child member).2 child rfl

theorem mem_walk {root node : Node} (inside : node ∈ root.walk) :
    root.isAbsent = false ∧ (node = root ∨ ∃ child ∈ root.children, node ∈ child.walk) := by
  cases absent : root.isAbsent with
  | true =>
    rw [walk_absent absent] at inside
    cases inside
  | false =>
    rw [walk_eq absent, List.mem_cons, List.mem_flatMap] at inside
    exact ⟨rfl, inside⟩

theorem mem_walk_of_child {root node child : Node} (member : child ∈ root.children)
    (inside : node ∈ child.walk) : node ∈ root.walk := by
  rw [walk_eq (walk_child member).1]
  exact List.mem_cons_of_mem _ (List.mem_flatMap.mpr ⟨child, member, inside⟩)

theorem walk_closed {root node child : Node} (inside : node ∈ root.walk)
    (member : child ∈ node.children) (present : child.isAbsent = false) : child ∈ root.walk := by
  induction root using induct with
  | step root ih =>
    rcases (mem_walk inside).2 with rfl | ⟨branch, part, below⟩
    · exact mem_walk_of_child member (mem_walk_self present)
    · exact mem_walk_of_child part (ih branch part below)

end Node

theorem Stmt.allProper_iff {isName : Bytes → Prop} (body : List Stmt) :
    Stmt.AllProper isName body ↔ ∀ s ∈ body, s.Proper isName := by
  induction body with
  | nil => simp [Stmt.AllProper]
  | cons s body ih => rw [Stmt.AllProper, ih, List.forall_mem_cons]

namespace Node

variable {isName : Bytes → Prop}

theorem Proper.present {node : Node} (proper : node.Proper isName) : node.isAbsent = false := by
  unfold isAbsent
  split
  · cases proper
  · cases proper
  · rfl

/-- The step of a counting loop, where none is written. -/
def IsMissingStep (node child : Node) : Prop :=
  ∃ site name nameSpan start stop body,
    node = .stmt (.forLoop site name nameSpan start stop .absent body) ∧ child = .expr .absent

/-- Below a complete node only the step of a counting loop may be missing. -/
theorem Proper.child {node child : Node} (proper : node.Proper isName)
    (member : child ∈ node.children) : child.Proper isName ∨ node.IsMissingStep child := by
  cases node with
  | expr e =>
    cases e with
    | binary _ _ _ left right =>
      obtain ⟨-, first, second⟩ := proper
      simp only [children, List.mem_cons, List.not_mem_nil, or_false] at member
      rcases member with rfl | rfl
      · exact .inl first
      · exact .inl second
    | unary _ _ operand =>
      rw [List.mem_singleton.mp member]
      exact .inl proper.2
    | paren _ inner =>
      rw [List.mem_singleton.mp member]
      rw [Node.Proper, Expr.Proper] at proper
      exact .inl proper
    | _ => cases member
  | stmt s =>
    cases s with
    | assign _ _ _ value =>
      rw [List.mem_singleton.mp member]
      exact .inl proper.2
    | print _ value =>
      rw [List.mem_singleton.mp member]
      rw [Node.Proper, Stmt.Proper] at proper
      exact .inl proper
    | ifElse _ cond thenBody elseBody _ =>
      obtain ⟨first, yes, no, -⟩ := proper
      rcases List.mem_cons.mp member with rfl | inside
      · exact .inl first
      · obtain ⟨s, here, rfl⟩ := List.mem_map.mp inside
        rw [Stmt.allProper_iff] at yes no
        exact .inl ((List.mem_append.mp here).elim (yes s) (no s))
    | whileLoop _ cond body =>
      obtain ⟨first, all⟩ := proper
      rcases List.mem_cons.mp member with rfl | inside
      · exact .inl first
      · obtain ⟨s, here, rfl⟩ := List.mem_map.mp inside
        exact .inl ((Stmt.allProper_iff body).mp all s here)
    | forLoop _ _ _ start stop step body =>
      obtain ⟨-, first, second, third, all⟩ := proper
      simp only [children, List.mem_cons] at member
      rcases member with rfl | rfl | rfl | inside
      · exact .inl first
      · exact .inl second
      · cases step with
        | absent => exact .inr ⟨_, _, _, _, _, _, rfl, rfl⟩
        | _ => exact .inl (third rfl)
      · obtain ⟨s, here, rfl⟩ := List.mem_map.mp inside
        exact .inl ((Stmt.allProper_iff body).mp all s here)
    | _ => cases member

theorem Proper.walk {root : Node} (proper : root.Proper isName) {node : Node}
    (inside : node ∈ root.walk) : node.Proper isName := by
  induction root using induct with
  | step root ih =>
    rcases (mem_walk inside).2 with rfl | ⟨branch, part, below⟩
    · exact proper
    · rcases proper.child part with fine | ⟨_, _, _, _, _, _, -, rfl⟩
      · exact ih branch part fine below
      · cases below

end Node

/-- What can be got at from the statements of a program by going from node to node. -/
inductive Program.Reaches (program : Program) : Node → Prop where
  | root {s : Stmt} (member : s ∈ program.stmts) (present : (Node.stmt s).isAbsent = false) :
      program.Reaches (.stmt s)
  | child {node child : Node} (above : program.Reaches node) (member : child ∈ node.children)
      (present : child.isAbsent = false) : program.Reaches child

theorem Program.mem_nodes {program : Program} {node : Node} :
    node ∈ program.nodes ↔ ∃ s ∈ program.stmts, node ∈ (Node.stmt s).walk := by
  rw [Program.nodes, Stmt.walkAll_eq, Stmt.trees, List.flatMap_map, List.mem_flatMap]

theorem Program.reaches_iff (program : Program) (node : Node) :
    program.Reaches node ↔ node ∈ program.nodes := by
  rw [Program.mem_nodes]
  constructor
  · intro reached
    induction reached with
    | root member present => exact ⟨_, member, Node.mem_walk_self present⟩
    | child _ member present ih =>
      obtain ⟨s, root, inside⟩ := ih
      exact ⟨s, root, Node.walk_closed inside member present⟩
  · rintro ⟨s, member, inside⟩
    have below : ∀ root : Node, program.Reaches root → node ∈ root.walk → program.Reaches node := by
      intro root
      induction root using Node.induct with
      | step root ih =>
        intro reached inside
        rcases (Node.mem_walk inside).2 with rfl | ⟨branch, part, deep⟩
        · exact reached
        · exact ih branch part (.child reached part (Node.mem_walk deep).1) deep
    exact below _ (.root member (Node.mem_walk inside).1) inside

theorem Program.mem_child {program : Program} {node child : Node} (inside : node ∈ program.nodes)
    (member : child ∈ node.children) (present : child.isAbsent = false) :
    child ∈ program.nodes := by
  rw [← program.reaches_iff] at inside ⊢
  exact .child inside member present

end Minilang
