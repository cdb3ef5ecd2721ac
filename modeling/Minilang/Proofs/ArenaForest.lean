import Mathlib.Data.List.Nodup
import Mathlib.Data.List.Pairwise
import Mathlib.Data.List.Perm.Basic
import Minilang.Proofs.ArenaContents

/-! Forests in arenas. Where arenas store all nodes of a program, no two of them under one number,
the numbers that can be got at from its statements form a forest: each leads to a node with contents
for its kind, numbers fall on the way down, and there is one way to each node. -/

namespace Minilang

variable {isName : Bytes → Prop}

/-- The contents that an entry asks for are there. -/
def Exprs.Fills (exprs : Exprs) (entry : ExprEntry) : Prop :=
  match entry.kind with
  | .intLit => ∃ data, exprs.intLits.get entry.payload = .ok (some data)
  | .varRef => ∃ data, exprs.varRefs.get entry.payload = .ok (some data)
  | .additive | .multiplicative | .comparison | .logicalAnd | .logicalOr =>
      ∃ data, exprs.binaries.get entry.payload = .ok (some data)
  | .unary => ∃ data, exprs.unaries.get entry.payload = .ok (some data)
  | .paren => ∃ data, exprs.parens.get entry.payload = .ok (some data)
  | .read => entry.payload = 0
  | .unknown => False

def Stmts.Fills (stmts : Stmts) (entry : StmtEntry) : Prop :=
  match entry.kind with
  | .assign => ∃ data, stmts.assigns.get entry.payload = .ok (some data)
  | .read => ∃ data, stmts.reads.get entry.payload = .ok (some data)
  | .print => ∃ data, stmts.prints.get entry.payload = .ok (some data)
  | .ifElse => ∃ data, stmts.ifs.get entry.payload = .ok (some data)
  | .whileLoop => ∃ data, stmts.whiles.get entry.payload = .ok (some data)
  | .forLoop => ∃ data, stmts.fors.get entry.payload = .ok (some data)
  | .unknown => False

namespace Arenas

def Has (arenas : Arenas) : Ref → Prop
  | .expr id => ∃ entry, arenas.exprs.get id = .ok (some entry) ∧ arenas.exprs.Fills entry
  | .stmt id => ∃ entry, arenas.stmts.get id = .ok (some entry) ∧ arenas.stmts.Fills entry

def children (arenas : Arenas) (ref : Ref) : List Ref :=
  match arenas.refs {} ref with
  | .ok (some refs) => refs
  | _ => []

/-- What can be got at from some statements by following numbers. -/
inductive Reaches (arenas : Arenas) (roots : List Nat) : Ref → Prop where
  | root {id : Nat} (member : id ∈ roots) : arenas.Reaches roots (.stmt id)
  | child {ref child : Ref} (above : arenas.Reaches roots ref)
      (member : child ∈ arenas.children ref) (some_ : child.id ≠ 0) : arenas.Reaches roots child

/-- The place of the step among the children of a counting loop. -/
def IsStep (arenas : Arenas) (ref : Ref) (index : Nat) : Prop :=
  index = 2 ∧ ∃ id entry, ref = .stmt id ∧ arenas.stmts.get id = .ok (some entry) ∧
    entry.kind = .forLoop

/-- What can be got at is a forest: all of it is there, numbers fall on the way down, and there is
one way to each node. -/
structure Forest (arenas : Arenas) (roots : List Nat) : Prop where
  has : ∀ ref, arenas.Reaches roots ref → arenas.Has ref
  missing : ∀ ref, arenas.Reaches roots ref → ∀ (index : Nat) (child : Ref),
    (arenas.children ref)[index]? = some child → child.id = 0 → arenas.IsStep ref index
  descends : ∀ ref, arenas.Reaches roots ref → ∀ child ∈ arenas.children ref,
    child.sort = ref.sort → child.id < ref.id
  distinct : roots.Nodup
  top : ∀ ref, arenas.Reaches roots ref → ∀ child ∈ arenas.children ref, child ∉ roots.map .stmt
  once : ∀ ref, arenas.Reaches roots ref → ((arenas.children ref).filter (·.id ≠ 0)).Nodup
  apart : ∀ ref other, arenas.Reaches roots ref → arenas.Reaches roots other →
    ∀ child ∈ arenas.children ref, child ∈ arenas.children other → child.id ≠ 0 → ref = other

end Arenas

namespace Node

def kids (node : Node) : List Node := node.children.filter (!·.isAbsent)

/-- A walk meets a node and the children of all that it meets. -/
theorem walk_perm {root : Node} (present : root.isAbsent = false) :
    root.walk.Perm (root :: root.walk.flatMap kids) := by
  induction root using induct with
  | step root ih =>
    have skip : ∀ nodes : List Node, nodes.flatMap walk =
        (nodes.filter (!·.isAbsent)).flatMap walk := by
      intro nodes
      induction nodes with
      | nil => rfl
      | cons node nodes rest =>
        cases absent : node.isAbsent <;> simp [absent, rest, walk_absent]
    have branches : (root.kids.flatMap walk).Perm
        (root.kids ++ root.kids.flatMap fun kid => kid.walk.flatMap kids) := by
      have each : ∀ kid ∈ root.kids, kid.walk.Perm ([kid] ++ kid.walk.flatMap kids) := by
        intro kid member
        obtain ⟨inside, here⟩ := List.mem_filter.mp member
        exact ih kid inside (by simpa using here)
      refine (List.Perm.flatMap_left _ each).trans ?_
      refine (List.flatMap_append_perm _ _ _).symm.trans ?_
      rw [List.flatMap_singleton']
    have below : root.children.flatMap walk = root.kids.flatMap walk := skip _
    rw [walk_eq present, List.flatMap_cons, below, List.flatMap_assoc]
    exact branches.cons root

end Node

/-- A program of complete nodes that are stored below nodes with higher numbers, no two of them
under one number. -/
structure Program.Lies (isName : Bytes → Prop) (arenas : Arenas) (program : Program) : Prop where
  stored : ∀ node ∈ program.nodes, node.Stored arenas
  complete : ∀ node ∈ program.nodes, node.Proper isName
  descends : ∀ node ∈ program.nodes, ∀ child ∈ node.children, child.isStmt = node.isStmt →
    child.site.id < node.site.id
  once : program.nodes.Pairwise fun a b => ¬a.Same b
  present : ∀ s ∈ program.stmts, (Node.stmt s).isAbsent = false

def Program.roots (program : Program) : List Nat := program.stmts.map Stmt.id

namespace Program.Lies

variable {arenas : Arenas} {program : Program} (lies : program.Lies isName arenas)

include lies

theorem stmt {s : Stmt} (member : s ∈ program.stmts) : (Node.stmt s).Lies isName arenas where
  stored node inside := lies.stored node (Program.mem_nodes.mpr ⟨s, member, inside⟩)
  complete node inside := lies.complete node (Program.mem_nodes.mpr ⟨s, member, inside⟩)
  descends node inside := lies.descends node (Program.mem_nodes.mpr ⟨s, member, inside⟩)

theorem mem_root {s : Stmt} (member : s ∈ program.stmts) : Node.stmt s ∈ program.nodes :=
  Program.mem_nodes.mpr ⟨s, member, Node.mem_walk_self (lies.present s member)⟩

theorem deep {s : Stmt} (member : s ∈ program.stmts) :
    arenas.rank (.stmt s) < arenas.stmts.size + arenas.exprs.size + 1 := by
  have bound : s.id ≤ arenas.stmts.size := (lies.stored _ (lies.mem_root member)).le.2
  change s.id + arenas.exprs.size < _
  omega

theorem trees_eq : arenas.trees program.roots = .ok program.stmts := by
  rw [Arenas.trees, Program.roots, List.mapM_map]
  refine (Arenas.mapM_eq_ok (g := id) fun s member => ?_).trans (by rw [List.map_id])
  exact Arenas.tree_eq (lies.stmt member) (lies.deep member)

theorem walk_eq : arenas.walk {} program.roots = .ok (program.nodes.map Node.ref) := by
  have each : (program.roots.mapM fun id =>
      arenas.walkBelow {} (arenas.stmts.size + arenas.exprs.size + 1) (.stmt id)) =
        .ok (program.stmts.map fun s => (Node.stmt s).walk.map Node.ref) := by
    rw [Program.roots, List.mapM_map]
    exact Arenas.mapM_eq_ok fun s member =>
      Arenas.walkBelow_eq (lies.stmt member) (lies.deep member)
  rw [Arenas.walk, each, ok_bind, pure_eq_ok, Program.nodes, Stmt.walkAll_eq, Stmt.trees,
    List.flatMap_map, List.map_flatMap, List.flatMap]

theorem children_eq {node : Node} (inside : node ∈ program.nodes) :
    arenas.children node.ref = node.children.map Node.ref := by
  rw [Arenas.children, Arenas.refs_eq (lies.stored node inside) (lies.complete node inside)]

theorem child_id {node child : Node} (inside : node ∈ program.nodes)
    (member : child ∈ node.children) : child.ref.id = 0 ↔ child.isAbsent = true := by
  refine ⟨fun zero => ?_, Node.id_absent⟩
  by_contra present
  rw [Bool.not_eq_true] at present
  have positive := (lies.stored child (Program.mem_child inside member present)).le.1
  cases child <;> exact absurd zero (Nat.ne_of_gt positive)

/-- The numbers that can be got at are those of the nodes of the program. -/
theorem reaches_iff (ref : Ref) :
    arenas.Reaches program.roots ref ↔ ∃ node ∈ program.nodes, node.ref = ref := by
  constructor
  · intro reached
    induction reached with
    | root member =>
      obtain ⟨s, inside, rfl⟩ := List.mem_map.mp member
      exact ⟨_, lies.mem_root inside, rfl⟩
    | child _ member some_ ih =>
      obtain ⟨node, inside, rfl⟩ := ih
      rw [lies.children_eq inside, List.mem_map] at member
      obtain ⟨child, below, rfl⟩ := member
      have present := mt (lies.child_id inside below).mpr some_
      exact ⟨child, Program.mem_child inside below (by simpa using present), rfl⟩
  · rintro ⟨node, inside, rfl⟩
    rw [← program.reaches_iff] at inside
    induction inside with
    | root member => exact .root (List.mem_map_of_mem member)
    | child above member present ih =>
      have inside := (program.reaches_iff _).mp above
      refine .child ih (by rw [lies.children_eq inside]; exact List.mem_map_of_mem member) ?_
      rw [Ne, lies.child_id inside member, present]
      exact Bool.false_ne_true

theorem nodup_refs : (program.nodes.map Node.ref).Nodup :=
  List.pairwise_map.mpr (lies.once.imp fun differ same => differ (Node.same_iff.mpr same))

/-- Every node is either a statement of the program or the child of one other node. -/
theorem nodup_family : (program.roots.map Ref.stmt ++
    program.nodes.flatMap fun node => node.kids.map Node.ref).Nodup := by
  have walks : program.nodes.Perm
      (program.stmts.map Node.stmt ++ program.nodes.flatMap Node.kids) := by
    have each : ∀ s ∈ program.stmts, (Node.stmt s).walk.Perm
        ([.stmt s] ++ (Node.stmt s).walk.flatMap Node.kids) :=
      fun s member => Node.walk_perm (lies.present s member)
    have whole : program.nodes = program.stmts.flatMap fun s => (Node.stmt s).walk := by
      rw [Program.nodes, Stmt.walkAll_eq, Stmt.trees, List.flatMap_map]
    rw [whole, List.flatMap_assoc]
    refine (List.Perm.flatMap_left _ each).trans ?_
    refine (List.flatMap_append_perm _ _ _).symm.trans ?_
    rw [List.map_eq_flatMap]
  have refs := (walks.map Node.ref).nodup_iff.mp lies.nodup_refs
  rw [List.map_append, List.map_map, List.map_flatMap] at refs
  rw [Program.roots, List.map_map]
  exact refs

theorem has {node : Node} (inside : node ∈ program.nodes) : arenas.Has node.ref := by
  have stored := lies.stored node inside
  have proper := lies.complete node inside
  cases node with
  | expr e =>
    cases e with
    | absent | hollow | unknown => exact proper.elim
    | read => exact ⟨_, stored, rfl⟩
    | binary site form =>
      obtain ⟨payload, here, contents⟩ := stored
      exact ⟨_, here, by cases form <;> exact ⟨_, contents⟩⟩
    | intLit | varRef | unary | paren =>
      obtain ⟨payload, here, contents⟩ := stored
      exact ⟨_, here, _, contents⟩
  | stmt s =>
    cases s with
    | absent | hollow | unknown => exact proper.elim
    | assign | read | print | ifElse | whileLoop | forLoop =>
      obtain ⟨payload, here, contents⟩ := stored
      exact ⟨_, here, _, contents⟩

/-- Only the step of a counting loop is ever missing, and that is its third child. -/
theorem missing {node child : Node} (inside : node ∈ program.nodes) {index : Nat}
    (here : node.children[index]? = some child) (absent : child.isAbsent = true) :
    arenas.IsStep node.ref index := by
  have proper := lies.complete node inside
  rcases proper.child (List.mem_of_getElem? here) with fine | missing
  · rw [fine.present] at absent
    cases absent
  obtain ⟨site, name, nameSpan, start, stop, body, rfl, rfl⟩ := missing
  obtain ⟨payload, entry, -⟩ := Stmts.Stores.forLoop (lies.stored _ inside)
  refine ⟨?_, site.id, _, rfl, entry, rfl⟩
  obtain ⟨-, first, second, -, all⟩ := proper
  match index with
  | 0 =>
    cases here
    exact first.elim
  | 1 =>
    cases here
    exact second.elim
  | 2 => rfl
  | index + 3 =>
    have member : Node.expr .absent ∈ body.map Node.stmt := List.mem_of_getElem? here
    obtain ⟨s, -, wrong⟩ := List.mem_map.mp member
    cases wrong

theorem kids_eq {node : Node} (inside : node ∈ program.nodes) :
    (arenas.children node.ref).filter (·.id ≠ 0) = node.kids.map Node.ref := by
  rw [lies.children_eq inside, Node.kids, List.filter_map]
  congr 1
  refine List.filter_congr fun child member => ?_
  have zero := lies.child_id inside member
  cases absent : child.isAbsent <;> simp_all

theorem forest : arenas.Forest program.roots := by
  obtain ⟨roots, kids, others⟩ := List.nodup_append.mp lies.nodup_family
  obtain ⟨own, differ⟩ := List.nodup_flatMap.mp kids
  have reached : ∀ {motive : Ref → Prop}, (∀ node ∈ program.nodes, motive node.ref) →
      ∀ ref, arenas.Reaches program.roots ref → motive ref := by
    intro motive each ref reached
    obtain ⟨node, inside, rfl⟩ := (lies.reaches_iff ref).mp reached
    exact each node inside
  refine
    { has := reached fun node => lies.has
      missing := reached fun node inside index child here zero => ?_
      descends := reached fun node inside child member sort => ?_
      distinct := List.Nodup.of_map _ roots
      top := reached fun node inside child member root => ?_
      once := reached fun node inside => lies.kids_eq inside ▸ own node inside
      apart := ?_ }
  · rw [lies.children_eq inside, List.getElem?_map] at here
    obtain ⟨child, found, rfl⟩ := Option.map_eq_some_iff.mp here
    have absent := (lies.child_id inside (List.mem_of_getElem? found)).mp zero
    exact lies.missing inside found absent
  · rw [lies.children_eq inside] at member
    obtain ⟨child, below, rfl⟩ := List.mem_map.mp member
    rw [Node.id_ref, Node.id_ref]
    exact lies.descends node inside child below (Node.isStmt_of_sort sort)
  · obtain ⟨id, found, rfl⟩ := List.mem_map.mp root
    obtain ⟨s, listed, rfl⟩ := List.mem_map.mp found
    have positive : 0 < s.id := (lies.stored _ (lies.mem_root listed)).le.1
    refine others _ root _ (List.mem_flatMap.mpr ⟨node, inside, ?_⟩) rfl
    rw [← lies.kids_eq inside]
    exact List.mem_filter.mpr ⟨member, decide_eq_true (Nat.ne_of_gt positive)⟩
  · intro ref other first second child here there some_
    obtain ⟨node, inside, rfl⟩ := (lies.reaches_iff ref).mp first
    obtain ⟨twin, within, rfl⟩ := (lies.reaches_iff other).mp second
    by_contra apart
    have unequal : node ≠ twin := fun same => apart (same ▸ rfl)
    have turn : Std.Symm (Function.onFun List.Disjoint fun node : Node => node.kids.map Node.ref) :=
      ⟨fun _ _ => List.disjoint_symm⟩
    have disjoint : List.Disjoint (node.kids.map Node.ref) (twin.kids.map Node.ref) :=
      differ.forall inside within unequal
    refine @disjoint child ?_ ?_
    · rw [← lies.kids_eq inside]
      exact List.mem_filter.mpr ⟨here, by simpa using some_⟩
    · rw [← lies.kids_eq within]
      exact List.mem_filter.mpr ⟨there, by simpa using some_⟩

end Program.Lies

end Minilang
