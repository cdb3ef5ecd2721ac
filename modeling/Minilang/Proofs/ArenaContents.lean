import Minilang.Proofs.NodeWalks
import Minilang.Proofs.Results

/-! Trees in arenas. A node is stored where its number leads to its kind, its span and contents with
the numbers of its children. Stored trees whose numbers fall on the way down can be read back, and a
walk by number goes through them like one through the trees. -/

namespace Minilang

namespace Arena

variable {α : Type} {arena old new : Arena α} {id : Nat} {value : α}

theorem get_eq_some : arena.get id = .ok (some value) ↔
    0 < id ∧ arena.items[id - 1]? = some value := by
  cases id with
  | zero => simp [get]
  | succ n =>
    simp only [get, Nat.succ_pos, Nat.add_sub_cancel, true_and]
    cases arena.items[n]? <;> simp

theorem le_size (here : arena.get id = .ok (some value)) : 0 < id ∧ id ≤ arena.size := by
  obtain ⟨positive, found⟩ := get_eq_some.mp here
  have less := (Array.getElem?_eq_some_iff.mp found).1
  exact ⟨positive, by rw [size]; omega⟩

/-- What the old arena has is in the new one under the same number. -/
def Kept (old new : Arena α) : Prop := old.items.toList <+: new.items.toList

theorem Kept.refl (arena : Arena α) : arena.Kept arena := List.prefix_rfl

theorem Kept.trans {between : Arena α} (first : old.Kept between) (second : between.Kept new) :
    old.Kept new := List.IsPrefix.trans first second

theorem Kept.size (kept : old.Kept new) : old.size ≤ new.size := List.IsPrefix.length_le kept

theorem Kept.get (kept : old.Kept new) (here : old.get id = .ok (some value)) :
    new.get id = .ok (some value) := by
  rw [get_eq_some] at here ⊢
  refine ⟨here.1, ?_⟩
  have found := here.2
  rw [← Array.getElem?_toList] at found ⊢
  obtain ⟨rest, whole⟩ := kept
  rw [← whole, List.getElem?_append_left (List.getElem?_eq_some_iff.mp found).1]
  exact found

theorem kept_allocate (arena : Arena α) (value : α) : arena.Kept (arena.allocate value).2 := by
  rw [Kept, allocate, Array.toList_push]
  exact List.prefix_append _ _

theorem get_allocate (arena : Arena α) (value : α) :
    (arena.allocate value).2.get (arena.size + 1) = .ok (some value) :=
  get_eq_some.mpr ⟨Nat.succ_pos _, Array.getElem?_push_size⟩

theorem size_allocate (arena : Arena α) (value : α) :
    (arena.allocate value).2.size = arena.size + 1 := Array.size_push value

end Arena

namespace Exprs

/-- Growing keeps all entries and contents. -/
structure Kept (old new : Exprs) : Prop where
  entries : old.entries.Kept new.entries
  intLits : old.intLits.Kept new.intLits
  varRefs : old.varRefs.Kept new.varRefs
  binaries : old.binaries.Kept new.binaries
  unaries : old.unaries.Kept new.unaries
  parens : old.parens.Kept new.parens

/-- The number of the node leads to it. -/
def Stores (exprs : Exprs) : Expr → Prop
  | .absent => False
  | .hollow site kind => exprs.get site.id = .ok (some ⟨kind, site.span, 0⟩)
  | .unknown site => exprs.get site.id = .ok (some ⟨.unknown, site.span, 0⟩)
  | .intLit site text value => ∃ payload,
      exprs.get site.id = .ok (some ⟨.intLit, site.span, payload⟩) ∧
        exprs.intLits.get payload = .ok (some ⟨text, value⟩)
  | .varRef site name => ∃ payload,
      exprs.get site.id = .ok (some ⟨.varRef, site.span, payload⟩) ∧
        exprs.varRefs.get payload = .ok (some ⟨name⟩)
  | .binary site form op left right => ∃ payload,
      exprs.get site.id = .ok (some ⟨form.kind, site.span, payload⟩) ∧
        exprs.binaries.get payload = .ok (some ⟨op, left.id, right.id⟩)
  | .unary site op operand => ∃ payload,
      exprs.get site.id = .ok (some ⟨.unary, site.span, payload⟩) ∧
        exprs.unaries.get payload = .ok (some ⟨op, operand.id⟩)
  | .paren site inner => ∃ payload,
      exprs.get site.id = .ok (some ⟨.paren, site.span, payload⟩) ∧
        exprs.parens.get payload = .ok (some ⟨inner.id⟩)
  | .read site => exprs.get site.id = .ok (some ⟨.read, site.span, 0⟩)

variable {exprs old between new : Exprs} {e : Expr}

theorem Kept.refl (exprs : Exprs) : exprs.Kept exprs :=
  ⟨.refl _, .refl _, .refl _, .refl _, .refl _, .refl _⟩

theorem Kept.trans (first : old.Kept between) (second : between.Kept new) : old.Kept new :=
  ⟨first.entries.trans second.entries, first.intLits.trans second.intLits,
    first.varRefs.trans second.varRefs, first.binaries.trans second.binaries,
    first.unaries.trans second.unaries, first.parens.trans second.parens⟩

theorem kept_add (exprs : Exprs) (e : Expr) : exprs.Kept (exprs.add e).2 := by
  cases e <;> constructor <;> first | exact Arena.Kept.refl _ | exact Arena.kept_allocate _ _

theorem Stores.kept (stored : old.Stores e) (kept : old.Kept new) : new.Stores e := by
  cases e with
  | absent => exact stored
  | hollow | unknown | read => exact kept.entries.get stored
  | intLit =>
    obtain ⟨payload, here, contents⟩ := stored
    exact ⟨payload, kept.entries.get here, kept.intLits.get contents⟩
  | varRef =>
    obtain ⟨payload, here, contents⟩ := stored
    exact ⟨payload, kept.entries.get here, kept.varRefs.get contents⟩
  | binary =>
    obtain ⟨payload, here, contents⟩ := stored
    exact ⟨payload, kept.entries.get here, kept.binaries.get contents⟩
  | unary =>
    obtain ⟨payload, here, contents⟩ := stored
    exact ⟨payload, kept.entries.get here, kept.unaries.get contents⟩
  | paren =>
    obtain ⟨payload, here, contents⟩ := stored
    exact ⟨payload, kept.entries.get here, kept.parens.get contents⟩

/-- A node with the next number is stored by adding it. -/
theorem stores_add (present : (Node.expr e).isAbsent = false) (next : e.id = exprs.size + 1) :
    (exprs.add e).2.Stores e := by
  have entered : ∀ entry : ExprEntry, (exprs.entries.allocate entry).2.get e.id =
      .ok (some entry) := fun entry => next ▸ exprs.entries.get_allocate entry
  cases e with
  | absent => cases present
  | hollow | unknown | read => exact entered _
  | intLit => exact ⟨_, entered _, exprs.intLits.get_allocate _⟩
  | varRef => exact ⟨_, entered _, exprs.varRefs.get_allocate _⟩
  | binary => exact ⟨_, entered _, exprs.binaries.get_allocate _⟩
  | unary => exact ⟨_, entered _, exprs.unaries.get_allocate _⟩
  | paren => exact ⟨_, entered _, exprs.parens.get_allocate _⟩

theorem size_add (exprs : Exprs) (present : (Node.expr e).isAbsent = false) :
    (exprs.add e).2.size = exprs.size + 1 := by
  cases e with
  | absent => cases present
  | _ => exact exprs.entries.size_allocate _

theorem Stores.entry (stored : exprs.Stores e) :
    ∃ payload, exprs.get e.id = .ok (some ⟨e.kind, e.span, payload⟩) := by
  cases e with
  | absent => exact stored.elim
  | hollow | unknown | read => exact ⟨0, stored⟩
  | intLit | varRef | binary | unary | paren => exact stored.imp fun _ => And.left

end Exprs

namespace Stmts

structure Kept (old new : Stmts) : Prop where
  entries : old.entries.Kept new.entries
  assigns : old.assigns.Kept new.assigns
  reads : old.reads.Kept new.reads
  prints : old.prints.Kept new.prints
  ifs : old.ifs.Kept new.ifs
  whiles : old.whiles.Kept new.whiles
  fors : old.fors.Kept new.fors

def Stores (stmts : Stmts) : Stmt → Prop
  | .absent => False
  | .hollow site kind => stmts.get site.id = .ok (some ⟨kind, site.span, 0⟩)
  | .unknown site => stmts.get site.id = .ok (some ⟨.unknown, site.span, 0⟩)
  | .assign site name nameSpan value => ∃ payload,
      stmts.get site.id = .ok (some ⟨.assign, site.span, payload⟩) ∧
        stmts.assigns.get payload = .ok (some ⟨name, nameSpan, value.id⟩)
  | .read site name nameSpan => ∃ payload,
      stmts.get site.id = .ok (some ⟨.read, site.span, payload⟩) ∧
        stmts.reads.get payload = .ok (some ⟨name, nameSpan⟩)
  | .print site value => ∃ payload,
      stmts.get site.id = .ok (some ⟨.print, site.span, payload⟩) ∧
        stmts.prints.get payload = .ok (some ⟨value.id⟩)
  | .ifElse site cond thenBody elseBody hasElse => ∃ payload,
      stmts.get site.id = .ok (some ⟨.ifElse, site.span, payload⟩) ∧
        stmts.ifs.get payload =
          .ok (some ⟨cond.id, thenBody.map Stmt.id, elseBody.map Stmt.id, hasElse⟩)
  | .whileLoop site cond body => ∃ payload,
      stmts.get site.id = .ok (some ⟨.whileLoop, site.span, payload⟩) ∧
        stmts.whiles.get payload = .ok (some ⟨cond.id, body.map Stmt.id⟩)
  | .forLoop site name nameSpan start stop step body => ∃ payload,
      stmts.get site.id = .ok (some ⟨.forLoop, site.span, payload⟩) ∧
        stmts.fors.get payload =
          .ok (some ⟨name, nameSpan, start.id, stop.id, step.id, body.map Stmt.id⟩)

variable {stmts old between new : Stmts} {s : Stmt}

theorem Kept.refl (stmts : Stmts) : stmts.Kept stmts :=
  ⟨.refl _, .refl _, .refl _, .refl _, .refl _, .refl _, .refl _⟩

theorem Kept.trans (first : old.Kept between) (second : between.Kept new) : old.Kept new :=
  ⟨first.entries.trans second.entries, first.assigns.trans second.assigns,
    first.reads.trans second.reads, first.prints.trans second.prints, first.ifs.trans second.ifs,
    first.whiles.trans second.whiles, first.fors.trans second.fors⟩

theorem kept_add (stmts : Stmts) (s : Stmt) : stmts.Kept (stmts.add s).2 := by
  cases s <;> constructor <;> first | exact Arena.Kept.refl _ | exact Arena.kept_allocate _ _

theorem Stores.kept (stored : old.Stores s) (kept : old.Kept new) : new.Stores s := by
  cases s with
  | absent => exact stored
  | hollow | unknown => exact kept.entries.get stored
  | assign =>
    obtain ⟨payload, here, contents⟩ := stored
    exact ⟨payload, kept.entries.get here, kept.assigns.get contents⟩
  | read =>
    obtain ⟨payload, here, contents⟩ := stored
    exact ⟨payload, kept.entries.get here, kept.reads.get contents⟩
  | print =>
    obtain ⟨payload, here, contents⟩ := stored
    exact ⟨payload, kept.entries.get here, kept.prints.get contents⟩
  | ifElse =>
    obtain ⟨payload, here, contents⟩ := stored
    exact ⟨payload, kept.entries.get here, kept.ifs.get contents⟩
  | whileLoop =>
    obtain ⟨payload, here, contents⟩ := stored
    exact ⟨payload, kept.entries.get here, kept.whiles.get contents⟩
  | forLoop =>
    obtain ⟨payload, here, contents⟩ := stored
    exact ⟨payload, kept.entries.get here, kept.fors.get contents⟩

theorem stores_add (present : (Node.stmt s).isAbsent = false) (next : s.id = stmts.size + 1) :
    (stmts.add s).2.Stores s := by
  have entered : ∀ entry : StmtEntry, (stmts.entries.allocate entry).2.get s.id =
      .ok (some entry) := fun entry => next ▸ stmts.entries.get_allocate entry
  cases s with
  | absent => cases present
  | hollow | unknown => exact entered _
  | assign => exact ⟨_, entered _, stmts.assigns.get_allocate _⟩
  | read => exact ⟨_, entered _, stmts.reads.get_allocate _⟩
  | print => exact ⟨_, entered _, stmts.prints.get_allocate _⟩
  | ifElse => exact ⟨_, entered _, stmts.ifs.get_allocate _⟩
  | whileLoop => exact ⟨_, entered _, stmts.whiles.get_allocate _⟩
  | forLoop => exact ⟨_, entered _, stmts.fors.get_allocate _⟩

theorem size_add (stmts : Stmts) (present : (Node.stmt s).isAbsent = false) :
    (stmts.add s).2.size = stmts.size + 1 := by
  cases s with
  | absent => cases present
  | _ => exact stmts.entries.size_allocate _

theorem Stores.entry (stored : stmts.Stores s) :
    ∃ payload, stmts.get s.id = .ok (some ⟨s.kind, s.span, payload⟩) := by
  cases s with
  | absent => exact stored.elim
  | hollow | unknown => exact ⟨0, stored⟩
  | assign | read | print | ifElse | whileLoop | forLoop => exact stored.imp fun _ => And.left

end Stmts

structure Arenas.Kept (old new : Arenas) : Prop where
  exprs : old.exprs.Kept new.exprs
  stmts : old.stmts.Kept new.stmts

namespace Arenas.Kept

variable {old between new : Arenas}

theorem refl (arenas : Arenas) : arenas.Kept arenas := ⟨.refl _, .refl _⟩

theorem trans (first : old.Kept between) (second : between.Kept new) : old.Kept new :=
  ⟨first.exprs.trans second.exprs, first.stmts.trans second.stmts⟩

end Arenas.Kept

namespace Node

def ref : Node → Ref
  | expr e => .expr e.id
  | stmt s => .stmt s.id

/-- Nodes with one number of one sort. -/
def Same (a b : Node) : Prop := a.isStmt = b.isStmt ∧ a.site.id = b.site.id

theorem same_iff {a b : Node} : a.Same b ↔ a.ref = b.ref := by
  cases a <;> cases b <;> simp [Same, ref, isStmt, site, Expr.id, Stmt.id]

theorem id_ref (node : Node) : node.ref.id = node.site.id := by
  cases node <;> rfl

theorem isStmt_of_sort {a b : Node} (same : a.ref.sort = b.ref.sort) : a.isStmt = b.isStmt := by
  cases a <;> cases b <;> first | rfl | cases same

def Stored (arenas : Arenas) : Node → Prop
  | expr e => arenas.exprs.Stores e
  | stmt s => arenas.stmts.Stores s

/-- How many nodes of its sort there are. -/
def among (arenas : Arenas) : Node → Nat
  | expr _ => arenas.exprs.size
  | stmt _ => arenas.stmts.size

variable {arenas old new : Arenas} {node : Node}

theorem Stored.kept (stored : node.Stored old) (kept : old.Kept new) : node.Stored new := by
  cases node with
  | expr e => exact Exprs.Stores.kept stored kept.exprs
  | stmt s => exact Stmts.Stores.kept stored kept.stmts

theorem among_kept (kept : old.Kept new) (node : Node) : node.among old ≤ node.among new := by
  cases node with
  | expr e => exact kept.exprs.entries.size
  | stmt s => exact kept.stmts.entries.size

theorem Stored.le (stored : node.Stored arenas) :
    0 < node.site.id ∧ node.site.id ≤ node.among arenas := by
  cases node with
  | expr e =>
    obtain ⟨payload, here⟩ := Exprs.Stores.entry stored
    exact Arena.le_size here
  | stmt s =>
    obtain ⟨payload, here⟩ := Stmts.Stores.entry stored
    exact Arena.le_size here

/-- No node has the number of an absent one. -/
theorem id_absent (absent : node.isAbsent = true) : node.ref.id = 0 := by
  unfold isAbsent at absent
  split at absent
  · rfl
  · rfl
  · cases absent

end Node

section

variable {α : Type} {id : Nat} {data : α} {arena : Arena α}

theorem Exprs.contents_eq {exprs : Exprs} {isKind : ExprKind → Bool} {entry : ExprEntry}
    (here : exprs.get id = .ok (some entry)) (kind : isKind entry.kind = true)
    (found : arena.get entry.payload = .ok (some data)) :
    needed (exprs.contents isKind arena id) = .ok data := by
  simp [contents, needed, here, kind, found]

theorem Stmts.contents_eq {stmts : Stmts} {entry : StmtEntry}
    (here : stmts.get id = .ok (some entry))
    (found : arena.get entry.payload = .ok (some data)) :
    needed (stmts.contents entry.kind arena id) = .ok data := by
  simp [contents, needed, here, found]

end

namespace Exprs.Stores

variable {exprs : Exprs} {site : Site}

theorem intLit {text : Bytes} {value : Int32} (stored : exprs.Stores (.intLit site text value)) :
    ∃ payload, exprs.get site.id = .ok (some ⟨.intLit, site.span, payload⟩) ∧
      needed (exprs.intLit site.id) = .ok ⟨text, value⟩ :=
  stored.imp fun _ ⟨here, found⟩ => ⟨here, contents_eq here rfl found⟩

theorem varRef {name : Bytes} (stored : exprs.Stores (.varRef site name)) :
    ∃ payload, exprs.get site.id = .ok (some ⟨.varRef, site.span, payload⟩) ∧
      needed (exprs.varRef site.id) = .ok ⟨name⟩ :=
  stored.imp fun _ ⟨here, found⟩ => ⟨here, contents_eq here rfl found⟩

theorem binary {form : BinaryForm} {op : Op} {left right : Expr}
    (stored : exprs.Stores (.binary site form op left right)) :
    ∃ payload, exprs.get site.id = .ok (some ⟨form.kind, site.span, payload⟩) ∧
      needed (exprs.binary site.id) = .ok ⟨op, left.id, right.id⟩ :=
  stored.imp fun _ ⟨here, found⟩ => ⟨here, contents_eq here (by cases form <;> rfl) found⟩

theorem unary {op : Op} {operand : Expr} (stored : exprs.Stores (.unary site op operand)) :
    ∃ payload, exprs.get site.id = .ok (some ⟨.unary, site.span, payload⟩) ∧
      needed (exprs.unary site.id) = .ok ⟨op, operand.id⟩ :=
  stored.imp fun _ ⟨here, found⟩ => ⟨here, contents_eq here rfl found⟩

theorem paren {inner : Expr} (stored : exprs.Stores (.paren site inner)) :
    ∃ payload, exprs.get site.id = .ok (some ⟨.paren, site.span, payload⟩) ∧
      needed (exprs.paren site.id) = .ok ⟨inner.id⟩ :=
  stored.imp fun _ ⟨here, found⟩ => ⟨here, contents_eq here rfl found⟩

end Exprs.Stores

namespace Stmts.Stores

variable {stmts : Stmts} {site : Site} {name : Bytes} {nameSpan : Span} {body : List Stmt}

theorem assign {value : Expr} (stored : stmts.Stores (.assign site name nameSpan value)) :
    ∃ payload, stmts.get site.id = .ok (some ⟨.assign, site.span, payload⟩) ∧
      needed (stmts.assign site.id) = .ok ⟨name, nameSpan, value.id⟩ :=
  stored.imp fun _ ⟨here, found⟩ => ⟨here, contents_eq here found⟩

theorem read (stored : stmts.Stores (.read site name nameSpan)) :
    ∃ payload, stmts.get site.id = .ok (some ⟨.read, site.span, payload⟩) ∧
      needed (stmts.read site.id) = .ok ⟨name, nameSpan⟩ :=
  stored.imp fun _ ⟨here, found⟩ => ⟨here, contents_eq here found⟩

theorem print {value : Expr} (stored : stmts.Stores (.print site value)) :
    ∃ payload, stmts.get site.id = .ok (some ⟨.print, site.span, payload⟩) ∧
      needed (stmts.print site.id) = .ok ⟨value.id⟩ :=
  stored.imp fun _ ⟨here, found⟩ => ⟨here, contents_eq here found⟩

theorem ifElse {cond : Expr} {thenBody elseBody : List Stmt} {hasElse : Bool}
    (stored : stmts.Stores (.ifElse site cond thenBody elseBody hasElse)) :
    ∃ payload, stmts.get site.id = .ok (some ⟨.ifElse, site.span, payload⟩) ∧
      needed (stmts.ifElse site.id) =
        .ok ⟨cond.id, thenBody.map Stmt.id, elseBody.map Stmt.id, hasElse⟩ :=
  stored.imp fun _ ⟨here, found⟩ => ⟨here, contents_eq here found⟩

theorem whileLoop {cond : Expr} (stored : stmts.Stores (.whileLoop site cond body)) :
    ∃ payload, stmts.get site.id = .ok (some ⟨.whileLoop, site.span, payload⟩) ∧
      needed (stmts.whileLoop site.id) = .ok ⟨cond.id, body.map Stmt.id⟩ :=
  stored.imp fun _ ⟨here, found⟩ => ⟨here, contents_eq here found⟩

theorem forLoop {start stop step : Expr}
    (stored : stmts.Stores (.forLoop site name nameSpan start stop step body)) :
    ∃ payload, stmts.get site.id = .ok (some ⟨.forLoop, site.span, payload⟩) ∧
      needed (stmts.forLoop site.id) =
        .ok ⟨name, nameSpan, start.id, stop.id, step.id, body.map Stmt.id⟩ :=
  stored.imp fun _ ⟨here, found⟩ => ⟨here, contents_eq here found⟩

end Stmts.Stores

variable {isName : Bytes → Prop}

theorem Exprs.refs_eq {exprs : Exprs} {e : Expr} (stored : exprs.Stores e)
    (proper : e.Proper isName) : ∃ entry, exprs.get e.id = .ok (some entry) ∧
      exprs.refs e.id entry = .ok ((Node.expr e).children.map Node.ref) := by
  cases e with
  | absent | hollow | unknown => exact proper.elim
  | read => exact ⟨_, stored, rfl⟩
  | intLit =>
    obtain ⟨payload, here, -⟩ := stored.intLit
    exact ⟨_, here, rfl⟩
  | varRef =>
    obtain ⟨payload, here, -⟩ := stored.varRef
    exact ⟨_, here, rfl⟩
  | binary site form =>
    obtain ⟨payload, here, data⟩ := stored.binary
    refine ⟨_, here, ?_⟩
    cases form <;>
      simp [refs, BinaryForm.kind, Expr.id, Expr.site, data, Node.children, Node.ref]
  | unary =>
    obtain ⟨payload, here, data⟩ := stored.unary
    exact ⟨_, here, by simp [refs, Expr.id, Expr.site, data, Node.children, Node.ref]⟩
  | paren =>
    obtain ⟨payload, here, data⟩ := stored.paren
    exact ⟨_, here, by simp [refs, Expr.id, Expr.site, data, Node.children, Node.ref]⟩

theorem Stmts.refs_eq {stmts : Stmts} {s : Stmt} (stored : stmts.Stores s)
    (proper : s.Proper isName) : ∃ entry, stmts.get s.id = .ok (some entry) ∧
      stmts.refs s.id entry = .ok ((Node.stmt s).children.map Node.ref) := by
  cases s with
  | absent | hollow | unknown => exact proper.elim
  | read =>
    obtain ⟨payload, here, -⟩ := stored.read
    exact ⟨_, here, rfl⟩
  | assign =>
    obtain ⟨payload, here, data⟩ := stored.assign
    exact ⟨_, here, by simp [refs, Stmt.id, Stmt.site, data, Node.children, Node.ref]⟩
  | print =>
    obtain ⟨payload, here, data⟩ := stored.print
    exact ⟨_, here, by simp [refs, Stmt.id, Stmt.site, data, Node.children, Node.ref]⟩
  | ifElse =>
    obtain ⟨payload, here, data⟩ := stored.ifElse
    refine ⟨_, here, ?_⟩
    simp [refs, Stmt.id, Stmt.site, data, Node.children, Node.ref, Function.comp_def]
  | whileLoop =>
    obtain ⟨payload, here, data⟩ := stored.whileLoop
    exact ⟨_, here, by simp [refs, Stmt.id, Stmt.site, data, Node.children, Node.ref]⟩
  | forLoop =>
    obtain ⟨payload, here, data⟩ := stored.forLoop
    exact ⟨_, here, by simp [refs, Stmt.id, Stmt.site, data, Node.children, Node.ref]⟩

namespace Arenas

variable {arenas : Arenas} {node : Node}

/-- A walk goes on from a number as it does from the node. -/
theorem refs_eq (stored : node.Stored arenas) (proper : node.Proper isName) :
    arenas.refs {} node.ref = .ok (some (node.children.map Node.ref)) := by
  cases node with
  | expr e =>
    obtain ⟨entry, here, refs⟩ := Exprs.refs_eq stored proper
    simp only [Arenas.refs, Node.ref, here, ok_bind, if_true, refs]
    rfl
  | stmt s =>
    obtain ⟨entry, here, refs⟩ := Stmts.refs_eq stored proper
    simp only [Arenas.refs, Node.ref, here, ok_bind, if_true, refs]
    rfl

theorem describe_eq (stored : node.Stored arenas) :
    arenas.describe node.ref = some (node.kindName, node.site.span) := by
  cases node with
  | expr e =>
    obtain ⟨payload, here⟩ := Exprs.Stores.entry stored
    simp only [describe, Node.ref, here]
    rfl
  | stmt s =>
    obtain ⟨payload, here⟩ := Stmts.Stores.entry stored
    simp only [describe, Node.ref, here]
    rfl

theorem refs_absent (absent : node.isAbsent = true) : arenas.refs {} node.ref = .ok none := by
  unfold Node.isAbsent at absent
  split at absent
  · rfl
  · rfl
  · cases absent

end Arenas

/-- A tree of complete nodes that are stored below nodes with higher numbers. -/
structure Node.Lies (isName : Bytes → Prop) (arenas : Arenas) (root : Node) : Prop where
  stored : ∀ node ∈ root.walk, node.Stored arenas
  complete : ∀ node ∈ root.walk, node.Proper isName
  descends : ∀ node ∈ root.walk, ∀ child ∈ node.children, child.isStmt = node.isStmt →
    child.site.id < node.site.id

theorem Node.Lies.child {arenas : Arenas} {root child : Node} (lies : root.Lies isName arenas)
    (member : child ∈ root.children) : child.Lies isName arenas where
  stored node inside := lies.stored node (Node.mem_walk_of_child member inside)
  complete node inside := lies.complete node (Node.mem_walk_of_child member inside)
  descends node inside := lies.descends node (Node.mem_walk_of_child member inside)

namespace Arenas

variable {arenas : Arenas} {node child root : Node}

/-- Numbers fall from a node to its children, those of all expressions below those of all
statements. -/
def rank (arenas : Arenas) : Node → Nat
  | .expr e => e.id
  | .stmt s => s.id + arenas.exprs.size

theorem rank_child (lies : root.Lies isName arenas) (member : child ∈ root.children) :
    arenas.rank child < arenas.rank root := by
  have present := (Node.walk_child member).1
  have here := Node.mem_walk_self present
  have above := (lies.stored root here).le
  have falls := lies.descends root here child member
  cases root with
  | expr e =>
    cases child with
    | expr e' => exact falls rfl
    | stmt s => cases e <;> simp [Node.children] at member
  | stmt s =>
    cases child with
    | stmt s' => exact Nat.add_lt_add_right (falls rfl) _
    | expr e =>
      have low : e.id ≤ arenas.exprs.size := by
        cases absent : (Node.expr e).isAbsent with
        | true =>
          have none_ : e.id = 0 := Node.id_absent absent
          omega
        | false => exact ((lies.child member).stored _ (Node.mem_walk_self absent)).le.2
      change e.id < s.id + arenas.exprs.size
      change 0 < s.id ∧ _ at above
      omega

theorem mapM_eq_ok {α β ε : Type} {f : α → Except ε β} {g : α → β} {items : List α}
    (each : ∀ item ∈ items, f item = .ok (g item)) : items.mapM f = .ok (items.map g) := by
  induction items with
  | nil => rfl
  | cons item items ih =>
    rw [List.forall_mem_cons] at each
    rw [List.mapM_cons, each.1, ih each.2]
    rfl

/-- A walk by number meets the numbers of the nodes that a walk through the tree meets. -/
theorem walkBelow_eq (lies : root.Lies isName arenas) {depth : Nat}
    (deep : arenas.rank root < depth) :
    arenas.walkBelow {} depth root.ref = .ok (root.walk.map Node.ref) := by
  induction root using Node.induct generalizing depth with
  | step root ih =>
    obtain ⟨depth, rfl⟩ := Nat.exists_eq_add_of_lt (Nat.zero_lt_of_lt deep)
    rw [Nat.zero_add] at deep ⊢
    cases absent : root.isAbsent with
    | true => simp [walkBelow, refs_absent absent, Node.walk_absent absent]
    | false =>
      have here := Node.mem_walk_self absent
      have refs := refs_eq (lies.stored root here) (lies.complete root here)
      have below : (root.children.map Node.ref).mapM (arenas.walkBelow {} depth) =
          .ok (root.children.map fun child => child.walk.map Node.ref) := by
        rw [List.mapM_map]
        refine mapM_eq_ok fun child member => ih child member (lies.child member) ?_
        have falls := rank_child lies member
        omega
      simp only [walkBelow, refs, ok_bind, below, Node.walk_eq absent, pure_eq_ok]
      rw [List.map_cons, List.map_flatMap, List.flatMap]

end Arenas

/-- The expression of a number, read back so deep. -/
def Exprs.tree (exprs : Exprs) : Nat → Nat → Except ArenaFault Expr
  | 0, _ => throw .endless
  | depth + 1, id => do
      match ← exprs.get id with
      | none => return .absent
      | some entry =>
          let site : Site := ⟨id, entry.span⟩
          match BinaryForm.ofKind? entry.kind, entry.kind with
          | some form, _ =>
              let data ← needed (exprs.binary id)
              return .binary site form data.op (← exprs.tree depth data.left)
                (← exprs.tree depth data.right)
          | none, .intLit =>
              let data ← needed (exprs.intLit id)
              return .intLit site data.text data.value
          | none, .varRef =>
              let data ← needed (exprs.varRef id)
              return .varRef site data.name
          | none, .unary =>
              let data ← needed (exprs.unary id)
              return .unary site data.op (← exprs.tree depth data.operand)
          | none, .paren =>
              let data ← needed (exprs.paren id)
              return .paren site (← exprs.tree depth data.inner)
          | none, .read => return .read site
          | none, _ => return .unknown site

namespace Arenas

/-- The statement of a number. -/
def tree (arenas : Arenas) : Nat → Nat → Except ArenaFault Stmt
  | 0, _ => throw .endless
  | depth + 1, id => do
      match ← arenas.stmts.get id with
      | none => return .absent
      | some entry =>
          let site : Site := ⟨id, entry.span⟩
          let value := arenas.exprs.tree depth
          match entry.kind with
          | .assign =>
              let data ← needed (arenas.stmts.assign id)
              return .assign site data.name data.nameSpan (← value data.value)
          | .read =>
              let data ← needed (arenas.stmts.read id)
              return .read site data.name data.nameSpan
          | .print =>
              let data ← needed (arenas.stmts.print id)
              return .print site (← value data.value)
          | .ifElse =>
              let data ← needed (arenas.stmts.ifElse id)
              return .ifElse site (← value data.cond) (← data.thenBody.mapM (arenas.tree depth))
                (← data.elseBody.mapM (arenas.tree depth)) data.hasElse
          | .whileLoop =>
              let data ← needed (arenas.stmts.whileLoop id)
              return .whileLoop site (← value data.cond) (← data.body.mapM (arenas.tree depth))
          | .forLoop =>
              let data ← needed (arenas.stmts.forLoop id)
              return .forLoop site data.name data.nameSpan (← value data.start)
                (← value data.stop) (← value data.step) (← data.body.mapM (arenas.tree depth))
          | .unknown => return .unknown site

/-- The program whose statements have some numbers. -/
def trees (arenas : Arenas) (roots : List Nat) : Except ArenaFault (List Stmt) :=
  roots.mapM (arenas.tree (arenas.stmts.size + arenas.exprs.size + 1))

end Arenas

theorem Arenas.below {arenas : Arenas} {root child : Node} (lies : root.Lies isName arenas)
    {depth : Nat} (deep : arenas.rank root < depth + 1) (member : child ∈ root.children) :
    child.Lies isName arenas ∧ arenas.rank child < depth :=
  ⟨lies.child member, Nat.lt_of_lt_of_le (rank_child lies member) (Nat.le_of_lt_succ deep)⟩

/-- Stored expressions are read back, by any depth above their number. -/
theorem Exprs.tree_eq {arenas : Arenas} {e : Expr} (lies : (Node.expr e).Lies isName arenas)
    {depth : Nat} (deep : e.id < depth) : arenas.exprs.tree depth e.id = .ok e := by
  induction e generalizing depth with
  | absent =>
    obtain ⟨depth, rfl⟩ := Nat.exists_eq_succ_of_ne_zero (Nat.ne_zero_of_lt deep)
    rfl
  | hollow | unknown => exact (lies.complete _ (Node.mem_walk_self rfl)).elim
  | intLit site text value =>
    obtain ⟨depth, rfl⟩ := Nat.exists_eq_succ_of_ne_zero (Nat.ne_zero_of_lt deep)
    obtain ⟨payload, here, data⟩ := Stores.intLit (lies.stored _ (Node.mem_walk_self rfl))
    change arenas.exprs.tree (depth + 1) site.id = _
    simp [tree, here, data, BinaryForm.ofKind?]
  | varRef site name =>
    obtain ⟨depth, rfl⟩ := Nat.exists_eq_succ_of_ne_zero (Nat.ne_zero_of_lt deep)
    obtain ⟨payload, here, data⟩ := Stores.varRef (lies.stored _ (Node.mem_walk_self rfl))
    change arenas.exprs.tree (depth + 1) site.id = _
    simp [tree, here, data, BinaryForm.ofKind?]
  | binary site form op left right first second =>
    obtain ⟨depth, rfl⟩ := Nat.exists_eq_succ_of_ne_zero (Nat.ne_zero_of_lt deep)
    obtain ⟨payload, here, data⟩ := Stores.binary (lies.stored _ (Node.mem_walk_self rfl))
    obtain ⟨leftLies, leftDeep⟩ := Arenas.below lies deep List.mem_cons_self
    obtain ⟨rightLies, rightDeep⟩ :=
      Arenas.below lies deep (List.mem_cons_of_mem _ List.mem_cons_self)
    have known : BinaryForm.ofKind? form.kind = some form := by cases form <;> rfl
    change arenas.exprs.tree (depth + 1) site.id = _
    simp [tree, here, data, known, first leftLies leftDeep,
      second rightLies rightDeep]
  | unary site op operand ih =>
    obtain ⟨depth, rfl⟩ := Nat.exists_eq_succ_of_ne_zero (Nat.ne_zero_of_lt deep)
    obtain ⟨payload, here, data⟩ := Stores.unary (lies.stored _ (Node.mem_walk_self rfl))
    obtain ⟨inside, deeper⟩ := Arenas.below lies deep List.mem_cons_self
    change arenas.exprs.tree (depth + 1) site.id = _
    simp [tree, here, data, BinaryForm.ofKind?, ih inside deeper]
  | paren site inner ih =>
    obtain ⟨depth, rfl⟩ := Nat.exists_eq_succ_of_ne_zero (Nat.ne_zero_of_lt deep)
    obtain ⟨payload, here, data⟩ := Stores.paren (lies.stored _ (Node.mem_walk_self rfl))
    obtain ⟨inside, deeper⟩ := Arenas.below lies deep List.mem_cons_self
    change arenas.exprs.tree (depth + 1) site.id = _
    simp [tree, here, data, BinaryForm.ofKind?, ih inside deeper]
  | read site =>
    obtain ⟨depth, rfl⟩ := Nat.exists_eq_succ_of_ne_zero (Nat.ne_zero_of_lt deep)
    have here : arenas.exprs.get site.id = _ := lies.stored _ (Node.mem_walk_self rfl)
    change arenas.exprs.tree (depth + 1) site.id = _
    simp [tree, here, BinaryForm.ofKind?]

namespace Arenas

variable {arenas : Arenas}

/-- A statement is read back when the parts of it are. -/
private theorem tree_eq_step {s : Stmt} (lies : (Node.stmt s).Lies isName arenas) {depth : Nat}
    (deep : arenas.rank (.stmt s) < depth + 1)
    (ih : ∀ part, Node.stmt part ∈ (Node.stmt s).children → arenas.tree depth part.id = .ok part) :
    arenas.tree (depth + 1) s.id = .ok s := by
  have values : ∀ e : Expr, Node.expr e ∈ (Node.stmt s).children →
      arenas.exprs.tree depth e.id = .ok e := by
    intro e member
    obtain ⟨inside, deeper⟩ := below lies deep member
    exact Exprs.tree_eq inside deeper
  have rows : ∀ body : List Stmt, (∀ part ∈ body, Node.stmt part ∈ (Node.stmt s).children) →
      (body.map Stmt.id).mapM (arenas.tree depth) = .ok body := by
    intro body inside
    rw [List.mapM_map]
    refine (mapM_eq_ok (g := id) fun part member => ih part (inside part member)).trans ?_
    rw [List.map_id]
  cases s with
  | absent => rfl
  | hollow | unknown => exact (lies.complete _ (Node.mem_walk_self rfl)).elim
  | assign site name nameSpan value =>
    obtain ⟨payload, here, data⟩ := Stmts.Stores.assign (lies.stored _ (Node.mem_walk_self rfl))
    have value := values value (by simp [Node.children])
    change arenas.tree (depth + 1) site.id = _
    simp [tree, here, data, value]
  | read site name nameSpan =>
    obtain ⟨payload, here, data⟩ := Stmts.Stores.read (lies.stored _ (Node.mem_walk_self rfl))
    change arenas.tree (depth + 1) site.id = _
    simp [tree, here, data]
  | print site value =>
    obtain ⟨payload, here, data⟩ := Stmts.Stores.print (lies.stored _ (Node.mem_walk_self rfl))
    have value := values value (by simp [Node.children])
    change arenas.tree (depth + 1) site.id = _
    simp [tree, here, data, value]
  | ifElse site cond thenBody elseBody hasElse =>
    obtain ⟨payload, here, data⟩ := Stmts.Stores.ifElse (lies.stored _ (Node.mem_walk_self rfl))
    have cond := values cond (by simp [Node.children])
    have yes := rows thenBody fun part member => by simp [Node.children, member]
    have no := rows elseBody fun part member => by simp [Node.children, member]
    change arenas.tree (depth + 1) site.id = _
    simp only [tree, here, data, cond, yes, no, ok_bind, pure_eq_ok]
  | whileLoop site cond body =>
    obtain ⟨payload, here, data⟩ := Stmts.Stores.whileLoop (lies.stored _ (Node.mem_walk_self rfl))
    have cond := values cond (by simp [Node.children])
    have body := rows body fun part member => by simp [Node.children, member]
    change arenas.tree (depth + 1) site.id = _
    simp only [tree, here, data, cond, body, ok_bind, pure_eq_ok]
  | forLoop site name nameSpan start stop step body =>
    obtain ⟨payload, here, data⟩ := Stmts.Stores.forLoop (lies.stored _ (Node.mem_walk_self rfl))
    have start := values start (by simp [Node.children])
    have stop := values stop (by simp [Node.children])
    have step := values step (by simp [Node.children])
    have body := rows body fun part member => by simp [Node.children, member]
    change arenas.tree (depth + 1) site.id = _
    simp only [tree, here, data, start, stop, step, body, ok_bind, pure_eq_ok]

/-- Stored statements are read back. -/
theorem tree_eq {s : Stmt} (lies : (Node.stmt s).Lies isName arenas) {depth : Nat}
    (deep : arenas.rank (.stmt s) < depth) : arenas.tree depth s.id = .ok s := by
  suffices all : ∀ root : Node, root.Lies isName arenas → ∀ depth, arenas.rank root < depth →
      ∀ s, root = .stmt s → arenas.tree depth s.id = .ok s from all _ lies depth deep s rfl
  intro root
  induction root using Node.induct with
  | step root ih =>
    rintro lies depth deep s rfl
    obtain ⟨depth, rfl⟩ := Nat.exists_eq_succ_of_ne_zero (Nat.ne_zero_of_lt deep)
    refine tree_eq_step lies deep fun part member => ?_
    obtain ⟨inside, deeper⟩ := below lies deep member
    exact ih _ member inside depth deeper part rfl

end Arenas

end Minilang
