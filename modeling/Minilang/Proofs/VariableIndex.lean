import Minilang.Variables

/-! The variables of a program: positions and names determine each other, and every name that
receives a value has a position. -/

namespace Minilang

namespace Variables

/-- Looking up a name gives its position in the list of names. -/
def Sound (vars : Variables) : Prop :=
  ∀ name i, vars.index? name = some i ↔ vars.names[i]? = some name

theorem has_iff {vars : Variables} {name : Bytes} :
    vars.has name = true ↔ ∃ i, vars.index? name = some i := by
  rw [has, Std.HashMap.contains_eq_isSome_getElem?, Option.isSome_iff_exists]
  rfl

theorem Sound.lt {vars : Variables} (sound : vars.Sound) {name : Bytes} {i : Nat}
    (found : vars.index? name = some i) : i < vars.size :=
  (Array.getElem?_eq_some_iff.mp ((sound name i).mp found)).1

theorem Sound.inj {vars : Variables} (sound : vars.Sound) {name other : Bytes} {i : Nat}
    (first : vars.index? name = some i) (second : vars.index? other = some i) : name = other := by
  have same := ((sound name i).mp first).symm.trans ((sound other i).mp second)
  simpa using same

theorem index?_add (vars : Variables) (name other : Bytes) (span : Span) :
    (vars.add name span).index? other =
      if vars.has name = false ∧ name = other then some vars.names.size else vars.index? other := by
  rw [add]
  cases known : vars.has name with
  | true => simp
  | false => simp [index?, Std.HashMap.getElem?_insert]

theorem Sound.add {vars : Variables} (sound : vars.Sound) (name : Bytes) (span : Span) :
    (vars.add name span).Sound := by
  intro other i
  rw [index?_add]
  rw [Variables.add]
  cases known : vars.has name with
  | true => simpa using sound other i
  | false =>
    simp only [true_and, Bool.false_eq_true, if_false, Array.getElem?_push]
    have absent : ∀ i : Nat, vars.names[i]? ≠ some name := by
      intro i there
      have found := has_iff.mpr ⟨i, (sound name i).mpr there⟩
      rw [known] at found
      cases found
    by_cases last : i = vars.names.size
    · subst last
      have outside : vars.index? other ≠ some vars.names.size := fun found =>
        Nat.lt_irrefl _ (sound.lt found)
      by_cases same : name = other <;> simp [same, outside]
    · rw [if_neg last, ← sound other i]
      by_cases same : name = other
      · subst same
        have missing : vars.index? name ≠ some i := fun found => absent i ((sound name i).mp found)
        simp [missing, Ne.symm last]
      · simp [same]

theorem Sound.addNode {vars : Variables} (sound : vars.Sound) (node : Node) :
    (vars.addNode node).Sound := by
  unfold Variables.addNode
  split
  · exact sound.add _ _
  · exact sound.add _ _
  · exact sound.add _ _
  · exact sound

theorem Sound.foldl {vars : Variables} (sound : vars.Sound) (nodes : List Node) :
    (nodes.foldl Variables.addNode vars).Sound := by
  induction nodes generalizing vars with
  | nil => exact sound
  | cons node rest ih => exact ih (sound.addNode node)

/-- The positions found for a program are those of its list of names. -/
theorem ofProgram_sound (program : Program) : (ofProgram program).Sound := by
  refine Sound.foldl (fun name i => ?_) _
  simp [index?]

end Variables

/-- The name that a node gives a value to. -/
def Node.target? : Node → Option Bytes
  | .stmt (.assign _ name _ _) | .stmt (.read _ name _) | .stmt (.forLoop _ name _ _ _ _ _) =>
      some name
  | _ => none

namespace Variables

theorem has_addNode (vars : Variables) (node : Node) (name : Bytes) :
    (vars.addNode node).has name = true ↔ node.target? = some name ∨ vars.has name = true := by
  have added : ∀ (other : Bytes) (span : Span), (vars.add other span).has name = true ↔
      other = name ∨ vars.has name = true := by
    intro other span
    rw [has_iff, index?_add]
    by_cases same : other = name
    · subst same
      cases known : vars.has other with
      | true => simpa [known] using has_iff.mp known
      | false => simp
    · simp [same, has_iff]
  unfold Variables.addNode Node.target?
  split <;> simp_all

theorem has_foldl (nodes : List Node) (vars : Variables) (name : Bytes) :
    (nodes.foldl Variables.addNode vars).has name = true ↔
      (∃ node ∈ nodes, node.target? = some name) ∨ vars.has name = true := by
  induction nodes generalizing vars with
  | nil => simp
  | cons node rest ih =>
    rw [List.foldl_cons, ih, has_addNode]
    simp only [List.mem_cons, exists_eq_or_imp]
    rw [or_left_comm, or_assoc]

end Variables

mutual

/-- Every name that receives a value is known. -/
def Stmt.AssignsOnly (known : Bytes → Prop) : Stmt → Prop
  | .absent | .hollow .. | .unknown _ | .print .. => True
  | .assign _ name _ _ | .read _ name _ => known name
  | .ifElse _ _ thenBody elseBody _ =>
      Stmt.AllAssignOnly known thenBody ∧ Stmt.AllAssignOnly known elseBody
  | .whileLoop _ _ body => Stmt.AllAssignOnly known body
  | .forLoop _ name _ _ _ _ body => known name ∧ Stmt.AllAssignOnly known body

def Stmt.AllAssignOnly (known : Bytes → Prop) : List Stmt → Prop
  | [] => True
  | s :: rest => s.AssignsOnly known ∧ Stmt.AllAssignOnly known rest

end

/-- The names that receive a value at a list of nodes are known. -/
private def TargetsOf (known : Bytes → Prop) (nodes : List Node) : Prop :=
  ∀ node ∈ nodes, ∀ name, node.target? = some name → known name

private theorem targetsOf_append {known : Bytes → Prop} {first second : List Node} :
    TargetsOf known (first ++ second) ↔ TargetsOf known first ∧ TargetsOf known second := by
  simp only [TargetsOf, List.mem_append, or_imp, forall_and]

private theorem targetsOf_cons {known : Bytes → Prop} {node : Node} {rest : List Node} :
    TargetsOf known (node :: rest) ↔
      (∀ name, node.target? = some name → known name) ∧ TargetsOf known rest := by
  simp only [TargetsOf, List.forall_mem_cons]

mutual

private theorem assignsOnly_of_targets {known : Bytes → Prop} :
    (s : Stmt) → TargetsOf known (s.walk fun _ => true) → s.AssignsOnly known
  | .absent, _ | .hollow .., _ | .unknown _, _ | .print .., _ => trivial
  | .assign .., all => (targetsOf_cons.mp all).1 _ rfl
  | .read .., all => (targetsOf_cons.mp all).1 _ rfl
  | .ifElse _ _ thenBody elseBody _, all => by
    have below := (targetsOf_cons.mp all).2
    simp only [if_true, targetsOf_append] at below
    exact ⟨allAssignOnly_of_targets thenBody below.1.2, allAssignOnly_of_targets elseBody below.2⟩
  | .whileLoop _ _ body, all => by
    have below := (targetsOf_cons.mp all).2
    simp only [if_true, targetsOf_append] at below
    exact allAssignOnly_of_targets body below.2
  | .forLoop _ _ _ _ _ _ body, all => by
    have below := (targetsOf_cons.mp all).2
    simp only [if_true, targetsOf_append] at below
    exact ⟨(targetsOf_cons.mp all).1 _ rfl, allAssignOnly_of_targets body below.2⟩

private theorem allAssignOnly_of_targets {known : Bytes → Prop} :
    (body : List Stmt) → TargetsOf known (Stmt.walkAll (fun _ => true) body) →
      Stmt.AllAssignOnly known body
  | [], _ => trivial
  | s :: rest, all => by
    rw [Stmt.walkAll, targetsOf_append] at all
    exact ⟨assignsOnly_of_targets s all.1, allAssignOnly_of_targets rest all.2⟩

end

/-- Every name that receives a value in a program is one of its variables. -/
theorem Program.assignsOnly (program : Program) :
    Stmt.AllAssignOnly (fun name => (Variables.ofProgram program).has name = true)
      program.stmts := by
  refine allAssignOnly_of_targets _ fun node member name target => ?_
  exact (Variables.has_foldl _ _ _).mpr (.inl ⟨node, member, target⟩)

end Minilang
