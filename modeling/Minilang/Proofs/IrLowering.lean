import Minilang.Ir.Lower
import Minilang.Proofs.ParsedTrees
import Minilang.Proofs.VariableIndex

/-! The intermediate code that lowering makes, as functions of the tree. Values, cells and labels
are numbered in the order in which they are made, so the code of a node depends on the tree only
through the number of names made before it. What lowering reports is what a walk over the tree
finds. -/

namespace Minilang

namespace Ir

/-- The name that is made `n`-th. -/
def temp (n : Nat) : Bytes := "$" ++ Bytes.dec n

/-- An instruction without a result. -/
def plain (action : Action) : Item := .insn { action }

/-- An instruction whose result has a number. -/
def result (n : Nat) (action : Action) : Item := .insn { result := some (temp n), action }

/-- The block with a number begins. -/
def mark (n : Nat) : Item := .label (temp n)

/-- The cells with the given numbers. -/
def scratchCells (cells : List Nat) : List Item := cells.map fun n => result n .alloca

theorem scratchCells_append (first second : List Nat) :
    scratchCells (first ++ second) = scratchCells first ++ scratchCells second := List.map_append

/-- The calculation of an arithmetic operator. -/
def calcOf : Op → Calc
  | .sub => .sub
  | .mul => .mul
  | .div => .sdiv
  | .rem => .srem
  | _ => .add

/-- The test of a comparison operator. -/
def testOf : Op → Test
  | .ne => .ne
  | .lt => .slt
  | .le => .sle
  | .gt => .sgt
  | .ge => .sge
  | _ => .eq

theorem opcode?_calculation {form : BinaryForm} {op : Op} (admits : form.Admits op)
    (calculates : form = .additive ∨ form = .multiplicative) :
    opcode? op = some (.inl (calcOf op)) := by
  rcases calculates with rfl | rfl
  · rcases admits with rfl | rfl <;> rfl
  · rcases admits with rfl | rfl | rfl <;> rfl

theorem opcode?_comparison {op : Op} (admits : BinaryForm.comparison.Admits op) :
    opcode? op = some (.inr (testOf op)) := by
  cases op <;> first | rfl | cases admits

end Ir

open Ir

/-- How many names the code of an expression makes. -/
def Expr.made : Expr → Nat
  | .absent | .hollow .. | .unknown _ | .intLit .. => 0
  | .varRef .. => 1
  | .read _ => 2
  | .paren _ inner => inner.made
  | .unary _ op operand =>
      operand.made + match op with
        | .neg => 1
        | .not => 2
        | _ => 0
  | .binary _ form _ left right =>
      match form with
      | .additive | .multiplicative => left.made + right.made + 1
      | .comparison => left.made + right.made + 2
      | .logicalAnd | .logicalOr => left.made + right.made + 5

/-- The operand that holds the value of an expression when `n` names have been made before. -/
def Expr.operand (n : Nat) : Expr → Operand
  | .intLit _ _ value => .imm value
  | .paren _ inner => inner.operand n
  | .unary _ .plus operand => operand.operand n
  | e => .reg (temp (n + e.made))

/-- The cells that the code of an expression needs. -/
def Expr.cells (n : Nat) : Expr → List Nat
  | .absent | .hollow .. | .unknown _ | .intLit .. | .varRef .. => []
  | .read _ => [n + 1]
  | .paren _ inner => inner.cells n
  | .unary _ _ operand => operand.cells n
  | .binary _ form _ left right =>
      match form with
      | .additive | .multiplicative | .comparison => left.cells n ++ right.cells (n + left.made)
      | .logicalAnd | .logicalOr =>
          (n + 1) :: (left.cells (n + 1) ++ right.cells (n + 1 + left.made + 3))

/-- The code of an expression when `n` names have been made. -/
def Expr.items (n : Nat) : Expr → List Item
  | .absent | .hollow .. | .unknown _ | .intLit .. => []
  | .varRef _ name => [result (n + 1) (.load name)]
  | .read _ =>
      [plain (.store (.imm 0) (temp (n + 1))), plain (.scan inFormat.name (temp (n + 1))),
        result (n + 2) (.load (temp (n + 1)))]
  | .paren _ inner => inner.items n
  | .unary _ op operand =>
      let k := n + operand.made
      operand.items n ++
        match op with
        | .neg => [result (k + 1) (.compute .sub (.imm 0) (operand.operand n))]
        | .not =>
            [result (k + 1) (.compare .eq (operand.operand n) (.imm 0)),
              result (k + 2) (.widen (.reg (temp (k + 1))))]
        | _ => []
  | .binary _ form op left right =>
      let k := n + left.made + right.made
      let l := left.operand n
      let r := right.operand (n + left.made)
      match form with
      | .additive | .multiplicative =>
          left.items n ++ right.items (n + left.made) ++
            [result (k + 1) (.compute (calcOf op) l r)]
      | .comparison =>
          left.items n ++ right.items (n + left.made) ++
            [result (k + 1) (.compare (testOf op) l r),
              result (k + 2) (.widen (.reg (temp (k + 1))))]
      | .logicalAnd | .logicalOr =>
          let k := n + 1 + left.made
          let cell := temp (n + 1)
          let flag := temp (k + 1)
          let more := temp (k + 2)
          let done := temp (k + 3)
          left.items (n + 1) ++
            [plain (.store (left.operand (n + 1)) cell),
              result (k + 1) (.compare .ne (left.operand (n + 1)) (.imm 0)),
              plain (if form = .logicalAnd then .branch (.reg flag) more done
                else .branch (.reg flag) done more),
              mark (k + 2)] ++
            right.items (k + 3) ++
            [plain (.store (right.operand (k + 3)) cell), plain (.jump done), mark (k + 3),
              result (k + 3 + right.made + 1) (.load cell)]

/-- The step of a counting loop, which is one when it is absent. -/
def Expr.stepOperand (n : Nat) (step : Expr) : Operand :=
  if step.isAbsent then .imm 1 else step.operand n

mutual

/-- How many names the code of a statement makes. -/
def Stmt.made : Stmt → Nat
  | .absent | .hollow .. | .unknown _ | .read .. => 0
  | .assign _ _ _ value | .print _ value => value.made
  | .ifElse _ cond thenBody elseBody hasElse =>
      if hasElse then cond.made + 4 + Stmt.allMade thenBody + Stmt.allMade elseBody
      else cond.made + 3 + Stmt.allMade thenBody
  | .whileLoop _ cond body => 3 + cond.made + 1 + Stmt.allMade body
  | .forLoop _ _ _ start stop step body =>
      start.made + stop.made + step.made + 5 + Stmt.allMade body + 2

def Stmt.allMade : List Stmt → Nat
  | [] => 0
  | s :: rest => s.made + Stmt.allMade rest

end

mutual

/-- The cells that the code of a statement needs. -/
def Stmt.cells (n : Nat) : Stmt → List Nat
  | .absent | .hollow .. | .unknown _ | .read .. => []
  | .assign _ _ _ value | .print _ value => value.cells n
  | .ifElse _ cond thenBody elseBody hasElse =>
      if hasElse then
        cond.cells n ++ Stmt.allCells (n + cond.made + 4) thenBody ++
          Stmt.allCells (n + cond.made + 4 + Stmt.allMade thenBody) elseBody
      else cond.cells n ++ Stmt.allCells (n + cond.made + 3) thenBody
  | .whileLoop _ cond body =>
      cond.cells (n + 3) ++ Stmt.allCells (n + 3 + cond.made + 1) body
  | .forLoop _ _ _ start stop step body =>
      start.cells n ++ stop.cells (n + start.made) ++ step.cells (n + start.made + stop.made) ++
        Stmt.allCells (n + start.made + stop.made + step.made + 5) body

def Stmt.allCells (n : Nat) : List Stmt → List Nat
  | [] => []
  | s :: rest => s.cells n ++ Stmt.allCells (n + s.made) rest

end

mutual

/-- The code of a statement when `n` names have been made. -/
def Stmt.items (n : Nat) : Stmt → List Item
  | .absent | .hollow .. | .unknown _ => []
  | .assign _ name _ value => value.items n ++ [plain (.store (value.operand n) name)]
  | .read _ name _ => [plain (.scan inFormat.name name)]
  | .print _ value => value.items n ++ [plain (.print outFormat.name (value.operand n))]
  | .ifElse _ cond thenBody elseBody hasElse =>
      let k := n + cond.made
      let flag := result (k + 1) (.compare .ne (cond.operand n) (.imm 0))
      let yes := temp (k + 2)
      let done := temp (k + 3)
      if hasElse then
        cond.items n ++
          [flag, plain (.branch (.reg (temp (k + 1))) yes (temp (k + 4))), mark (k + 2)] ++
          Stmt.allItems (k + 4) thenBody ++ [plain (.jump done), mark (k + 4)] ++
          Stmt.allItems (k + 4 + Stmt.allMade thenBody) elseBody ++
          [plain (.jump done), mark (k + 3)]
      else
        cond.items n ++ [flag, plain (.branch (.reg (temp (k + 1))) yes done), mark (k + 2)] ++
          Stmt.allItems (k + 3) thenBody ++ [plain (.jump done), mark (k + 3)]
  | .whileLoop _ cond body =>
      let k := n + 3 + cond.made
      [plain (.jump (temp (n + 1))), mark (n + 1)] ++ cond.items (n + 3) ++
        [result (k + 1) (.compare .ne (cond.operand (n + 3)) (.imm 0)),
          plain (.branch (.reg (temp (k + 1))) (temp (n + 2)) (temp (n + 3))), mark (n + 2)] ++
        Stmt.allItems (k + 1) body ++ [plain (.jump (temp (n + 1))), mark (n + 3)]
  | .forLoop _ name _ start stop step body =>
      let last := stop.operand (n + start.made)
      let increment := step.stepOperand (n + start.made + stop.made)
      let k := n + start.made + stop.made + step.made
      let j := k + 5 + Stmt.allMade body
      start.items n ++ [plain (.store (start.operand n) name)] ++ stop.items (n + start.made) ++
        step.items (n + start.made + stop.made) ++
        [plain (.jump (temp (k + 1))), mark (k + 1), result (k + 4) (.load name),
          result (k + 5) (.compare .sle (.reg (temp (k + 4))) last),
          plain (.branch (.reg (temp (k + 5))) (temp (k + 2)) (temp (k + 3))), mark (k + 2)] ++
        Stmt.allItems (k + 5) body ++
        [result (j + 1) (.load name),
          result (j + 2) (.compute .add (.reg (temp (j + 1))) increment),
          plain (.store (.reg (temp (j + 2))) name), plain (.jump (temp (k + 1))), mark (k + 3)]

def Stmt.allItems (n : Nat) : List Stmt → List Item
  | [] => []
  | s :: rest => s.items n ++ Stmt.allItems (n + s.made) rest

end

/-- The cells of the variables and of the expressions. -/
def Program.entryItems (program : Program) (vars : Variables) : List Item :=
  vars.names.toList.flatMap variableCell ++ scratchCells (Stmt.allCells 0 program.stmts)

/-- The body of the function for a program. -/
def Program.irItems (program : Program) (vars : Variables) : List Item :=
  program.entryItems vars ++ Stmt.allItems 0 program.stmts ++ [plain (.ret (.imm 0))]

/-- The report of a node that refers to an undefined variable. -/
def Node.undefined? (vars : Variables) : Node → Option Diagnostic
  | .expr (.varRef site name) =>
      if vars.has name then none else some (undefinedReport site.span name)
  | _ => none

theorem Program.undefinedReports_eq (program : Program) (vars : Variables) :
    program.undefinedReports vars = program.nodes.filterMap (Node.undefined? vars) := rfl

namespace Ir.Lower

/-- A lowering that succeeds with a value, takes the count of names from `n` to `m`, adds cells to
the entry and items to the body, and reports what it finds. -/
def Emits {α : Type} (lowering : Lower α) (n : Nat) (value : α) (m : Nat) (cells : List Nat)
    (items : List Item) (found : List Diagnostic) : Prop :=
  ∀ state : LowerState, state.made = n →
    lowering.run.run state = (.ok value,
      { made := m, entry := state.entry ++ scratchCells cells, body := state.body ++ items,
        reports := state.reports ++ found })

variable {α β : Type} {n m : Nat}

private theorem append_lists {ι : Type} (items : Array ι) (first second : List ι) :
    items ++ (first ++ second) = items ++ first ++ second :=
  Array.toList_inj.mp (by simp)

theorem emits_pure (value : α) : Emits (pure value) n value n [] [] [] := by
  intro state counted
  subst counted
  simp [scratchCells]
  rfl

private theorem run_bind (lowering : Lower α) (next : α → Lower β) (state : LowerState) :
    (lowering >>= next).run.run state =
      match lowering.run.run state with
      | (.ok value, after) => (next value).run.run after
      | (.error fault, after) => (.error fault, after) := by
  simp only [ExceptT.run_bind, StateT.run_bind]
  rcases lowering.run.run state with ⟨_ | value, after⟩ <;> rfl

theorem Emits.bind {lowering : Lower α} {next : α → Lower β} {value : α} {result : β}
    {middle : Nat} {cells moreCells : List Nat} {items moreItems : List Item}
    {found others : List Diagnostic} (first : Emits lowering n value middle cells items found)
    (second : Emits (next value) middle result m moreCells moreItems others) :
    Emits (lowering >>= next) n result m (cells ++ moreCells) (items ++ moreItems)
      (found ++ others) := by
  intro state counted
  rw [run_bind, first state counted, scratchCells_append, append_lists, append_lists, append_lists]
  exact second _ rfl

theorem emits_item (item : Item) : Emits (emitItem item) n () n [] [item] [] := by
  intro state counted
  subst counted
  simp [emitItem, scratchCells]
  rfl

theorem emits_fresh : Emits fresh n (temp (n + 1)) (n + 1) [] [] [] := by
  intro state counted
  subst counted
  simp [scratchCells]
  rfl

theorem emits_scratch : Emits scratch n (temp (n + 1)) (n + 1) [n + 1] [] [] := by
  intro state counted
  subst counted
  simp [scratchCells]
  rfl

theorem emits_value (action : Action) :
    Emits (value action) n (.reg (temp (n + 1))) (n + 1) [] [Ir.result (n + 1) action] [] :=
  emits_fresh.bind ((emits_item _).bind (emits_pure _))

theorem emits_report (diagnostic : Diagnostic) :
    Emits (report diagnostic) n () n [] [] [diagnostic] := by
  intro state counted
  subst counted
  simp [report, scratchCells]
  rfl

theorem Emits.cast {lowering : Lower α} {value value' : α} {m' : Nat} {cells cells' : List Nat}
    {items items' : List Item} {found found' : List Diagnostic}
    (emits : Emits lowering n value m cells items found) (given : value = value') (count : m = m')
    (sameCells : cells = cells') (sameItems : items = items') (sameFound : found = found') :
    Emits lowering n value' m' cells' items' found' :=
  given ▸ count ▸ sameCells ▸ sameItems ▸ sameFound ▸ emits

end Ir.Lower

open Ir.Lower

/-- What a walk over an expression reports. -/
def Expr.undefined (vars : Variables) (e : Expr) : List Diagnostic :=
  (e.walk fun _ => true).filterMap (Node.undefined? vars)

theorem Expr.undefined_binary (vars : Variables) (site : Site) (form : BinaryForm) (op : Op)
    (left right : Expr) : Expr.undefined vars (.binary site form op left right) =
      left.undefined vars ++ right.undefined vars := by
  rw [Expr.undefined, Expr.walk, List.filterMap_cons_none rfl, if_pos rfl, List.filterMap_append]
  rfl

private theorem emits_varRef (vars : Variables) (site : Site) (name : Bytes) (n : Nat) :
    Emits (Expr.toIr vars (.varRef site name)) n (.reg (temp (n + 1))) (n + 1) []
      [result (n + 1) (.load name)] (Expr.undefined vars (.varRef site name)) := by
  simp only [Expr.toIr, Expr.undefined, Expr.walk, List.filterMap_cons, Node.undefined?,
    List.filterMap_nil]
  cases vars.has name with
  | true => exact emits_value _
  | false => exact (emits_report _).bind (emits_value _)

private theorem emits_calculation {op : Op} {sort : Calc} (found : opcode? op = some (.inl sort))
    (left right : Operand) (n : Nat) :
    Emits (Lower.binary op left right) n (.reg (temp (n + 1))) (n + 1) []
      [result (n + 1) (.compute sort left right)] [] := by
  rw [Lower.binary, found]
  exact emits_value _

private theorem emits_comparison {op : Op} {test : Test} (found : opcode? op = some (.inr test))
    (left right : Operand) (n : Nat) :
    Emits (Lower.binary op left right) n (.reg (temp (n + 1))) (n + 1) []
      [result (n + 1) (.compare test left right)] [] := by
  rw [Lower.binary, found]
  exact emits_value _

/-- Lowering a complete expression succeeds with the code of that expression. -/
theorem Expr.toIr_emits {isName : Bytes → Prop} (vars : Variables) (e : Expr)
    (proper : e.Proper isName) (n : Nat) :
    Emits (e.toIr vars) n (e.operand n) (n + e.made) (e.cells n) (e.items n)
      (e.undefined vars) := by
  induction e generalizing n with
  | absent | hollow | unknown => exact proper.elim
  | intLit site text value => exact emits_pure _
  | varRef site name => exact emits_varRef vars site name n
  | read site =>
    exact emits_scratch.bind ((emits_item _).bind ((emits_item _).bind (emits_value _)))
  | paren site inner ih => exact ih proper n
  | unary site op operand ih =>
    have inner := ih proper.2 n
    rcases proper.1 with rfl | rfl | rfl
    · exact (inner.bind (emits_pure _)).cast rfl rfl (List.append_nil _) rfl (List.append_nil _)
    · exact (inner.bind (emits_value _)).cast rfl rfl (List.append_nil _) rfl (List.append_nil _)
    · exact (inner.bind ((emits_value _).bind (emits_value _))).cast rfl rfl (List.append_nil _) rfl
        (List.append_nil _)
  | binary site form op left right leftIh rightIh =>
    obtain ⟨admits, first, second⟩ := proper
    rw [Expr.undefined_binary]
    cases form with
    | additive | multiplicative =>
      have found := opcode?_calculation admits (by simp)
      refine ((leftIh first n).bind ((rightIh second _).bind
        (emits_calculation found _ _ _))).cast ?_ ?_ ?_ ?_ ?_
      · simp [Expr.operand, Expr.made, Nat.add_assoc]
      · simp [Expr.made, Nat.add_assoc]
      · simp [Expr.cells]
      · simp [Expr.items]
      · simp
    | comparison =>
      have found := opcode?_comparison admits
      refine ((leftIh first n).bind ((rightIh second _).bind
        ((emits_comparison found _ _ _).bind (emits_value _)))).cast ?_ ?_ ?_ ?_ ?_
      · simp [Expr.operand, Expr.made, Nat.add_assoc]
      · simp [Expr.made, Nat.add_assoc]
      · simp [Expr.cells]
      · simp [Expr.items]
      · simp
    | logicalAnd | logicalOr =>
      refine (emits_scratch.bind ((leftIh first _).bind ((emits_item _).bind
        ((emits_value _).bind (emits_fresh.bind (emits_fresh.bind ((emits_item _).bind
        ((emits_item _).bind ((rightIh second _).bind ((emits_item _).bind ((emits_item _).bind
        ((emits_item _).bind (emits_value _))))))))))))).cast ?_ ?_ ?_ ?_ ?_
      · simp only [Expr.operand, Expr.made]
        congr 2
        omega
      · simp only [Expr.made]
        omega
      · simp [Expr.cells]
      · simp [Expr.items, plain, mark]
      · simp

/-- What a walk over a statement reports. -/
def Stmt.undefined (vars : Variables) (s : Stmt) : List Diagnostic :=
  (s.walk fun _ => true).filterMap (Node.undefined? vars)

def Stmt.allUndefined (vars : Variables) (body : List Stmt) : List Diagnostic :=
  (Stmt.walkAll (fun _ => true) body).filterMap (Node.undefined? vars)

theorem Stmt.undefined_ifElse (vars : Variables) (site : Site) (cond : Expr)
    (thenBody elseBody : List Stmt) (hasElse : Bool) :
    Stmt.undefined vars (.ifElse site cond thenBody elseBody hasElse) =
      cond.undefined vars ++ Stmt.allUndefined vars thenBody ++
        Stmt.allUndefined vars elseBody := by
  rw [Stmt.undefined, Stmt.walk, List.filterMap_cons_none rfl, if_pos rfl, List.filterMap_append,
    List.filterMap_append]
  rfl

theorem Stmt.undefined_whileLoop (vars : Variables) (site : Site) (cond : Expr)
    (body : List Stmt) : Stmt.undefined vars (.whileLoop site cond body) =
      cond.undefined vars ++ Stmt.allUndefined vars body := by
  rw [Stmt.undefined, Stmt.walk, List.filterMap_cons_none rfl, if_pos rfl, List.filterMap_append]
  rfl

theorem Stmt.undefined_forLoop (vars : Variables) (site : Site) (name : Bytes) (span : Span)
    (start stop step : Expr) (body : List Stmt) :
    Stmt.undefined vars (.forLoop site name span start stop step body) =
      start.undefined vars ++ stop.undefined vars ++ step.undefined vars ++
        Stmt.allUndefined vars body := by
  rw [Stmt.undefined, Stmt.walk, List.filterMap_cons_none rfl, if_pos rfl, List.filterMap_append,
    List.filterMap_append, List.filterMap_append]
  rfl

theorem Stmt.allUndefined_cons (vars : Variables) (s : Stmt) (rest : List Stmt) :
    Stmt.allUndefined vars (s :: rest) = s.undefined vars ++ Stmt.allUndefined vars rest := by
  rw [Stmt.allUndefined, Stmt.walkAll, List.filterMap_append]
  rfl

private theorem emits_increment {isName : Bytes → Prop} (vars : Variables) {step : Expr}
    (proper : step.isAbsent = false → step.Proper isName) (n : Nat) :
    Emits (if step.isAbsent then pure (.imm 1) else step.toIr vars) n (step.stepOperand n)
      (n + step.made) (step.cells n) (step.items n) (step.undefined vars) := by
  rw [Expr.stepOperand]
  cases step with
  | absent => exact emits_pure _
  | _ => exact Expr.toIr_emits vars _ (proper rfl) n

mutual

/-- Lowering a complete statement succeeds with the code of that statement. -/
theorem Stmt.toIr_emits {isName : Bytes → Prop} (vars : Variables) : (s : Stmt) →
    s.Proper isName → (n : Nat) →
      Emits (s.toIr vars) n () (n + s.made) (s.cells n) (s.items n) (s.undefined vars)
  | .absent, proper, _ | .hollow .., proper, _ | .unknown _, proper, _ => proper.elim
  | .assign site name _ value, proper, n =>
    ((value.toIr_emits vars proper.2 n).bind (emits_item _)).cast rfl rfl (List.append_nil _) rfl
      (List.append_nil _)
  | .read .., _, _ => emits_item _
  | .print site value, proper, n =>
    ((value.toIr_emits vars proper n).bind (emits_item _)).cast rfl rfl (List.append_nil _) rfl
      (List.append_nil _)
  | .ifElse site cond thenBody elseBody hasElse, proper, n => by
    obtain ⟨test, yes, no, only⟩ := proper
    rw [Stmt.undefined_ifElse]
    cases hasElse with
    | true =>
      simp only [Stmt.toIr, if_true]
      refine Emits.cast (.bind (cond.toIr_emits vars test n) <| .bind (emits_value _) <|
        .bind emits_fresh <| .bind emits_fresh <| .bind emits_fresh <| .bind (emits_item _) <|
        .bind (emits_item _) <| .bind (Stmt.allToIr_emits vars thenBody yes _) <|
        .bind (emits_item _) <| .bind (emits_item _) <|
        .bind (Stmt.allToIr_emits vars elseBody no _) <| .bind (emits_item _) <|
        emits_item _) ?_ ?_ ?_ ?_ ?_
      · rfl
      · simp only [Stmt.made, if_true]
        omega
      · simp [Stmt.cells]
      · simp [Stmt.items, plain, mark]
      · simp
    | false =>
      cases only rfl
      simp only [Stmt.toIr, Bool.false_eq_true, if_false]
      refine Emits.cast (.bind (cond.toIr_emits vars test n) <| .bind (emits_value _) <|
        .bind emits_fresh <| .bind emits_fresh <| .bind (emits_pure _) <| .bind (emits_item _) <|
        .bind (emits_item _) <| .bind (Stmt.allToIr_emits vars thenBody yes _) <|
        .bind (emits_item _) <| emits_item _) ?_ ?_ ?_ ?_ ?_
      · rfl
      · simp only [Stmt.made, Bool.false_eq_true, if_false]
        omega
      · simp [Stmt.cells]
      · simp [Stmt.items, plain, mark]
      · simp [Stmt.allUndefined, Stmt.walkAll]
  | .whileLoop site cond body, proper, n => by
    rw [Stmt.undefined_whileLoop]
    simp only [Stmt.toIr]
    refine Emits.cast (.bind emits_fresh <| .bind emits_fresh <| .bind emits_fresh <|
      .bind (emits_item _) <| .bind (emits_item _) <| .bind (cond.toIr_emits vars proper.1 _) <|
      .bind (emits_value _) <| .bind (emits_item _) <| .bind (emits_item _) <|
      .bind (Stmt.allToIr_emits vars body proper.2 _) <| .bind (emits_item _) <|
      emits_item _) ?_ ?_ ?_ ?_ ?_
    · rfl
    · simp only [Stmt.made]
      omega
    · simp [Stmt.cells]
    · simp [Stmt.items, plain, mark]
    · simp
  | .forLoop site name _ start stop step body, proper, n => by
    obtain ⟨-, first, last, increment, inside⟩ := proper
    have counted := emits_increment vars increment
    rw [Stmt.undefined_forLoop]
    simp only [Stmt.toIr]
    -- The branch on the step is taken first, so that the rest is one sequence.
    cases absent : step.isAbsent
    all_goals
      simp only [absent, if_true, if_false, Bool.false_eq_true] at counted ⊢
      refine Emits.cast (.bind (start.toIr_emits vars first n) <| .bind (emits_item _) <|
        .bind (stop.toIr_emits vars last _) <| .bind (counted _) <|
        .bind emits_fresh <| .bind emits_fresh <| .bind emits_fresh <| .bind (emits_item _) <|
        .bind (emits_item _) <| .bind (emits_value _) <| .bind (emits_value _) <|
        .bind (emits_item _) <| .bind (emits_item _) <|
        .bind (Stmt.allToIr_emits vars body inside _) <| .bind (emits_value _) <|
        .bind (emits_value _) <| .bind (emits_item _) <| .bind (emits_item _) <|
        emits_item _) ?_ ?_ ?_ ?_ ?_
      · rfl
      · simp only [Stmt.made]
        omega
      · simp [Stmt.cells]
      · simp [Stmt.items, plain, mark]
      · simp

theorem Stmt.allToIr_emits {isName : Bytes → Prop} (vars : Variables) : (body : List Stmt) →
    Stmt.AllProper isName body → (n : Nat) →
      Emits (Stmt.allToIr vars body) n () (n + Stmt.allMade body) (Stmt.allCells n body)
        (Stmt.allItems n body) (Stmt.allUndefined vars body)
  | [], _, _ => emits_pure _
  | s :: rest, proper, n => by
    rw [Stmt.allUndefined_cons]
    refine Emits.cast (.bind (s.toIr_emits vars proper.1 n) <|
      Stmt.allToIr_emits vars rest proper.2 _) rfl ?_ rfl rfl rfl
    simp only [Stmt.allMade]
    omega

end

/-- The body of the function for a complete program, and what lowering reports. -/
theorem Program.toIr_eq {isName : Bytes → Prop} {program : Program} (vars : Variables)
    (proper : Stmt.AllProper isName program.stmts) :
    program.toIr vars = (.ok (program.irItems vars), program.undefinedReports vars) := by
  have ran := Stmt.allToIr_emits vars program.stmts proper 0
    { entry := (vars.names.toList.flatMap variableCell).toArray } rfl
  rw [Program.toIr, ran]
  simp [Program.irItems, Program.entryItems, plain, Except.map]
  rfl

theorem Expr.proper_of_defined {isName : Bytes → Prop} {vars : Variables} (e : Expr)
    (proper : e.Proper isName) (defined : e.undefined vars = []) :
    e.Proper fun name => vars.has name = true := by
  induction e with
  | absent | hollow | unknown => exact proper
  | intLit | read => trivial
  | varRef site name =>
    cases known : vars.has name with
    | true => exact known
    | false => simp [Expr.undefined, Expr.walk, Node.undefined?, known] at defined
  | paren site inner ih => exact ih proper defined
  | unary site op operand ih => exact ⟨proper.1, ih proper.2 defined⟩
  | binary site form op left right leftIh rightIh =>
    rw [Expr.undefined_binary, List.append_eq_nil_iff] at defined
    exact ⟨proper.1, leftIh proper.2.1 defined.1, rightIh proper.2.2 defined.2⟩

mutual

/-- A complete statement without undefined references speaks of variables only. -/
theorem Stmt.proper_of_defined {isName : Bytes → Prop} {vars : Variables} : (s : Stmt) →
    s.Proper isName → s.AssignsOnly (fun name => vars.has name = true) → s.undefined vars = [] →
      s.Proper fun name => vars.has name = true
  | .absent, proper, _, _ | .hollow .., proper, _, _ | .unknown _, proper, _, _ => proper
  | .assign _ _ _ value, proper, known, defined =>
    ⟨known, value.proper_of_defined proper.2 defined⟩
  | .read .., _, known, _ => known
  | .print _ value, proper, _, defined => value.proper_of_defined proper defined
  | .ifElse _ cond thenBody elseBody _, proper, known, defined => by
    simp only [Stmt.undefined_ifElse, List.append_eq_nil_iff] at defined
    exact ⟨cond.proper_of_defined proper.1 defined.1.1,
      Stmt.allProper_of_defined thenBody proper.2.1 known.1 defined.1.2,
      Stmt.allProper_of_defined elseBody proper.2.2.1 known.2 defined.2, proper.2.2.2⟩
  | .whileLoop _ cond body, proper, known, defined => by
    simp only [Stmt.undefined_whileLoop, List.append_eq_nil_iff] at defined
    exact ⟨cond.proper_of_defined proper.1 defined.1,
      Stmt.allProper_of_defined body proper.2 known defined.2⟩
  | .forLoop _ _ _ start stop step body, proper, known, defined => by
    simp only [Stmt.undefined_forLoop, List.append_eq_nil_iff] at defined
    obtain ⟨⟨⟨inStart, inStop⟩, inStep⟩, inBody⟩ := defined
    obtain ⟨-, first, last, increment, inside⟩ := proper
    exact ⟨known.1, start.proper_of_defined first inStart, stop.proper_of_defined last inStop,
      fun present => step.proper_of_defined (increment present) inStep,
      Stmt.allProper_of_defined body inside known.2 inBody⟩

theorem Stmt.allProper_of_defined {isName : Bytes → Prop} {vars : Variables} :
    (body : List Stmt) → Stmt.AllProper isName body →
      Stmt.AllAssignOnly (fun name => vars.has name = true) body →
      Stmt.allUndefined vars body = [] →
      Stmt.AllProper (fun name => vars.has name = true) body
  | [], _, _, _ => trivial
  | s :: rest, proper, known, defined => by
    rw [Stmt.allUndefined_cons, List.append_eq_nil_iff] at defined
    exact ⟨s.proper_of_defined proper.1 known.1 defined.1,
      Stmt.allProper_of_defined rest proper.2 known.2 defined.2⟩

end

theorem Expr.walk_target? (e : Expr) : ∀ node ∈ e.walk fun _ => true, node.target? = none := by
  induction e with
  | absent => exact nofun
  | hollow | unknown | intLit | varRef | read => simp [Expr.walk, Node.target?]
  | paren site inner ih => simpa [Expr.walk, Node.target?] using ih
  | unary site op operand ih => simpa [Expr.walk, Node.target?] using ih
  | binary site form op left right leftIh rightIh =>
    intro node member
    simp only [Expr.walk, if_true, List.mem_cons, List.mem_append] at member
    rcases member with rfl | inLeft | inRight
    · rfl
    · exact leftIh node inLeft
    · exact rightIh node inRight

mutual

/-- What a complete statement gives a value to is a name. -/
theorem Stmt.targets_proper {isName : Bytes → Prop} : (s : Stmt) → s.Proper isName →
    ∀ node ∈ s.walk fun _ => true, ∀ name, node.target? = some name → isName name
  | .absent, proper | .hollow .., proper | .unknown _, proper => proper.elim
  | .assign _ name _ value, proper => by
    have inside := value.walk_target?
    intro node member other target
    rcases List.mem_cons.mp member with rfl | below
    · cases target
      exact proper.1
    · rw [inside node below] at target
      cases target
  | .read _ name _, proper => by
    intro node member other target
    cases List.mem_singleton.mp member
    cases target
    exact proper
  | .print _ value, proper => by
    have inside := value.walk_target?
    intro node member other target
    rcases List.mem_cons.mp member with rfl | below
    · cases target
    · rw [inside node below] at target
      cases target
  | .ifElse _ cond thenBody elseBody _, proper => by
    have inside := cond.walk_target?
    have yes := Stmt.allTargets_proper thenBody proper.2.1
    have no := Stmt.allTargets_proper elseBody proper.2.2.1
    intro node member other target
    simp only [Stmt.walk, if_true, List.mem_cons, List.mem_append] at member
    rcases member with rfl | (below | below) | below
    · cases target
    · rw [inside node below] at target
      cases target
    · exact yes node below other target
    · exact no node below other target
  | .whileLoop _ cond body, proper => by
    have inside := cond.walk_target?
    have round := Stmt.allTargets_proper body proper.2
    intro node member other target
    simp only [Stmt.walk, if_true, List.mem_cons, List.mem_append] at member
    rcases member with rfl | below | below
    · cases target
    · rw [inside node below] at target
      cases target
    · exact round node below other target
  | .forLoop _ name _ start stop step body, proper => by
    obtain ⟨counter, -, -, -, within⟩ := proper
    have round := Stmt.allTargets_proper body within
    have header : ∀ node ∈ (start.walk fun _ => true) ++ (stop.walk fun _ => true) ++
        (step.walk fun _ => true), node.target? = none := by
      simp only [List.mem_append, or_imp, forall_and]
      exact ⟨⟨start.walk_target?, stop.walk_target?⟩, step.walk_target?⟩
    intro node member other target
    rcases List.mem_cons.mp member with rfl | below
    · cases target
      exact counter
    · simp only [if_true, List.mem_append] at below
      rcases below with bound | inside
      · rw [header node (by simpa only [List.mem_append] using bound)] at target
        cases target
      · exact round node inside other target

theorem Stmt.allTargets_proper {isName : Bytes → Prop} : (body : List Stmt) →
    Stmt.AllProper isName body → ∀ node ∈ Stmt.walkAll (fun _ => true) body, ∀ name,
      node.target? = some name → isName name
  | [], _ => nofun
  | s :: rest, proper => by
    have first := s.targets_proper proper.1
    have second := Stmt.allTargets_proper rest proper.2
    intro node member
    rcases List.mem_append.mp member with here | later
    · exact first node here
    · exact second node later

end

/-- The variables of a complete program are names. -/
theorem Program.variable_isName {isName : Bytes → Prop} {program : Program} {name : Bytes}
    (proper : Stmt.AllProper isName program.stmts)
    (known : (Variables.ofProgram program).has name = true) : isName name := by
  rcases (Variables.has_foldl _ _ _).mp known with ⟨node, member, target⟩ | none
  · exact Stmt.allTargets_proper _ proper node member name target
  · simp [Variables.has] at none

end Minilang
