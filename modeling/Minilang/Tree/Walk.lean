import Minilang.Tree.Arena

/-! Pre-order traversal in source order, of trees and by number. -/

namespace Minilang

/-- A node met on a walk. -/
inductive Node where
  | expr (e : Expr)
  | stmt (s : Stmt)

namespace Node

def isStmt : Node → Bool
  | stmt _ => true
  | expr _ => false

def kindName : Node → Bytes
  | expr e => e.kind.name
  | stmt s => s.kind.name

def site : Node → Site
  | expr e => e.site
  | stmt s => s.site

end Node

/-- The expression and all below it. A node that fails `enter` is listed without its children. -/
def Expr.walk (enter : Node → Bool) : Expr → List Node
  | .absent => []
  | e@(.binary _ _ _ left right) =>
      .expr e :: if enter (.expr e) then left.walk enter ++ right.walk enter else []
  | e@(.unary _ _ operand) => .expr e :: if enter (.expr e) then operand.walk enter else []
  | e@(.paren _ inner) => .expr e :: if enter (.expr e) then inner.walk enter else []
  | e => [.expr e]

mutual

/-- The statement and all below it. -/
def Stmt.walk (enter : Node → Bool) : Stmt → List Node
  | .absent => []
  | s@(.assign _ _ _ value) => .stmt s :: if enter (.stmt s) then value.walk enter else []
  | s@(.print _ value) => .stmt s :: if enter (.stmt s) then value.walk enter else []
  | s@(.ifElse _ cond thenBody elseBody _) =>
      .stmt s :: if enter (.stmt s) then
        cond.walk enter ++ Stmt.walkAll enter thenBody ++ Stmt.walkAll enter elseBody else []
  | s@(.whileLoop _ cond body) =>
      .stmt s :: if enter (.stmt s) then cond.walk enter ++ Stmt.walkAll enter body else []
  | s@(.forLoop _ _ _ start stop step body) =>
      .stmt s :: if enter (.stmt s) then
        start.walk enter ++ stop.walk enter ++ step.walk enter ++ Stmt.walkAll enter body else []
  | s => [.stmt s]

def Stmt.walkAll (enter : Node → Bool) : List Stmt → List Node
  | [] => []
  | s :: rest => s.walk enter ++ Stmt.walkAll enter rest

end

/-- Every node of a program. -/
def Program.nodes (program : Program) : List Node := Stmt.walkAll (fun _ => true) program.stmts

/-- The number of a node of one of the two sorts. -/
inductive Ref where
  | expr (id : Nat)
  | stmt (id : Nat)
  deriving DecidableEq, Repr

namespace Ref

def id : Ref → Nat
  | expr id | stmt id => id

def sort : Ref → Bytes
  | expr _ => "expr"
  | stmt _ => "stmt"

end Ref

/-- Whether a walk goes on below a node. -/
structure Visitor where
  expr : Nat → ExprEntry → Bool := fun _ _ => true
  stmt : Nat → StmtEntry → Bool := fun _ _ => true

/-- Contents without which a walk cannot go on. -/
def needed {α : Type} (found : Except ArenaFault (Option (Option α))) : Except ArenaFault α := do
  match ← found with
  | some (some contents) => return contents
  | _ => throw .nothing

/-- What an expression refers to, in source order. -/
def Exprs.refs (exprs : Exprs) (id : Nat) (entry : ExprEntry) : Except ArenaFault (List Ref) :=
  match entry.kind with
  | .additive | .multiplicative | .comparison | .logicalAnd | .logicalOr => do
      let data ← needed (exprs.binary id)
      return [.expr data.left, .expr data.right]
  | .unary => do
      let data ← needed (exprs.unary id)
      return [.expr data.operand]
  | .paren => do
      let data ← needed (exprs.paren id)
      return [.expr data.inner]
  | .intLit | .varRef | .read | .unknown => return []

/-- What a statement refers to, in source order. -/
def Stmts.refs (stmts : Stmts) (id : Nat) (entry : StmtEntry) : Except ArenaFault (List Ref) :=
  match entry.kind with
  | .assign => do
      let data ← needed (stmts.assign id)
      return [.expr data.value]
  | .print => do
      let data ← needed (stmts.print id)
      return [.expr data.value]
  | .ifElse => do
      let data ← needed (stmts.ifElse id)
      return .expr data.cond :: (data.thenBody ++ data.elseBody).map .stmt
  | .whileLoop => do
      let data ← needed (stmts.whileLoop id)
      return .expr data.cond :: data.body.map .stmt
  | .forLoop => do
      let data ← needed (stmts.forLoop id)
      return .expr data.start :: .expr data.stop :: .expr data.step :: data.body.map .stmt
  | .read | .unknown => return []

namespace Arenas

/-- The name of the kind of a node and its span, if there is one with the number. -/
def describe (arenas : Arenas) : Ref → Option (Bytes × Span)
  | .expr id => (arenas.exprs.get id).toOption.join.map fun entry => (entry.kind.name, entry.span)
  | .stmt id => (arenas.stmts.get id).toOption.join.map fun entry => (entry.kind.name, entry.span)

/-- Where a walk goes on from a number; nothing comes of the number of no node. -/
def refs (arenas : Arenas) (visitor : Visitor) (ref : Ref) :
    Except ArenaFault (Option (List Ref)) :=
  match ref with
  | .expr id => do
      match ← arenas.exprs.get id with
      | none => return none
      | some entry =>
          if visitor.expr id entry then some <$> arenas.exprs.refs id entry else return some []
  | .stmt id => do
      match ← arenas.stmts.get id with
      | none => return none
      | some entry =>
          if visitor.stmt id entry then some <$> arenas.stmts.refs id entry else return some []

/-- The node of a number and all below it, so deep. -/
def walkBelow (arenas : Arenas) (visitor : Visitor) : Nat → Ref → Except ArenaFault (List Ref)
  | 0, _ => throw .endless
  | depth + 1, ref => do
      match ← arenas.refs visitor ref with
      | none => return []
      | some refs => return ref :: (← refs.mapM (arenas.walkBelow visitor depth)).flatten

/-- The statements of some numbers and all below them. A way down that is longer than there are
nodes comes to one of them twice. -/
def walk (arenas : Arenas) (visitor : Visitor) (roots : List Nat) :
    Except ArenaFault (List Ref) := do
  let depth := arenas.stmts.size + arenas.exprs.size + 1
  return (← roots.mapM fun id => arenas.walkBelow visitor depth (.stmt id)).flatten

end Arenas

end Minilang
