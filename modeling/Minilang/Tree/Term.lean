import Minilang.Tree.Basic

/-! Trees written as terms: a list with a verb in front is a node, and an absent term is a missing
one. Nodes are numbered from one in the order they are written, and take their places from a list
as long as it lasts. -/

namespace Minilang

inductive Term where
  | absent
  | number (n : Int)
  | word (text : Bytes)
  | list (items : List Term)
  deriving Repr, Inhabited

namespace Term

/-- How deep lists are nested. -/
def depth : Term → Nat
  | list items => (items.map depth).foldl max 0 + 1
  | _ => 0

def items : Term → List Term
  | list items => items
  | _ => []

def text : Term → Bytes
  | word text => text
  | number n => Bytes.int n
  | _ => []

def int : Term → Int
  | number n => n
  | _ => 0

def nat (term : Term) : Nat := term.int.toNat

/-- The places still to be given, and the number of the next node. -/
abbrev Numbering := StateM (List Span × Nat)

private def nextSite : Numbering Site := do
  let (given, next) ← get
  set (given.tail, next + 1)
  return ⟨next, given.headD ⟨0, next.toUInt32, (next + 1).toUInt32⟩⟩

/-- An expression without its contents. -/
private def bareExpr (site : Site) : ExprKind → Expr
  | .read => .read site
  | .unknown => .unknown site
  | kind => .hollow site kind

private def exprLoop : Nat → Term → Numbering Expr
  | 0, _ => return .absent
  | fuel + 1, term => do
      match term.items with
      | [] => return .absent
      | verb :: operands =>
          let site ← nextSite
          let operand := fun i => operands.getD i .absent
          let kind := ExprKind.ofNumber (operand 0).nat
          let verb := verb.text
          if verb = "int" then
            return .intLit site (Bytes.int (operand 0).int) (operand 0).int.toInt32
          else if verb = "var" then return .varRef site (operand 0).text
          else if verb = "un" then
            return .unary site (.ofNumber (operand 0).nat) (← exprLoop fuel (operand 1))
          else if verb = "paren" then return .paren site (← exprLoop fuel (operand 0))
          else if verb = "read" then return .read site
          else if verb = "bin" then
            let left ← exprLoop fuel (operand 2)
            let right ← exprLoop fuel (operand 3)
            match BinaryForm.ofKind? kind with
            | some form => return .binary site form (.ofNumber (operand 1).nat) left right
            | none => return bareExpr site kind
          else return bareExpr site kind

def toExpr (term : Term) : Numbering Expr := exprLoop term.depth term

private def stmtLoop : Nat → Term → Numbering Stmt
  | 0, _ => return .absent
  | fuel + 1, term => do
      match term.items with
      | [] => return .absent
      | verb :: operands =>
          let site ← nextSite
          let operand := fun i => operands.getD i .absent
          let name := (operand 0).text
          let body := fun i => (operand i).items.mapM (stmtLoop fuel)
          let verb := verb.text
          if verb = "assign" then
            return .assign site name site.span (← (operand 1).toExpr)
          else if verb = "read" then return .read site name site.span
          else if verb = "print" then return .print site (← (operand 0).toExpr)
          else if verb = "if" then
            return .ifElse site (← (operand 0).toExpr) (← body 1) (← body 2)
              (operands.length == 3)
          else if verb = "while" then
            return .whileLoop site (← (operand 0).toExpr) (← body 1)
          else if verb = "for" then
            let start ← (operand 1).toExpr
            let stop ← (operand 2).toExpr
            return .forLoop site name site.span start stop (← (operand 3).toExpr) (← body 4)
          else
            match StmtKind.ofNumber (operand 0).nat with
            | .unknown => return .unknown site
            | kind => return .hollow site kind

def toStmt (term : Term) : Numbering Stmt := stmtLoop term.depth term

def toProgram (terms : List Term) : Numbering Program := do
  return { stmts := ← terms.mapM toStmt }

end Term

end Minilang
