import Minilang.Source.Span

/-! Syntax trees. Every node has a site: the number it got when it was allocated, counted from one
for expressions and for statements apart, and its span. Trees built by hand may lack a node where
one is due (`absent`), or hold one of a kind without its contents (`hollow`) or of no known kind
(`unknown`); the parser builds none of these, except that the step of a counting loop is absent
when it is not written. -/

namespace Minilang

/-- Operators of binary and unary expressions. -/
inductive Op where
  | invalid
  | add
  | sub
  | mul
  | div
  | rem
  | eq
  | ne
  | lt
  | le
  | gt
  | ge
  | plus
  | neg
  | not
  deriving DecidableEq, Repr

namespace Op

/-- Every operator, numbered by its position. -/
def all : List Op := [invalid, add, sub, mul, div, rem, eq, ne, lt, le, gt, ge, plus, neg, not]

def text : Op → Bytes
  | invalid => "<invalid>"
  | add | plus => "+"
  | sub | neg => "-"
  | mul => "*"
  | div => "/"
  | rem => "%"
  | eq => "=="
  | ne => "!="
  | lt => "<"
  | le => "<="
  | gt => ">"
  | ge => ">="
  | not => "!"

/-- Whether the result is a truth value. -/
def isComparison : Op → Bool
  | eq | ne | lt | le | gt | ge => true
  | _ => false

/-- The operator with a number; numbers past the last one are invalid. -/
def ofNumber (n : Nat) : Op := all.getD n invalid

end Op

/-- Kinds of expressions. -/
inductive ExprKind where
  | intLit
  | varRef
  | additive
  | multiplicative
  | unary
  | paren
  | comparison
  | logicalAnd
  | logicalOr
  | read
  | unknown
  deriving DecidableEq, Repr

namespace ExprKind

/-- The known kinds, numbered by position. -/
def all : List ExprKind :=
  [intLit, varRef, additive, multiplicative, unary, paren, comparison, logicalAnd, logicalOr, read]

def name : ExprKind → Bytes
  | intLit => "IntLit"
  | varRef => "VarRef"
  | additive => "Additive"
  | multiplicative => "Multiplicative"
  | unary => "Unary"
  | paren => "Paren"
  | comparison => "Comparison"
  | logicalAnd => "LogicalAnd"
  | logicalOr => "LogicalOr"
  | read => "Read"
  | unknown => "Expr(?)"

def ofNumber (n : Nat) : ExprKind := all.getD n unknown

end ExprKind

/-- The five shapes of an expression with two operands. -/
inductive BinaryForm where
  | additive
  | multiplicative
  | comparison
  | logicalAnd
  | logicalOr
  deriving DecidableEq, Repr

namespace BinaryForm

def kind : BinaryForm → ExprKind
  | additive => .additive
  | multiplicative => .multiplicative
  | comparison => .comparison
  | logicalAnd => .logicalAnd
  | logicalOr => .logicalOr

def ofKind? : ExprKind → Option BinaryForm
  | .additive => some additive
  | .multiplicative => some multiplicative
  | .comparison => some comparison
  | .logicalAnd => some logicalAnd
  | .logicalOr => some logicalOr
  | _ => none

/-- Whether the operator is part of the node; the logical forms imply theirs. -/
def showsOp : BinaryForm → Bool
  | additive | multiplicative | comparison => true
  | logicalAnd | logicalOr => false

end BinaryForm

/-- Kinds of statements. -/
inductive StmtKind where
  | assign
  | read
  | print
  | ifElse
  | whileLoop
  | forLoop
  | unknown
  deriving DecidableEq, Repr

namespace StmtKind

def all : List StmtKind := [assign, read, print, ifElse, whileLoop, forLoop]

def name : StmtKind → Bytes
  | assign => "Assign"
  | read => "Read"
  | print => "Print"
  | ifElse => "If"
  | whileLoop => "While"
  | forLoop => "For"
  | unknown => "Stmt(?)"

def ofNumber (n : Nat) : StmtKind := all.getD n unknown

end StmtKind

/-- The number and the place of a node. -/
structure Site where
  id : Nat := 0
  span : Span := {}
  deriving DecidableEq, Repr, Inhabited

inductive Expr where
  | absent
  | hollow (site : Site) (kind : ExprKind)
  | unknown (site : Site)
  | intLit (site : Site) (text : Bytes) (value : Int32)
  | varRef (site : Site) (name : Bytes)
  | binary (site : Site) (form : BinaryForm) (op : Op) (left right : Expr)
  | unary (site : Site) (op : Op) (operand : Expr)
  | paren (site : Site) (inner : Expr)
  | read (site : Site)
  deriving Repr, Inhabited

namespace Expr

/-- The site; absent nodes have number zero. -/
def site : Expr → Site
  | absent => {}
  | hollow site _ | unknown site | intLit site _ _ | varRef site _ | binary site _ _ _ _
  | unary site _ _ | paren site _ | read site => site

def id (e : Expr) : Nat := e.site.id

def span (e : Expr) : Span := e.site.span

def kind : Expr → ExprKind
  | absent | unknown _ => .unknown
  | hollow _ kind => kind
  | intLit .. => .intLit
  | varRef .. => .varRef
  | binary _ form _ _ _ => form.kind
  | unary .. => .unary
  | paren .. => .paren
  | read _ => .read

def isAbsent : Expr → Bool
  | absent => true
  | _ => false

/-- No node below lacks its contents. -/
def isFilled : Expr → Bool
  | hollow .. => false
  | binary _ _ _ left right => left.isFilled && right.isFilled
  | unary _ _ operand => operand.isFilled
  | paren _ inner => inner.isFilled
  | _ => true

/-- No node below lacks the contents that hold its operands. -/
def isLinked : Expr → Bool
  | hollow _ kind => kind == .intLit || kind == .varRef
  | binary _ _ _ left right => left.isLinked && right.isLinked
  | unary _ _ operand => operand.isLinked
  | paren _ inner => inner.isLinked
  | _ => true

end Expr

inductive Stmt where
  | absent
  | hollow (site : Site) (kind : StmtKind)
  | unknown (site : Site)
  | assign (site : Site) (name : Bytes) (nameSpan : Span) (value : Expr)
  | read (site : Site) (name : Bytes) (nameSpan : Span)
  | print (site : Site) (value : Expr)
  | ifElse (site : Site) (cond : Expr) (thenBody elseBody : List Stmt) (hasElse : Bool)
  | whileLoop (site : Site) (cond : Expr) (body : List Stmt)
  | forLoop (site : Site) (name : Bytes) (nameSpan : Span) (start stop step : Expr)
      (body : List Stmt)
  deriving Repr, Inhabited

namespace Stmt

def site : Stmt → Site
  | absent => {}
  | hollow site _ | unknown site | assign site _ _ _ | read site _ _ | print site _
  | ifElse site _ _ _ _ | whileLoop site _ _ | forLoop site _ _ _ _ _ _ => site

def id (s : Stmt) : Nat := s.site.id

def span (s : Stmt) : Span := s.site.span

def kind : Stmt → StmtKind
  | absent | unknown _ => .unknown
  | hollow _ kind => kind
  | assign .. => .assign
  | read .. => .read
  | print .. => .print
  | ifElse .. => .ifElse
  | whileLoop .. => .whileLoop
  | forLoop .. => .forLoop

mutual

/-- Whether every expression below passes a test and no statement lacks its contents. -/
def allExprs (test : Expr → Bool) : Stmt → Bool
  | hollow .. => false
  | absent | unknown _ | read .. => true
  | assign _ _ _ value | print _ value => test value
  | ifElse _ cond thenBody elseBody _ =>
      test cond && allExprsIn test thenBody && allExprsIn test elseBody
  | whileLoop _ cond body => test cond && allExprsIn test body
  | forLoop _ _ _ start stop step body =>
      test start && test stop && test step && allExprsIn test body

def allExprsIn (test : Expr → Bool) : List Stmt → Bool
  | [] => true
  | s :: rest => allExprs test s && allExprsIn test rest

end

end Stmt

/-- A whole program: statements in source order. -/
structure Program where
  span : Span := {}
  stmts : List Stmt := []
  deriving Repr, Inhabited

namespace Program

/-- No node lacks its contents. -/
def isFilled (program : Program) : Bool := Stmt.allExprsIn Expr.isFilled program.stmts

/-- No node lacks the contents that hold its children. -/
def isLinked (program : Program) : Bool := Stmt.allExprsIn Expr.isLinked program.stmts

end Program

end Minilang
