import Minilang.Tree.Basic

/-! Arenas. The nodes of a program lie in two arenas, the expressions in one and the statements in
the other, and refer to each other by number, counted from one. A node has its kind, its span and
the number of its contents, which lie in an arena of their own for each kind. Zero is no node. -/

namespace Minilang

/-- Where following numbers goes wrong. -/
inductive ArenaFault where
  /-- A number behind the last one. -/
  | outside
  /-- Contents that are needed and not there. -/
  | nothing
  /-- References that lead round in a circle. -/
  | endless
  deriving DecidableEq, Repr

structure Arena (α : Type) where
  items : Array α := #[]

namespace Arena

variable {α : Type}

def size (arena : Arena α) : Nat := arena.items.size

/-- Keeps a value under the next number. -/
def allocate (arena : Arena α) (value : α) : Nat × Arena α :=
  (arena.size + 1, { items := arena.items.push value })

/-- What is kept under a number, which is nothing for zero. -/
def get (arena : Arena α) : Nat → Except ArenaFault (Option α)
  | 0 => .ok none
  | n + 1 =>
      match arena.items[n]? with
      | some value => .ok (some value)
      | none => .error .outside

end Arena

structure ExprEntry where
  kind : ExprKind
  span : Span
  /-- The number of the contents. -/
  payload : Nat
  deriving DecidableEq, Repr

structure StmtEntry where
  kind : StmtKind
  span : Span
  payload : Nat
  deriving DecidableEq, Repr

namespace Exprs

structure IntLit where
  text : Bytes
  value : Int32
  deriving DecidableEq, Repr

structure VarRef where
  name : Bytes
  deriving DecidableEq, Repr

/-- The contents of all five kinds with two operands. -/
structure Binary where
  op : Op
  left : Nat
  right : Nat
  deriving DecidableEq, Repr

structure Unary where
  op : Op
  operand : Nat
  deriving DecidableEq, Repr

structure Paren where
  inner : Nat
  deriving DecidableEq, Repr

end Exprs

namespace Stmts

structure Assign where
  name : Bytes
  nameSpan : Span
  value : Nat
  deriving DecidableEq, Repr

structure Read where
  name : Bytes
  nameSpan : Span
  deriving DecidableEq, Repr

structure Print where
  value : Nat
  deriving DecidableEq, Repr

structure If where
  cond : Nat
  thenBody : List Nat
  elseBody : List Nat
  hasElse : Bool
  deriving DecidableEq, Repr

structure While where
  cond : Nat
  body : List Nat
  deriving DecidableEq, Repr

/-- The step is zero where none is written. -/
structure For where
  name : Bytes
  nameSpan : Span
  start : Nat
  stop : Nat
  step : Nat
  body : List Nat
  deriving DecidableEq, Repr

end Stmts

/-- All expressions. -/
structure Exprs where
  entries : Arena ExprEntry := {}
  intLits : Arena Exprs.IntLit := {}
  varRefs : Arena Exprs.VarRef := {}
  binaries : Arena Exprs.Binary := {}
  unaries : Arena Exprs.Unary := {}
  parens : Arena Exprs.Paren := {}

namespace Exprs

variable (exprs : Exprs)

def size : Nat := exprs.entries.size

def get (id : Nat) : Except ArenaFault (Option ExprEntry) := exprs.entries.get id

def new (kind : ExprKind) (span : Span) (payload : Nat) : Nat × Exprs :=
  let (id, entries) := exprs.entries.allocate { kind, span, payload }
  (id, { exprs with entries })

def newIntLit (span : Span) (text : Bytes) (value : Int32) : Nat × Exprs :=
  let (payload, intLits) := exprs.intLits.allocate { text, value }
  { exprs with intLits }.new .intLit span payload

def newVarRef (span : Span) (name : Bytes) : Nat × Exprs :=
  let (payload, varRefs) := exprs.varRefs.allocate { name }
  { exprs with varRefs }.new .varRef span payload

def newBinary (form : BinaryForm) (span : Span) (op : Op) (left right : Nat) : Nat × Exprs :=
  let (payload, binaries) := exprs.binaries.allocate { op, left, right }
  { exprs with binaries }.new form.kind span payload

def newUnary (span : Span) (op : Op) (operand : Nat) : Nat × Exprs :=
  let (payload, unaries) := exprs.unaries.allocate { op, operand }
  { exprs with unaries }.new .unary span payload

def newParen (span : Span) (inner : Nat) : Nat × Exprs :=
  let (payload, parens) := exprs.parens.allocate { inner }
  { exprs with parens }.new .paren span payload

/-- Reading has no contents. -/
def newRead (span : Span) : Nat × Exprs := exprs.new .read span 0

/-- Keeps an expression whose operands are kept already. -/
def add (e : Expr) : Nat × Exprs :=
  match e with
  | .absent => (0, exprs)
  | .hollow site kind => exprs.new kind site.span 0
  | .unknown site => exprs.new .unknown site.span 0
  | .intLit site text value => exprs.newIntLit site.span text value
  | .varRef site name => exprs.newVarRef site.span name
  | .binary site form op left right => exprs.newBinary form site.span op left.id right.id
  | .unary site op operand => exprs.newUnary site.span op operand.id
  | .paren site inner => exprs.newParen site.span inner.id
  | .read site => exprs.newRead site.span

/-- The contents of an expression, if it is of a kind that has them in the given arena. -/
def contents {α : Type} (isKind : ExprKind → Bool) (arena : Arena α) (id : Nat) :
    Except ArenaFault (Option (Option α)) := do
  match ← exprs.get id with
  | none => return none
  | some entry => if isKind entry.kind then some <$> arena.get entry.payload else return none

def intLit := exprs.contents (· == .intLit) exprs.intLits

def varRef := exprs.contents (· == .varRef) exprs.varRefs

def binary := exprs.contents (fun kind => (BinaryForm.ofKind? kind).isSome) exprs.binaries

def unary := exprs.contents (· == .unary) exprs.unaries

def paren := exprs.contents (· == .paren) exprs.parens

end Exprs

/-- All statements. -/
structure Stmts where
  entries : Arena StmtEntry := {}
  assigns : Arena Stmts.Assign := {}
  reads : Arena Stmts.Read := {}
  prints : Arena Stmts.Print := {}
  ifs : Arena Stmts.If := {}
  whiles : Arena Stmts.While := {}
  fors : Arena Stmts.For := {}

namespace Stmts

variable (stmts : Stmts)

def size : Nat := stmts.entries.size

def get (id : Nat) : Except ArenaFault (Option StmtEntry) := stmts.entries.get id

def new (kind : StmtKind) (span : Span) (payload : Nat) : Nat × Stmts :=
  let (id, entries) := stmts.entries.allocate { kind, span, payload }
  (id, { stmts with entries })

def newAssign (span : Span) (data : Assign) : Nat × Stmts :=
  let (payload, assigns) := stmts.assigns.allocate data
  { stmts with assigns }.new .assign span payload

def newRead (span : Span) (data : Read) : Nat × Stmts :=
  let (payload, reads) := stmts.reads.allocate data
  { stmts with reads }.new .read span payload

def newPrint (span : Span) (value : Nat) : Nat × Stmts :=
  let (payload, prints) := stmts.prints.allocate { value }
  { stmts with prints }.new .print span payload

def newIf (span : Span) (data : If) : Nat × Stmts :=
  let (payload, ifs) := stmts.ifs.allocate data
  { stmts with ifs }.new .ifElse span payload

def newWhile (span : Span) (data : While) : Nat × Stmts :=
  let (payload, whiles) := stmts.whiles.allocate data
  { stmts with whiles }.new .whileLoop span payload

def newFor (span : Span) (data : For) : Nat × Stmts :=
  let (payload, fors) := stmts.fors.allocate data
  { stmts with fors }.new .forLoop span payload

/-- Keeps a statement whose parts are kept already. -/
def add (s : Stmt) : Nat × Stmts :=
  match s with
  | .absent => (0, stmts)
  | .hollow site kind => stmts.new kind site.span 0
  | .unknown site => stmts.new .unknown site.span 0
  | .assign site name nameSpan value =>
      stmts.newAssign site.span { name, nameSpan, value := value.id }
  | .read site name nameSpan => stmts.newRead site.span { name, nameSpan }
  | .print site value => stmts.newPrint site.span value.id
  | .ifElse site cond thenBody elseBody hasElse =>
      stmts.newIf site.span
        { cond := cond.id, thenBody := thenBody.map Stmt.id, elseBody := elseBody.map Stmt.id
          hasElse }
  | .whileLoop site cond body =>
      stmts.newWhile site.span { cond := cond.id, body := body.map Stmt.id }
  | .forLoop site name nameSpan start stop step body =>
      stmts.newFor site.span
        { name, nameSpan, start := start.id, stop := stop.id, step := step.id
          body := body.map Stmt.id }

/-- The contents of a statement, if it is of the given kind. -/
def contents {α : Type} (kind : StmtKind) (arena : Arena α) (id : Nat) :
    Except ArenaFault (Option (Option α)) := do
  match ← stmts.get id with
  | none => return none
  | some entry => if entry.kind = kind then some <$> arena.get entry.payload else return none

def assign := stmts.contents .assign stmts.assigns

def read := stmts.contents .read stmts.reads

def print := stmts.contents .print stmts.prints

def ifElse := stmts.contents .ifElse stmts.ifs

def whileLoop := stmts.contents .whileLoop stmts.whiles

def forLoop := stmts.contents .forLoop stmts.fors

end Stmts

/-- The nodes of a program. -/
structure Arenas where
  exprs : Exprs := {}
  stmts : Stmts := {}

private def words (parts : List Bytes) : Bytes := Bytes.join " " parts

private def ids (body : List Nat) : Bytes := "[" ++ words (body.map Bytes.dec) ++ "]"

private def shown {α : Type} (found : Except ArenaFault (Option (Option α)))
    (text : α → List Bytes) : List Bytes :=
  match found with
  | .ok (some (some contents)) => [words (text contents)]
  | _ => []

/-- What an expression holds, as text; other numbers show as they are. -/
def Exprs.accessors (exprs : Exprs) (id : Nat) : List Bytes :=
  shown (exprs.intLit id) (fun data => ["IntLit", data.text]) ++
    shown (exprs.varRef id) (fun data => ["VarRef", data.name]) ++
    shown (exprs.binary id) (fun data =>
      ["Binary", data.op.text, Bytes.dec data.left, Bytes.dec data.right]) ++
    shown (exprs.unary id) (fun data => ["Unary", data.op.text, Bytes.dec data.operand]) ++
    shown (exprs.paren id) (fun data => ["Paren", Bytes.dec data.inner])

def Stmts.accessors (stmts : Stmts) (id : Nat) : List Bytes :=
  shown (stmts.assign id) (fun data => ["Assign", data.name, Bytes.dec data.value]) ++
    shown (stmts.read id) (fun data => ["Read", data.name]) ++
    shown (stmts.print id) (fun data => ["Print", Bytes.dec data.value]) ++
    shown (stmts.ifElse id) (fun data =>
      ["If", Bytes.dec data.cond, ids data.thenBody, ids data.elseBody,
        if data.hasElse then "true" else "false"]) ++
    shown (stmts.whileLoop id) (fun data => ["While", Bytes.dec data.cond, ids data.body]) ++
    shown (stmts.forLoop id) (fun data =>
      ["For", data.name, Bytes.dec data.start, Bytes.dec data.stop, Bytes.dec data.step,
        ids data.body])

end Minilang
