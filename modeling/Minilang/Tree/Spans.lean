import Minilang.Tree.Walk

/-! A check of node spans: each lies in its file, is not empty, and an expression's span lies
within its parent's. -/

namespace Minilang

inductive SpanFault where
  | otherFile (what : Bytes) (got want : UInt32)
  | empty (what : Bytes) (span : Span)
  | beyond (what : Bytes) (stop size : UInt32)
  | escapes (kind : ExprKind) (span parent : Span)
  /-- The tree lacks contents that the check needs. -/
  | hollow
  deriving DecidableEq, Repr

namespace SpanFault

def message : SpanFault → Bytes
  | otherFile what got want =>
      what ++ " span points to different file id: got=" ++ Bytes.dec got.toNat ++ " want=" ++
        Bytes.dec want.toNat
  | empty what span => "empty " ++ what ++ " span: " ++ span.text
  | beyond what stop size =>
      what ++ " span end beyond content: " ++ Bytes.dec stop.toNat ++ " > " ++ Bytes.dec size.toNat
  | escapes kind span parent =>
      "expr " ++ kind.name ++ " span " ++ span.text ++ " escapes parent " ++ parent.text
  | hollow => []

end SpanFault

/-- The file that spans are checked against. -/
structure SpanBounds where
  file : UInt32
  size : UInt32

def SpanBounds.check (bounds : SpanBounds) (what : Bytes) (span : Span) : Except SpanFault Unit :=
  if span.file != bounds.file then .error (.otherFile what span.file bounds.file)
  else if span.stop ≤ span.start then .error (.empty what span)
  else if bounds.size < span.stop then .error (.beyond what span.stop bounds.size)
  else .ok ()

def Expr.checkSpans (bounds : SpanBounds) (parent : Span) : Expr → Except SpanFault Unit
  | .absent => .ok ()
  | e => do
      bounds.check ("expr " ++ e.kind.name) e.span
      if !parent.contains e.span then throw (.escapes e.kind e.span parent)
      match e with
      | .binary site _ _ left right =>
          left.checkSpans bounds site.span
          right.checkSpans bounds site.span
      | .unary site _ operand => operand.checkSpans bounds site.span
      | .paren site inner => inner.checkSpans bounds site.span
      | .hollow .. => if e.isLinked then pure () else throw .hollow
      | _ => pure ()

mutual

def Stmt.checkSpans (bounds : SpanBounds) : Stmt → Except SpanFault Unit
  | .absent => .ok ()
  | s => do
      bounds.check ("stmt " ++ s.kind.name) s.span
      match s with
      | .assign site _ _ value | .print site value => value.checkSpans bounds site.span
      | .ifElse site cond thenBody elseBody _ =>
          cond.checkSpans bounds site.span
          Stmt.checkSpansIn bounds thenBody
          Stmt.checkSpansIn bounds elseBody
      | .whileLoop site cond body =>
          cond.checkSpans bounds site.span
          Stmt.checkSpansIn bounds body
      | .forLoop site _ _ start stop step body =>
          start.checkSpans bounds site.span
          stop.checkSpans bounds site.span
          step.checkSpans bounds site.span
          Stmt.checkSpansIn bounds body
      | .hollow _ kind => if kind == .read then pure () else throw .hollow
      | _ => pure ()

def Stmt.checkSpansIn (bounds : SpanBounds) : List Stmt → Except SpanFault Unit
  | [] => .ok ()
  | s :: rest => do
      s.checkSpans bounds
      Stmt.checkSpansIn bounds rest

end

/-- The first violation in source order, a statement before what it holds. -/
def Program.checkSpans (program : Program) (bounds : SpanBounds) : Except SpanFault Unit :=
  Stmt.checkSpansIn bounds program.stmts

end Minilang
