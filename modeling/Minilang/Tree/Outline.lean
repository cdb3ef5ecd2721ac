import Minilang.Tree.Basic
import Minilang.Source.File
import Minilang.Text.Json

/-! Outlines of syntax trees, drawn as text or written as JSON. -/

namespace Minilang

/-- A labelled tree; groups such as the body of a loop have no span of their own. -/
inductive Outline where
  | node (label : Bytes) (span : Option Span) (children : List Outline)

namespace Outline

def group (label : Bytes) (children : List Outline) : Outline := node label none children

private def named (kind detail : Bytes) : Bytes := kind ++ " " ++ detail

def ofExpr : Expr → Outline
  | .absent => group "Expr[0]: <nil>" []
  | .hollow site kind => node kind.name (some site.span) []
  | .unknown site => node ExprKind.unknown.name (some site.span) []
  | .intLit site text _ => node (named ExprKind.intLit.name text) (some site.span) []
  | .varRef site name => node (named ExprKind.varRef.name name) (some site.span) []
  | .binary site form op left right =>
      let label := if form.showsOp then named form.kind.name op.text else form.kind.name
      node label (some site.span) [ofExpr left, ofExpr right]
  | .unary site op operand =>
      node (named ExprKind.unary.name op.text) (some site.span) [ofExpr operand]
  | .paren site inner => node ExprKind.paren.name (some site.span) [ofExpr inner]
  | .read site => node ExprKind.read.name (some site.span) []

mutual

def ofStmt : Stmt → Outline
  | .absent => group "Stmt[0]: <nil>" []
  | .hollow site kind => node kind.name (some site.span) []
  | .unknown site => node StmtKind.unknown.name (some site.span) []
  | .assign site name _ value =>
      node (named StmtKind.assign.name name) (some site.span) [ofExpr value]
  | .read site name _ => node (named StmtKind.read.name name) (some site.span) []
  | .print site value => node StmtKind.print.name (some site.span) [ofExpr value]
  | .ifElse site cond thenBody elseBody hasElse =>
      node StmtKind.ifElse.name (some site.span)
        ([group "Cond" [ofExpr cond], group "Then" (ofStmts thenBody)] ++
          if hasElse then [group "Else" (ofStmts elseBody)] else [])
  | .whileLoop site cond body =>
      node StmtKind.whileLoop.name (some site.span)
        [group "Cond" [ofExpr cond], group "Body" (ofStmts body)]
  | .forLoop site name _ start stop step body =>
      node (named StmtKind.forLoop.name name) (some site.span)
        ([group "Start" [ofExpr start], group "Stop" [ofExpr stop]] ++
          (if step.isAbsent then [] else [group "Step" [ofExpr step]]) ++
          [group "Body" (ofStmts body)])

def ofStmts : List Stmt → List Outline
  | [] => []
  | s :: rest => ofStmt s :: ofStmts rest

end

/-- A span as line and column of both ends, or as plain offsets where no file is known. -/
def spanText (file : Option SourceFile) (span : Span) : Bytes :=
  match file with
  | none => "span(" ++ Bytes.dec span.start.toNat ++ "-" ++ Bytes.dec span.stop.toNat ++ ")"
  | some file =>
      let pair := fun (p : LineCol) => Bytes.dec p.line.toNat ++ ":" ++ Bytes.dec p.column.toNat
      pair (file.position span.start) ++ "-" ++ pair (file.position span.stop)

mutual

/-- The children of a node, one line each, joined by box-drawing branches. -/
def draw (file : Option SourceFile) (margin : Bytes) : Outline → List Bytes
  | node _ _ children => drawAll file margin children

def drawAll (file : Option SourceFile) (margin : Bytes) : List Outline → List Bytes
  | [] => []
  | child :: rest =>
      let (branch, next) : Bytes × Bytes :=
        if rest.isEmpty then ("└─ ", "   ") else ("├─ ", "│  ")
      let own :=
        match child with
        | node label span _ =>
            let place : Bytes :=
              match span with
              | some span => " (span: " ++ spanText file span ++ ")"
              | none => []
            margin ++ branch ++ label ++ place ++ "\n"
      own :: (draw file (margin ++ next) child ++ drawAll file margin rest)

end

mutual

def json : Outline → Json
  | node label span children =>
      let below := jsonAll children
      let childField := Json.memberIf (!below.isEmpty) "children" (.list below)
      match span with
      | some span =>
          let (type, text) := (Bytes.cut? 32 label).getD (label, [])
          .fields ([Json.member "type" (.text type)]
            ++ Json.memberIf (!text.isEmpty) "text" (.text text)
            ++ [Json.member "start" (.number span.start.toNat),
              Json.member "end" (.number span.stop.toNat)] ++ childField)
      | none =>
          .fields ([Json.member "type" (.text "Group")]
            ++ Json.memberIf (!label.isEmpty) "kind" (.text label)
            ++ [Json.member "start" (.number 0), Json.member "end" (.number 0)] ++ childField)

def jsonAll : List Outline → List Json
  | [] => []
  | child :: rest => json child :: jsonAll rest

end

end Outline

namespace Program

/-- The program as an indented tree, one node a line. There is no outline of a tree that lacks
contents. -/
def outline? (program : Program) (file : Option SourceFile) : Option Bytes :=
  if program.isFilled then
    some ("Program (span: " ++ Outline.spanText file program.span ++ ")\n" ++
      (Outline.drawAll file [] (Outline.ofStmts program.stmts)).flatten)
  else none

/-- The same tree as JSON. -/
def document? (program : Program) : Option Bytes :=
  if program.isFilled then
    let below := Outline.jsonAll (Outline.ofStmts program.stmts)
    some (Json.document (.fields ([Json.member "type" (.text "Program"),
        Json.member "start" (.number program.span.start.toNat),
        Json.member "end" (.number program.span.stop.toNat)]
      ++ Json.memberIf (!below.isEmpty) "children" (.list below))))
  else none

end Program

end Minilang
