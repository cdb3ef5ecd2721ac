import Minilang.Tree.Basic
import Minilang.Text.Quoted

/-! The two targets of the compiler, and what can go wrong in generating code for a tree built by
hand. -/

namespace Minilang

inductive Target where
  | llvm
  | jvm
  deriving DecidableEq, Repr

namespace Target

def name : Target → Bytes
  | llvm => "llvm"
  | jvm => "jvm"

/-- Extension of the artefact. -/
def extension : Target → Bytes
  | llvm => ".ll"
  | jvm => ".class"

/-- The targets are numbered from one. -/
def ofNumber? : Nat → Option Target
  | 1 => some llvm
  | 2 => some jvm
  | _ => none

def number : Target → Nat
  | llvm => 1
  | jvm => 2

/-- The name of a numbered target. -/
def nameOf (number : Nat) : Bytes := ((ofNumber? number).map name).getD "unknown"

/-- The extension for a numbered target; unknown ones have that of text. -/
def extensionOf (number : Nat) : Bytes := ((ofNumber? number).getD llvm).extension

/-- The target of a configured name. -/
def parse (text : Bytes) : Except Bytes Target :=
  if text = ("llvm" : Bytes) || text = ("ir" : Bytes) then .ok llvm
  else if text = ("jvm" : Bytes) || text = ("class" : Bytes) then .ok jvm
  else .error ("unknown target " ++ Text.quoted text ++ " (expected llvm|jvm)")

end Target

/-- Why a tree has no code. The parser builds none of these trees. -/
inductive LoweringFault where
  /-- The tree lacks a node or its contents. -/
  | brokenTree
  | noOpcode (op : Op)
  | unknownUnary (op : Op)
  | unknownExpr
  | unknownStmt
  | missingVariable (name : Bytes)
  /-- A generator serves one program only. -/
  | reused
  | slotRange (slot : Nat)
  deriving DecidableEq, Repr

namespace LoweringFault

/-- The message for a target; broken trees have none. -/
def message? (target : Target) : LoweringFault → Option Bytes
  | brokenTree => none
  | noOpcode op => some (target.name ++ ": no opcode for operator " ++ Text.quoted op.text)
  | unknownUnary op => some (target.name ++ ": unknown unary operator " ++ Text.quoted op.text)
  | unknownExpr => some (target.name ++ ": unknown expression kind " ++ ExprKind.unknown.name)
  | unknownStmt => some (target.name ++ ": unknown statement kind " ++ StmtKind.unknown.name)
  | missingVariable name =>
      some (target.name ++ ": variable " ++ Text.quoted name ++ " missing from the pre-pass")
  | reused => some (target.name ++ ": Emitter reused")
  | slotRange slot => some ("classfile: local slot " ++ Bytes.dec slot ++ " out of range")

end LoweringFault

end Minilang
