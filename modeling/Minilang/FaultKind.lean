import Minilang.ClassFile.Class
import Minilang.Compile

/-! Kinds of faults, for callers that act on them without reading messages. -/

namespace Minilang

inductive FaultKind where
  /-- Code that breaks the typing rules of its machine. -/
  | verify
  /-- A source that cannot be read. -/
  | load
  | limit (limit : ClassFile.Limit)
  /-- A class file that ends too early. -/
  | truncated
  | cancelled
  /-- A step that no caller should take. -/
  | misuse
  /-- A tree that lacks its contents. -/
  | brokenTree
  | other
  deriving DecidableEq, Repr

def ClassFile.AnalysisFault.kind (fault : ClassFile.AnalysisFault) : FaultKind :=
  if fault.isVerify then .verify else .other

def ClassFile.WriteFault.kind (fault : ClassFile.WriteFault) : FaultKind :=
  match fault, fault.limit? with
  | .analysis _ inner, _ => inner.kind
  | _, some limit => .limit limit
  | _, none => .other

def ClassFile.ParseFault.kind (fault : ClassFile.ParseFault) : FaultKind :=
  if fault.isTruncated then .truncated else .other

def LoweringFault.kind (fault : LoweringFault) : FaultKind :=
  if (fault.message? .llvm).isSome then .misuse else .brokenTree

def EmitFault.kind : EmitFault → FaultKind
  | .lowering fault => fault.kind
  | .assembly _ => .misuse
  | .write _ fault => fault.kind

def CompileFault.kind : CompileFault → FaultKind
  | .load .. => .load
  | .cancelled => .cancelled
  | .lowering _ fault => fault.kind
  | .emit fault => fault.kind
  | _ => .other

/-- Whether code generation does not give the fault back but panics. -/
def CompileFault.isPanic (fault : CompileFault) : Bool :=
  fault.kind = .misuse || fault.kind = .brokenTree

end Minilang
