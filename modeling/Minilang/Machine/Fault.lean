import Minilang.Bytes

/-! Why the run of an artefact fails. Every fault has a stable number, the place of the failing
instruction and, when the artefact carries one, the source line. -/

namespace Minilang.Machine

inductive Cause where
  /-- The machine's own words for a division by zero. -/
  | divByZero (text : Bytes)
  | inputExhausted
  | inputMismatch (text : Bytes)
  /-- The artefact is outside the supported subset. -/
  | badProgram (text : Bytes)
  | stepLimit (limit : Nat)
  | output (text : Bytes)
  deriving DecidableEq, Repr

namespace Cause

def number : Cause → Nat
  | divByZero _ => 2001
  | inputExhausted => 2002
  | inputMismatch _ => 2003
  | badProgram _ => 2004
  | stepLimit _ => 2005
  | output _ => 2006

def message : Cause → Bytes
  | divByZero text | inputMismatch text | badProgram text => text
  | inputExhausted => "input exhausted"
  | stepLimit limit => "step limit " ++ Bytes.dec limit ++ " exceeded"
  | output text => "write failed: " ++ text

end Cause

inductive Place where
  | nowhere
  | pc (offset : Nat)
  | irLine (number : Nat)
  deriving DecidableEq, Repr

namespace Place

def text : Place → Bytes
  | nowhere => []
  | pc offset => "pc " ++ Bytes.dec offset
  | irLine number => "ir line " ++ Bytes.dec number

end Place

structure Fault where
  cause : Cause
  place : Place := .nowhere
  /-- The source line, zero when unknown. -/
  line : Nat := 0
  deriving DecidableEq, Repr

namespace Fault

/-- The stable code of a fault number. -/
def codeText (number : Int) : Bytes := "VM" ++ Bytes.int number

def code (fault : Fault) : Bytes := codeText fault.cause.number

def message (fault : Fault) : Bytes :=
  "panic " ++ fault.code ++ ": " ++ fault.cause.message ++
    Bytes.onlyIf (fault.line != 0) (" (line " ++ Bytes.dec fault.line ++ ")") ++
    Bytes.onlyIf (fault.place != .nowhere) (" at " ++ fault.place.text)

/-- Whether the program asked for input that was not there. -/
def isEndOfInput (fault : Fault) : Bool := fault.cause == .inputExhausted

end Fault

end Minilang.Machine
