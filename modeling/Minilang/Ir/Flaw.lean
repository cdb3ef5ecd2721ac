import Minilang.Machine.Fault
import Minilang.Text.Quoted

/-! What can be wrong with intermediate code, found while reading it or while running it. -/

namespace Minilang.Ir

inductive Flaw where
  | secondMain
  | unsupportedLine (line : Bytes)
  | notByteString (name : Bytes)
  | openString (name : Bytes)
  | truncatedEscape (name : Bytes)
  | badEscape (name text : Bytes)
  | openLastBlock
  | labelTwice (label : Bytes)
  | fallsThrough (label : Bytes)
  | afterTerminator
  | undeclared (callee : Bytes)
  | unknownGlobal (name : Bytes)
  | noMain
  | openMain
  | assignedTwice (name : Bytes) (first : Nat)
  | valueAndLabel (name : Bytes)
  | undefinedValue (name : Bytes)
  | undefinedLabel (label : Bytes)
  | badValue (text : Bytes)
  | badOperand (text : Bytes)
  | badPointer (text : Bytes)
  | expectedAssignment (line : Bytes)
  | unnamedResult (word : Bytes)
  | onlyIntCells
  /-- An instruction whose operands do not have the form its first word asks for. -/
  | badForm (word line : Bytes)
  | unsupportedTest (word : Bytes)
  | badTarget (text : Bytes)
  | noCallee
  | callArity (callee : Bytes)
  | noFormat (text : Bytes)
  | printValue (text : Bytes)
  | unsupportedCallee (callee : Bytes)
  | unsupportedInsn (word : Bytes)
  | usedTooEarly (name : Bytes)
  | notCell (name : Bytes)
  | printFormat (text : Bytes)
  | scanFormat (text : Bytes)
  | fellOff
  deriving DecidableEq, Repr

namespace Flaw

def message : Flaw → Bytes
  | secondMain => "second definition of @main"
  | unsupportedLine line => "unsupported top-level line " ++ Text.quoted line
  | notByteString name => "global @" ++ name ++ " is not a byte string"
  | openString name => "unterminated string in @" ++ name
  | truncatedEscape name => "@" ++ name ++ ": truncated escape"
  | badEscape name text => "@" ++ name ++ ": bad escape " ++ Text.quoted text
  | openLastBlock => "last block of @main has no terminator"
  | labelTwice label => "label " ++ label ++ " defined twice"
  | fallsThrough label => "block before " ++ label ++ " falls through without a terminator"
  | afterTerminator => "instruction after a terminator must start a new block"
  | undeclared callee => "call to undeclared @" ++ callee
  | unknownGlobal name => "unknown global @" ++ name
  | noMain => "no definition of @main"
  | openMain => "unterminated @main body"
  | assignedTwice name first =>
      "%" ++ name ++ " assigned twice (first at ir line " ++ Bytes.dec first ++ ")"
  | valueAndLabel name => "%" ++ name ++ " is both a value and a label"
  | undefinedValue name => "use of undefined value %" ++ name
  | undefinedLabel label => "branch to undefined label %" ++ label
  | badValue text => "bad value " ++ Text.quoted text
  | badOperand text => "bad operand " ++ Text.quoted text
  | badPointer text => "bad pointer operand " ++ Text.quoted text
  | expectedAssignment line => "expected assignment in " ++ Text.quoted line
  | unnamedResult word => word ++ " result must be named"
  | onlyIntCells => "only `alloca i32` is supported"
  | badForm word line => "bad " ++ word ++ " " ++ Text.quoted line
  | unsupportedTest word => "unsupported icmp predicate " ++ Text.quoted word
  | badTarget text => "bad branch target " ++ Text.quoted text
  | noCallee => "call without callee"
  | callArity callee => "@" ++ callee ++ " takes a format and one value"
  | noFormat text => "format argument " ++ Text.quoted text ++ " does not name a global"
  | printValue text => "printf value must be i32, got " ++ Text.quoted text
  | unsupportedCallee callee => "unsupported callee @" ++ callee
  | unsupportedInsn word => "unsupported instruction " ++ Text.quoted word
  | usedTooEarly name => "%" ++ name ++ " used before its definition executed"
  | notCell name => "%" ++ name ++ " is not an alloca'd cell"
  | printFormat text => "unsupported printf format " ++ Text.quoted text
  | scanFormat text => "unsupported scanf format " ++ Text.quoted text
  | fellOff => "execution fell off the end of @main"

/-- The fault of a flaw that is not tied to a line. -/
def fault (flaw : Flaw) : Machine.Fault := { cause := .badProgram flaw.message }

/-- The fault of a flaw found on a line. -/
def faultAt (flaw : Flaw) (line : Nat) : Machine.Fault :=
  { cause := .badProgram flaw.message, place := .irLine line }

end Flaw

end Minilang.Ir
