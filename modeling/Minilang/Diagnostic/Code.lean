import Minilang.Bytes

/-! Severities and stable numeric codes of diagnostics. -/

namespace Minilang

structure Severity where
  level : UInt8
  deriving DecidableEq, Hashable, Repr

namespace Severity

def info : Severity := ⟨0⟩

def warning : Severity := ⟨1⟩

def error : Severity := ⟨2⟩

def name (severity : Severity) : Bytes :=
  match severity.level.toNat with
  | 0 => "INFO"
  | 1 => "WARNING"
  | 2 => "ERROR"
  | level => "Severity(" ++ Bytes.dec level ++ ")"

/-- Whether generated code has to be discarded. -/
def isBlocking (severity : Severity) : Bool := error.level ≤ severity.level

end Severity

structure Code where
  number : UInt16
  deriving DecidableEq, Hashable, Repr

namespace Code

def unknownChar : Code := ⟨1001⟩

def badNumber : Code := ⟨1002⟩

def unexpectedToken : Code := ⟨2001⟩

def expectSemicolon : Code := ⟨2002⟩

def expectIdentifier : Code := ⟨2003⟩

def expectExpression : Code := ⟨2004⟩

def expectAssign : Code := ⟨2005⟩

def unclosedParen : Code := ⟨2006⟩

def unclosedBrace : Code := ⟨2007⟩

def expectBlock : Code := ⟨2008⟩

def forMissingTo : Code := ⟨2009⟩

def undefinedVariable : Code := ⟨3001⟩

def codeTooLarge : Code := ⟨4001⟩

/-- A three-letter area and four digits; numbers outside every area share `E0000`. -/
def id (code : Code) : Bytes :=
  let n := code.number.toNat
  let digits := Bytes.decPadded 4 n
  match n / 1000 with
  | 1 => "LEX" ++ digits
  | 2 => "SYN" ++ digits
  | 3 => "SEM" ++ digits
  | 4 => "GEN" ++ digits
  | 5 => "IO" ++ digits
  | _ => "E0000"

def title (code : Code) : Bytes :=
  match code.number.toNat with
  | 1000 => "Lexical information"
  | 1001 => "Unknown character"
  | 1002 => "Integer literal out of range"
  | 2000 => "Syntax information"
  | 2001 => "Unexpected token"
  | 2002 => "Expected ';'"
  | 2003 => "Expected identifier"
  | 2004 => "Expected expression"
  | 2005 => "Expected '='"
  | 2006 => "Unclosed parenthesis"
  | 2007 => "Unclosed brace"
  | 2008 => "Expected block"
  | 2009 => "Expected 'to' in for loop"
  | 3000 => "Semantic information"
  | 3001 => "Undefined variable"
  | 4000 => "Code generation information"
  | 4001 => "Generated code too large"
  | 5001 => "Failed to load file"
  | _ => "Unknown error"

/-- The identifier in brackets, then the title. -/
def text (code : Code) : Bytes := "[" ++ code.id ++ "]: " ++ code.title

end Code

end Minilang
