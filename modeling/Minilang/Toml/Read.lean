import Minilang.Toml.Value

/-! The lines of a TOML file: headers of tables and of elements, and assignments of one value to a
key. A bare key consists of letters, digits, underscores and dashes, dots separate the parts of a
key, white space counts for nothing around them, a comment runs to the end of its line, and an array
may run over several lines (`line?_table`, `line?_assign`, `value?_text`, `value?_list`; for a whole
file `linesLoop_reads`). A file is UTF-8 without control characters, and a line that cannot be read
makes all of it invalid (`Reads.refused`). -/

namespace Minilang.Toml

inductive Line where
  | table (key : Key)
  /-- Opens another table of an array of tables. -/
  | element (key : Key)
  | assign (key : Key) (value : Value)
  deriving Repr

def isBlank (b : UInt8) : Bool := b == 32 || b == 9

def isBareKey (b : UInt8) : Bool :=
  Bytes.isLetter b || Bytes.isDigit b || b == 95 || b == 45

def skipBlanks (text : Bytes) : Bytes := text.dropWhile isBlank

def skipComment (text : Bytes) : Bytes := text.dropWhile (!isLineEnd ·)

/-- One part of a key. -/
def keyPart? (text : Bytes) : Option (Bytes × Bytes) :=
  match text with
  | 34 :: _ | 39 :: _ => quotedText? text
  | _ =>
      let name := text.takeWhile isBareKey
      if name.isEmpty then none else some (name, text.drop name.length)

def keyLoop : Nat → Bytes → Key → Option (Key × Bytes)
  | 0, _, _ => none
  | fuel + 1, text, done => do
      let (part, rest) ← keyPart? (skipBlanks text)
      match skipBlanks rest with
      | 46 :: rest => keyLoop fuel rest (part :: done)
      | rest => return ((part :: done).reverse, rest)

/-- A dotted key, and what follows the white space behind it. -/
def key? (text : Bytes) : Option (Key × Bytes) := keyLoop (text.length + 1) text []

private def isTimePart (b : UInt8) : Bool :=
  Bytes.isDigit b || [45, 58, 84, 116, 32, 46, 90, 122, 43].contains b

private def isNumberPart (b : UInt8) : Bool :=
  Bytes.isDigit b || Bytes.isLetter b || [95, 43, 45, 46].contains b

private def trimSpaces (text : Bytes) : Bytes :=
  (text.reverse.dropWhile (· == 32)).reverse

/-- A value that is neither a text nor a collection. -/
private def simple? (text : Bytes) : Option (Value × Bytes) :=
  match Bytes.after? "true" text, Bytes.after? "false" text with
  | some rest, _ => some (.boolean true, rest)
  | _, some rest => some (.boolean false, rest)
  | none, none =>
      match (text.dropWhile Bytes.isDigit).head?, text.head?.map Bytes.isDigit with
      | some 45, some true | some 58, some true =>
          let token := text.takeWhile isTimePart
          if isTime (trimSpaces token) then some (.time, text.drop token.length) else none
      | _, _ =>
          let token := text.takeWhile isNumberPart
          let rest := text.drop token.length
          match integer? token with
          | some n => some (.integer n, rest)
          | none => if isFloat token then some (.float, rest) else none

/-- Skips white space, line ends and comments. -/
def skipLines : Nat → Bytes → Bytes
  | 0, text => text
  | fuel + 1, text =>
      match text.dropWhile fun b => isBlank b || isLineEnd b with
      | 35 :: rest => skipLines fuel (skipComment rest)
      | rest => rest

def skipAll (text : Bytes) : Bytes := skipLines (text.length + 1) text

mutual

/-- A value, and what follows it. -/
def value? : Nat → Bytes → Option (Value × Bytes)
  | 0, _ => none
  | fuel + 1, text =>
      match skipBlanks text with
      | 91 :: rest => do
          let (items, rest) ← items? fuel (skipAll rest) []
          return (.array items, rest)
      | 123 :: rest =>
          match skipBlanks rest with
          | 125 :: rest => some (.inline [], rest)
          | rest => do
              let (fields, rest) ← fields? fuel rest []
              return (.inline fields, rest)
      | 34 :: rest => do
          let (content, rest) ← text? (34 :: rest)
          return (.text content, rest)
      | 39 :: rest => do
          let (content, rest) ← text? (39 :: rest)
          return (.text content, rest)
      | rest => simple? rest

/-- The items of an array up to its end; a comma may follow the last. -/
def items? : Nat → Bytes → List Value → Option (List Value × Bytes)
  | 0, _, _ => none
  | _ + 1, 93 :: rest, done => some (done.reverse, rest)
  | fuel + 1, text, done => do
      let (value, rest) ← value? fuel text
      match skipAll rest with
      | 44 :: rest => items? fuel (skipAll rest) (value :: done)
      | 93 :: rest => return ((value :: done).reverse, rest)
      | _ => none

/-- The fields of a table on one line. -/
def fields? : Nat → Bytes → List (Key × Value) → Option (List (Key × Value) × Bytes)
  | 0, _, _ => none
  | fuel + 1, text, done => do
      let (key, rest) ← key? text
      let rest ← Bytes.after? "=" rest
      let (value, rest) ← value? fuel rest
      match skipBlanks rest with
      | 44 :: rest => fields? fuel rest ((key, value) :: done)
      | 125 :: rest => return (((key, value) :: done).reverse, rest)
      | _ => none

end

/-- What follows the end of a line, which may hold a comment. -/
def lineEnd? (text : Bytes) : Option Bytes :=
  match skipBlanks text with
  | [] => some []
  | 35 :: rest => some (skipComment rest)
  | b :: rest => if isLineEnd b then some rest else none

def line? (text : Bytes) : Option (Line × Bytes) :=
  match text with
  | 91 :: 91 :: rest => do
      let (key, rest) ← key? rest
      let rest ← Bytes.after? "]]" rest
      return (.element key, rest)
  | 91 :: rest => do
      let (key, rest) ← key? rest
      let rest ← Bytes.after? "]" rest
      return (.table key, rest)
  | _ => do
      let (key, rest) ← key? text
      let rest ← Bytes.after? "=" rest
      let (value, rest) ← value? (2 * rest.length + 2) rest
      return (.assign key value, rest)

def linesLoop : Nat → Bytes → List Line → Option (List Line)
  | 0, _, _ => none
  | fuel + 1, text, done =>
      match skipAll text with
      | [] => some done.reverse
      | text => do
          let (line, rest) ← line? text
          let rest ← lineEnd? rest
          linesLoop fuel rest (line :: done)

/-- Control characters are refused, and so is a carriage return without a line feed. -/
def isClean : Bytes → Bool
  | [] => true
  | 13 :: 10 :: rest => isClean rest
  | b :: rest => (b == 9 || b == 10 || (32 ≤ b && b != 127)) && isClean rest

def withoutMark (text : Bytes) : Bytes :=
  match text with
  | 0xEF :: 0xBB :: 0xBF :: rest => rest
  | 0xFF :: 0xFE :: rest => rest
  | 0xFE :: 0xFF :: rest => rest
  | _ => text

/-- The lines of a file, when it follows the grammar. -/
def lines? (text : Bytes) : Option (List Line) :=
  let text := withoutMark text
  if isClean text && Utf8.isValid text then linesLoop (text.length + 1) text [] else none

end Minilang.Toml
