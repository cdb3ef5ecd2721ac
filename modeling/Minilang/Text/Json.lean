import Minilang.Text.Utf8

/-! JSON documents. Besides what JSON itself demands, the characters `<`, `>`, `&`, U+2028 and
U+2029 are escaped so that a document can stand inside other markup; ill-formed bytes become the
replacement character. -/

namespace Minilang

inductive Json where
  | null
  | flag (value : Bool)
  | number (value : Int)
  | decimal (digits : Bytes)
  | text (value : Bytes)
  | list (items : List Json)
  | fields (members : List (Bytes × Json))

namespace Json

def member (name : Bytes) (value : Json) : Bytes × Json := (name, value)

/-- A member that is left out unless a condition holds. -/
def memberIf (present : Bool) (name : Bytes) (value : Json) : List (Bytes × Json) :=
  if present then [(name, value)] else []

private def escapeRune (rune : Utf8.Rune) : Bytes :=
  if rune.isBad then "�"
  else match rune.code with
    | 0x22 => "\\\""
    | 0x5C => "\\\\"
    | 8 => "\\b"
    | 12 => "\\f"
    | 10 => "\\n"
    | 13 => "\\r"
    | 9 => "\\t"
    | code =>
        if code < 0x20 || code == 0x3C || code == 0x3E || code == 0x26 || code == 0x2028
            || code == 0x2029 then
          "\\u" ++ Bytes.hexPadded 4 code
        else rune.bytes

/-- A string literal. -/
def quote (text : Bytes) : Bytes := "\"" ++ (Utf8.runes text).flatMap escapeRune ++ "\""


mutual

/-- The document on one line. -/
def compact : Json → Bytes
  | null => "null"
  | flag value => if value then "true" else "false"
  | number value => Bytes.int value
  | decimal digits => digits
  | text value => quote value
  | list items => "[" ++ compactItems items ++ "]"
  | fields members => "\x7b" ++ compactMembers members ++ "\x7d"

def compactItems : List Json → Bytes
  | [] => []
  | [item] => compact item
  | item :: rest => compact item ++ "," ++ compactItems rest

def compactMembers : List (Bytes × Json) → Bytes
  | [] => []
  | [(name, value)] => quote name ++ ":" ++ compact value
  | (name, value) :: rest => quote name ++ ":" ++ compact value ++ "," ++ compactMembers rest

end

mutual

/-- The document with two spaces of indentation for each level below `depth`. -/
def indented (depth : Nat) : Json → Bytes
  | null => "null"
  | flag value => if value then "true" else "false"
  | number value => Bytes.int value
  | decimal digits => digits
  | text value => quote value
  | list [] => "[]"
  | list (item :: rest) =>
      "[\n" ++ Bytes.spaces (2 * depth + 2) ++ indented (depth + 1) item ++
        indentedItems depth rest ++ "\n" ++ Bytes.spaces (2 * depth) ++ "]"
  | fields [] => "\x7b\x7d"
  | fields ((name, value) :: rest) =>
      "\x7b\n" ++ Bytes.spaces (2 * depth + 2) ++ quote name ++ ": " ++
        indented (depth + 1) value ++ indentedMembers depth rest ++ "\n" ++
        Bytes.spaces (2 * depth) ++ "\x7d"

def indentedItems (depth : Nat) : List Json → Bytes
  | [] => []
  | item :: rest =>
      ",\n" ++ Bytes.spaces (2 * depth + 2) ++ indented (depth + 1) item ++
        indentedItems depth rest

def indentedMembers (depth : Nat) : List (Bytes × Json) → Bytes
  | [] => []
  | (name, value) :: rest =>
      ",\n" ++ Bytes.spaces (2 * depth + 2) ++ quote name ++ ": " ++ indented (depth + 1) value ++
        indentedMembers depth rest

end

/-- The document as a file: indented and ended by a line feed. -/
def document (value : Json) : Bytes := indented 0 value ++ "\n"

end Json

end Minilang
