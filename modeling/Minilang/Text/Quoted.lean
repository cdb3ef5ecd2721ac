import Minilang.Text.Printable
import Minilang.Text.Utf8

/-! Quoted text for messages: printable characters stand for themselves, everything else is an
escape, and ill-formed bytes show as `\x` with two digits. -/

namespace Minilang.Text

def quotedRune (rune : Utf8.Rune) : Bytes :=
  if rune.isBad then "\\x" ++ Bytes.hex rune.bytes
  else if rune.code == 0x22 then "\\\""
  else if rune.code == 0x5C then "\\\\"
  else if isPrintable rune.code then rune.bytes
  else match rune.code with
    | 7 => "\\a"
    | 8 => "\\b"
    | 12 => "\\f"
    | 10 => "\\n"
    | 13 => "\\r"
    | 9 => "\\t"
    | 11 => "\\v"
    | code =>
        if code < 0x20 || code == 0x7F then "\\x" ++ Bytes.hexPadded 2 code
        else if code < 0x10000 then "\\u" ++ Bytes.hexPadded 4 code
        else "\\U" ++ Bytes.hexPadded 8 code

/-- The text between double quotes, in printable characters only. -/
def quoted (text : Bytes) : Bytes := "\"" ++ (Utf8.runes text).flatMap quotedRune ++ "\""

end Minilang.Text
