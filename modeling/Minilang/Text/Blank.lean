import Minilang.Text.Utf8

/-! White space: the ASCII blanks and the separators of the Unicode white-space property. -/

namespace Minilang.Text

def isBlank (code : Nat) : Bool :=
  (9 ≤ code && code ≤ 13) || code == 0x20 || code == 0x85 || code == 0xA0 || code == 0x1680
    || (0x2000 ≤ code && code ≤ 0x200A) || code == 0x2028 || code == 0x2029 || code == 0x202F
    || code == 0x205F || code == 0x3000

def join (runes : List Utf8.Rune) : Bytes := runes.flatMap Utf8.Rune.bytes

/-- The text without white space at its start. -/
def trimStart (text : Bytes) : Bytes :=
  match step : Utf8.next? text with
  | none => []
  | some (rune, rest) =>
      have := Utf8.next?_shorter step
      if isBlank rune.code then trimStart rest else text
termination_by text.length

private def firstWordLoop (text : Bytes) (word : Bytes) : Bytes × Bytes :=
  match step : Utf8.next? text with
  | none => (word.reverse, [])
  | some (rune, rest) =>
      have := Utf8.next?_shorter step
      if isBlank rune.code then (word.reverse, text)
      else firstWordLoop rest (rune.bytes.reverse ++ word)
termination_by text.length

/-- The text up to its first white space, and the rest from there. -/
def firstWord (text : Bytes) : Bytes × Bytes := firstWordLoop text []

/-- The text without white space at its ends. -/
def trim (text : Bytes) : Bytes :=
  join (((Utf8.runes (trimStart text)).reverse.dropWhile fun rune => isBlank rune.code).reverse)

def wordsLoop : List Utf8.Rune → Bytes → List Bytes → List Bytes
  | [], word, done => if word.isEmpty then done.reverse else (word.reverse :: done).reverse
  | rune :: rest, word, done =>
      if isBlank rune.code then
        if word.isEmpty then wordsLoop rest [] done else wordsLoop rest [] (word.reverse :: done)
      else wordsLoop rest (rune.bytes.reverse ++ word) done

/-- The maximal runs without white space. -/
def words (text : Bytes) : List Bytes := wordsLoop (Utf8.runes text) [] []

end Minilang.Text
