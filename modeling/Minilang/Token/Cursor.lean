import Minilang.Source.File
import Minilang.Text.Utf8

/-! A reading position in a source file. `rest` is always the content behind `offset`. -/

namespace Minilang

structure Cursor where
  file : UInt32
  content : Bytes
  size : UInt32
  offset : UInt32
  rest : Bytes

namespace Cursor

def ofFile (file : SourceFile) : Cursor :=
  { file := file.id, content := file.content, size := file.size.toUInt32, offset := 0
    rest := file.content }

def atEnd (cursor : Cursor) : Bool := cursor.size ≤ cursor.offset

/-- The next byte, zero at the end. -/
def peek (cursor : Cursor) : UInt8 := cursor.rest.headD 0

/-- The byte `n` places ahead, with offsets that wrap around; zero behind the end. -/
def peekAt (cursor : Cursor) (n : UInt32) : UInt8 :=
  let at_ := cursor.offset + n
  if cursor.size ≤ at_ then 0 else cursor.content.getD at_.toNat 0

/-- Moves over the given number of bytes. -/
def skip (cursor : Cursor) (count : Nat) : Cursor :=
  { cursor with offset := cursor.offset + count.toUInt32, rest := cursor.rest.drop count }

/-- Takes one byte, zero at the end. -/
def bump (cursor : Cursor) : UInt8 × Cursor :=
  match cursor.rest with
  | [] => (0, cursor)
  | b :: _ => (b, cursor.skip 1)

/-- Moves over one code point, or one byte where it is ill-formed. -/
def bumpRune (cursor : Cursor) : Cursor :=
  match Utf8.next? cursor.rest with
  | none => cursor
  | some (rune, _) => cursor.skip rune.bytes.length

/-- The bytes ahead that satisfy a test, and the position behind them. -/
def takeWhile (cursor : Cursor) (test : UInt8 → Bool) : Bytes × Cursor :=
  let taken := cursor.rest.takeWhile test
  (taken, cursor.skip taken.length)

/-- Moves over `text` if it comes next. -/
def accept? (cursor : Cursor) (text : Bytes) : Option Cursor :=
  if cursor.size < cursor.offset + text.length.toUInt32 then none
  else if text.isPrefixOf cursor.rest then some (cursor.skip text.length)
  else none

/-- Everything since an earlier offset. -/
def spanFrom (cursor : Cursor) (start : UInt32) : Span := ⟨cursor.file, start, cursor.offset⟩

/-- Back to an earlier offset. -/
def reset (cursor : Cursor) (offset : UInt32) : Cursor :=
  { cursor with offset, rest := cursor.content.drop offset.toNat }

end Cursor

end Minilang
