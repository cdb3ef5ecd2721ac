import Minilang.Source.Span
import Minilang.Text.Composed
import Minilang.Digest
import Minilang.Path

/-! Source files and the collection of files that spans refer to. Loading strips a byte order
mark, turns CRLF into LF and composes characters, and records which of these it did. -/

namespace Minilang

/-- What loading did to the raw bytes. -/
structure FileFlags where
  isVirtual : Bool := false
  hadMark : Bool := false
  foldedLines : Bool := false
  composed : Bool := false
  deriving DecidableEq, Repr

namespace FileFlags

/-- The low four bits of a byte, in the order of the fields. -/
def ofBits (bits : Nat) : FileFlags :=
  { isVirtual := bits.testBit 0, hadMark := bits.testBit 1, foldedLines := bits.testBit 2
    composed := bits.testBit 3 }

def names (flags : FileFlags) : List Bytes :=
  let named : List (Bool × Bytes) :=
    [(flags.isVirtual, "virtual"), (flags.hadMark, "bom"), (flags.foldedLines, "crlf"),
      (flags.composed, "nfc")]
  (named.filter Prod.fst).map Prod.snd

end FileFlags

/-- A position as people count it: both numbers start at one, columns are bytes. -/
structure LineCol where
  line : UInt32
  column : UInt32
  deriving DecidableEq, Repr

structure SourceFile where
  id : UInt32
  path : Bytes
  content : Bytes
  size : Nat
  flags : FileFlags
  /-- Offset of every line start; the first is zero. -/
  starts : Array UInt32
  deriving Repr

namespace SourceFile

def startsLoop : Bytes → UInt32 → Array UInt32 → Array UInt32
  | [], _, starts => starts
  | b :: rest, offset, starts =>
      startsLoop rest (offset + 1) (if b = 10 then starts.push (offset + 1) else starts)

/-- Line starts of a content: zero, and the offset behind every line feed. -/
def lineStarts (content : Bytes) : Array UInt32 := startsLoop content 0 #[0]

def make (id : UInt32) (path content : Bytes) (flags : FileFlags) : SourceFile :=
  { id, path := Path.clean path, content, size := content.length, flags
    starts := lineStarts content }

def hash (file : SourceFile) : Bytes := Digest.sha256 file.content

/-- The number of lines; a final line feed opens an empty last line. -/
def lineCount (file : SourceFile) : Nat := file.starts.size

/-- Line `n`, counted from one, without its line feed; nothing out of range. -/
def line (file : SourceFile) (n : Nat) : Bytes :=
  if n = 0 || file.lineCount < n then []
  else
    let start := (file.starts.getD (n - 1) 0).toNat
    let stop := if n < file.lineCount then (file.starts.getD n 0).toNat - 1 else file.size
    (file.content.drop start).take (stop - start)

/-- The last index below `high` whose start is not behind the offset. -/
def lineIndex (starts : Array UInt32) (offset : UInt32) : Nat → Nat → Nat → Nat
  | 0, low, _ => low
  | fuel + 1, low, high =>
      if low + 1 < high then
        let middle := (low + high) / 2
        if starts.getD middle 0 ≤ offset then lineIndex starts offset fuel middle high
        else lineIndex starts offset fuel low middle
      else low

/-- The line and column of an offset; a line feed belongs to the line it ends. -/
def position (file : SourceFile) (offset : UInt32) : LineCol :=
  let index := lineIndex file.starts offset 64 0 file.starts.size
  { line := (index + 1).toUInt32, column := offset - file.starts.getD index 0 + 1 }

end SourceFile

private def foldLoop : Bytes → Bytes → Bytes
  | [], done => done.reverse
  | 13 :: 10 :: rest, done => foldLoop rest (10 :: done)
  | b :: rest, done => foldLoop rest (b :: done)

/-- Replaces every CRLF by LF; a lone CR stays. -/
def foldLines (content : Bytes) : Bytes := foldLoop content []

/-- Brings raw bytes into the form the compiler reads. -/
def normalize (raw : Bytes) : Bytes × FileFlags :=
  let (content, hadMark) :=
    match raw with
    | 0xEF :: 0xBB :: 0xBF :: rest => (rest, true)
    | _ => (raw, false)
  let folded := foldLines content
  let composed := Text.Composed.compose folded
  (composed,
    { hadMark, foldedLines := folded.length != content.length, composed := composed != folded })

/-- The files of one compilation; spans name them by position. -/
structure SourceSet where
  files : Array SourceFile := #[]

namespace SourceSet

def size (set : SourceSet) : Nat := set.files.size

/-- Registers content as it is. A path added again gets a new file. -/
def add (set : SourceSet) (path content : Bytes) (flags : FileFlags) : SourceSet × SourceFile :=
  let file := SourceFile.make set.files.size.toUInt32 path content flags
  (⟨set.files.push file⟩, file)

def addVirtual (set : SourceSet) (path content : Bytes) : SourceSet × SourceFile :=
  set.add path content { isVirtual := true }

/-- Registers normalised content that came from a stream. -/
def addStream (set : SourceSet) (path raw : Bytes) : SourceSet × SourceFile :=
  let (content, flags) := normalize raw
  set.add path content { flags with isVirtual := true }

/-- Registers normalised content that came from a file. -/
def addLoaded (set : SourceSet) (path raw : Bytes) : SourceSet × SourceFile :=
  let (content, flags) := normalize raw
  set.add path content flags

def get? (set : SourceSet) (id : UInt32) : Option SourceFile := set.files[id.toNat]?

/-- Both ends of a span as positions, when the span's file is known. -/
def resolve? (set : SourceSet) (span : Span) : Option (LineCol × LineCol) :=
  (set.get? span.file).map fun file => (file.position span.start, file.position span.stop)

end SourceSet

end Minilang
