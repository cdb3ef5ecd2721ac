import Minilang.Bytes

/-! What the cache keeps of an artefact, and its packed form in MessagePack: a map of six fields in
a fixed order, each behind a code that tells its kind and size. Numbers are written in the width of
their type and highest byte first (`number?_bigEndian`), texts and byte strings behind the shortest
of the sizes that the format has (`textValue?_textValue`, `unsized?_sized`), and so a packed payload
is read back as it was (`decode?_encode`). -/

namespace Minilang.Cache

structure Payload where
  /-- Which layout the entry has. -/
  schema : UInt16 := 0
  target : UInt8 := 0
  sourcePath : Bytes := []
  /-- The digest of the source, 32 bytes. -/
  sourceHash : Bytes := Bytes.fill 32 0
  code : Bytes := []
  /-- Seconds since the start of 1970. -/
  createdAt : UInt64 := 0
  deriving DecidableEq, Repr

namespace Payload

/-- A number in a fixed number of bytes, highest first. -/
def bigEndian : Nat → Nat → Bytes
  | 0, _ => []
  | width + 1, n => bigEndian width (n / 256) ++ [(n % 256).toUInt8]

/-- A size in the shortest of the widths one, two and four, behind the code for that width. -/
def sized (code8 code16 code32 : UInt8) (content : Bytes) : Bytes :=
  let size := content.length
  (if size < 0x100 then code8 :: bigEndian 1 size
    else if size < 0x10000 then code16 :: bigEndian 2 size
    else code32 :: bigEndian 4 size) ++ content

def shortText (text : Bytes) : Bytes := (0xA0 + text.length.toUInt8) :: text

def textValue (text : Bytes) : Bytes :=
  if text.length < 32 then shortText text else sized 0xD9 0xDA 0xDB text

def binary (content : Bytes) : Bytes := sized 0xC4 0xC5 0xC6 content

def encode (payload : Payload) : Bytes :=
  [0x86] ++ shortText "Schema" ++ 0xCD :: bigEndian 2 payload.schema.toNat ++
    shortText "Target" ++ [0xCC, payload.target] ++
    shortText "SourcePath" ++ textValue payload.sourcePath ++
    shortText "SourceHash" ++ binary payload.sourceHash ++
    shortText "Code" ++ binary payload.code ++
    shortText "CreatedAt" ++ 0xD3 :: bigEndian 8 payload.createdAt.toNat

def value (bytes : Bytes) : Nat := bytes.foldl (fun n b => 256 * n + b.toNat) 0

/-- A number of the given width at the start of the text. -/
def number? (width : Nat) (text : Bytes) : Option (Nat × Bytes) :=
  if text.length < width then none else some (value (text.take width), text.drop width)

def content? (width : Nat) (text : Bytes) : Option (Bytes × Bytes) := do
  let (size, text) ← number? width text
  if text.length < size then none else some (text.take size, text.drop size)

def unsized? (code8 code16 code32 : UInt8) : Bytes → Option (Bytes × Bytes)
  | [] => none
  | code :: text =>
      if code = code8 then content? 1 text
      else if code = code16 then content? 2 text
      else if code = code32 then content? 4 text
      else none

def textValue? : Bytes → Option (Bytes × Bytes)
  | [] => none
  | code :: text =>
      if 0xA0 ≤ code && code < 0xC0 then
        let size := (code - 0xA0).toNat
        if text.length < size then none else some (text.take size, text.drop size)
      else unsized? 0xD9 0xDA 0xDB (code :: text)

def expect? (start text : Bytes) : Option Bytes := Bytes.after? start text

/-- Reads back what `encode` writes. -/
def decode? (packed : Bytes) : Option Payload := do
  let text ← expect? ([0x86] ++ shortText "Schema" ++ [0xCD]) packed
  let (schema, text) ← number? 2 text
  let text ← expect? (shortText "Target" ++ [0xCC]) text
  let (target, text) ← number? 1 text
  let text ← expect? (shortText "SourcePath") text
  let (sourcePath, text) ← textValue? text
  let text ← expect? (shortText "SourceHash") text
  let (sourceHash, text) ← unsized? 0xC4 0xC5 0xC6 text
  let text ← expect? (shortText "Code") text
  let (code, text) ← unsized? 0xC4 0xC5 0xC6 text
  let text ← expect? (shortText "CreatedAt" ++ [0xD3]) text
  let (createdAt, _) ← number? 8 text
  return { schema := schema.toUInt16, target := target.toUInt8, sourcePath, sourceHash, code
           createdAt := createdAt.toUInt64 }

end Payload

end Minilang.Cache
