import Minilang.ClassFile.Analysis
import Minilang.ClassFile.Assembly

/-! Writing class files. Methods are analysed and written before the constant pool, because their
frames and attributes add constants to it. -/

namespace Minilang.ClassFile

/-- A class under construction. -/
structure Draft where
  pool : Pool := {}
  major : UInt16 := 52
  access : UInt16 := 0x21
  name : Bytes
  super : Bytes := "java/lang/Object"
  /-- No attribute when empty. -/
  sourceFile : Bytes := []
  methods : Array Method := #[]

inductive WriteFault where
  | resolve (method : Bytes) (fault : ResolveFault)
  | analysis (method : Bytes) (fault : AnalysisFault)
  | tooManySlots (method : Bytes)
  | poolOverflow
  deriving DecidableEq, Repr

/-- The limits of the format that a program can exceed. -/
inductive Limit where
  | codeSize
  | branchDistance
  | poolSize
  deriving DecidableEq, Repr

namespace Limit

def message : Limit → Bytes
  | codeSize => "method code exceeds 65535 bytes"
  | branchDistance => "branch offset out of 16-bit range"
  | poolSize => "constant pool overflow"

end Limit

namespace WriteFault

/-- The limit that was exceeded, if the fault is of that kind. -/
def limit? : WriteFault → Option Limit
  | resolve _ (.tooLarge _) | tooManySlots _ => some .codeSize
  | resolve _ (.tooFar _) => some .branchDistance
  | poolOverflow => some .poolSize
  | resolve _ (.unbound _) | analysis .. => none

def message : WriteFault → Bytes
  | resolve method (.tooLarge size) =>
      method ++ ": " ++ Limit.codeSize.message ++ " (" ++ Bytes.dec size ++ " bytes)"
  | resolve method (.unbound offset) =>
      method ++ ": jump at " ++ Bytes.dec offset ++ " to unbound label"
  | resolve method (.tooFar offset) =>
      method ++ ": " ++ Limit.branchDistance.message ++ " (jump at " ++ Bytes.dec offset ++ ")"
  | analysis method fault => method ++ ": " ++ fault.message
  | tooManySlots method => method ++ ": " ++ Limit.codeSize.message
  | poolOverflow => Limit.poolSize.message

end WriteFault

/-- Writing that interns constants. -/
abbrev Writing := StateM Pool

namespace Writing

def index (intern : Pool → UInt16 × Pool) : Writing Bytes := do
  let (index, pool) := intern (← get)
  set pool
  return u2 index.toNat

def utf8 (text : Bytes) : Writing Bytes := index (·.utf8 text)

def classRef (name : Bytes) : Writing Bytes := index (·.classRef name)

def type : VType → Writing Bytes
  | .top => return [0]
  | .int => return [1]
  | .object name => return 7 :: (← classRef name)
  | .uninit offset => return 8 :: u2 offset

def types (list : List VType) : Writing Bytes := do
  return u2 list.length ++ (← list.mapM type).flatten

/-- Frames in the full form, each behind its distance from the one before. -/
def frames : Option Nat → List Frame → Writing (List Bytes)
  | _, [] => return []
  | previous, frame :: rest => do
      let distance := match previous with
        | none => frame.offset
        | some offset => frame.offset - offset - 1
      let locals ← types frame.locals
      let stack ← types frame.stack
      return (255 :: u2 distance ++ locals ++ stack) :: (← frames (some frame.offset) rest)

/-- An attribute; its name is interned after what its body interns. -/
def namedPart (name : Bytes) (body : Writing Bytes) : Writing Bytes := do
  let body ← body
  return (← utf8 name) ++ u4 body.length ++ body

end Writing

namespace Method

def label (method : Method) : Bytes := method.name ++ method.descriptor

def lineTable (lines : Array LineEntry) : Writing Bytes :=
  return u2 lines.size ++ lines.toList.flatMap fun entry => u2 entry.pc ++ u2 entry.line

def stackMap (list : List Frame) : Writing Bytes := do
  return u2 list.length ++ (← Writing.frames none list).flatten

def attributes (method : Method) (frames : List Frame) : Writing (List Bytes) := do
  let lines ←
    if method.lines.isEmpty then pure []
    else pure [← Writing.namedPart "LineNumberTable" (lineTable method.lines)]
  let maps ←
    if frames.isEmpty then pure []
    else pure [← Writing.namedPart "StackMapTable" (stackMap frames)]
  return lines ++ maps

/-- A method with its code. -/
def write (method : Method) (code : Bytes) (analysis : Analysis) : Writing Bytes := do
  let parts ← method.attributes analysis.frames
  let body := u2 analysis.maxStack ++ u2 method.maxLocals ++ u4 code.length ++ code ++ u2 0 ++
    u2 parts.length ++ parts.flatten
  let name ← Writing.utf8 method.name
  let descriptor ← Writing.utf8 method.descriptor
  let part ← Writing.namedPart "Code" (return body)
  return u2 method.access.toNat ++ name ++ descriptor ++ u2 1 ++ part

/-- Resolves, analyses and writes a method. -/
def finish (method : Method) (pool : Pool) : Except WriteFault (Bytes × Pool) :=
  match method.resolve with
  | .error fault => .error (.resolve method.label fault)
  | .ok code =>
      match analyze code pool method.init method.maxLocals with
      | .error fault => .error (.analysis method.label fault)
      | .ok analysis =>
          if 65535 < analysis.maxStack ∨ 65535 < method.maxLocals then
            .error (.tooManySlots method.label)
          else .ok ((method.write code analysis).run pool)

def finishAll : List Method → Pool → List Bytes → Except WriteFault (List Bytes × Pool)
  | [], pool, done => .ok (done.reverse, pool)
  | method :: rest, pool, done =>
      match method.finish pool with
      | .error fault => .error fault
      | .ok (bytes, pool) => finishAll rest pool (bytes :: done)

end Method

def Constant.write : Constant → Bytes
  | .utf8 text =>
      let encoded := ModifiedUtf8.encode text
      1 :: u2 encoded.length ++ encoded
  | .integer value => 3 :: u4 (value.toInt % 0x100000000).toNat
  | .classRef name => 7 :: u2 name.toNat
  | .string text => 8 :: u2 text.toNat
  | .field a b => 9 :: u2 a.toNat ++ u2 b.toNat
  | .method a b => 10 :: u2 a.toNat ++ u2 b.toNat
  | .interfaceMethod a b => 11 :: u2 a.toNat ++ u2 b.toNat
  | .nameAndType a b => 12 :: u2 a.toNat ++ u2 b.toNat

def Pool.write (pool : Pool) : Bytes := u2 pool.count ++ pool.entries.toList.flatMap Constant.write

/-- The first four bytes of every class file. -/
def magic : Bytes := [0xCA, 0xFE, 0xBA, 0xBE]

/-- The class file. -/
def Draft.bytes (draft : Draft) : Except WriteFault Bytes := do
  let (self, pool) := draft.pool.classRef draft.name
  let (super, pool) := pool.classRef draft.super
  let (methods, pool) ← Method.finishAll draft.methods.toList pool []
  let (attributes, pool) : List Bytes × Pool :=
    if draft.sourceFile.isEmpty then ([], pool)
    else
      let (name, pool) := pool.utf8 "SourceFile"
      let (value, pool) := pool.utf8 draft.sourceFile
      ([u2 name.toNat ++ u4 2 ++ u2 value.toNat], pool)
  if pool.overflowed then throw .poolOverflow
  return magic ++ u2 0 ++ u2 draft.major.toNat ++ pool.write ++ u2 draft.access.toNat ++
    u2 self.toNat ++ u2 super.toNat ++ u2 0 ++ u2 0 ++ u2 methods.length ++ methods.flatten ++
    u2 attributes.length ++ attributes.flatten

end Minilang.ClassFile
