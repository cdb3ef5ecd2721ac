import Minilang.ClassFile.Decode
import Minilang.ClassFile.Pool
import Minilang.ClassFile.Types
import Minilang.ClassFile.Assembly

/-! Reading class files. A reader that has run past the end gives zeros, and the class is refused
once that is noticed; fields, interfaces and unknown attributes are skipped. -/

namespace Minilang.ClassFile

structure CodeInfo where
  maxStack : Nat
  maxLocals : Nat
  bytes : Bytes
  lines : List LineEntry := []
  frames : List Frame := []
  deriving Repr

/-- The source line of the instruction at an offset, zero when unknown: that of the last entry
before the first one behind the offset. -/
def CodeInfo.lineAt (code : CodeInfo) (pc : Int) : Nat :=
  ((code.lines.takeWhile fun entry => (entry.pc : Int) ≤ pc).getLast?.map LineEntry.line).getD 0

structure MethodInfo where
  access : UInt16
  name : Bytes
  descriptor : Bytes
  code : Option CodeInfo := none
  deriving Repr

structure Class where
  minor : UInt16
  major : UInt16
  access : UInt16
  pool : Pool
  name : Bytes
  super : Bytes
  sourceFile : Bytes := []
  methods : List MethodInfo := []

def Class.method? (cls : Class) (name descriptor : Bytes) : Option MethodInfo :=
  cls.methods.find? fun method => method.name = name && method.descriptor = descriptor

inductive ParseFault where
  | truncated
  | badMagic
  | poolTag (tag index : Nat)
  | pool (fault : PoolFault)
  | descriptor (fault : DescriptorFault)
  | chop (count size : Nat)
  | reservedFrame (kind : Nat)
  | unsupportedType (kind : Nat)
  /-- A fault in a named part. -/
  | inside (part : Bytes) (fault : ParseFault)
  deriving Repr

namespace ParseFault

def message : ParseFault → Bytes
  | truncated => "truncated class file"
  | badMagic => "bad magic"
  | poolTag tag index =>
      "unsupported constant pool tag " ++ Bytes.dec tag ++ " at index " ++ Bytes.dec index
  | pool fault => fault.message
  | descriptor fault => fault.message
  | chop count size =>
      "stack map: chop " ++ Bytes.dec count ++ " of " ++ Bytes.dec size ++ " locals"
  | reservedFrame kind => "stack map: reserved frame type " ++ Bytes.dec kind
  | unsupportedType kind => "stack map: unsupported verification type " ++ Bytes.dec kind
  | inside part fault => part ++ ": " ++ fault.message

/-- Whether the input ended too early. -/
def isTruncated : ParseFault → Bool
  | truncated => true
  | inside _ fault => fault.isTruncated
  | _ => false

end ParseFault

/-- Bytes still to be read, and whether more was asked for than there was. -/
structure Reader where
  rest : Bytes
  exhausted : Bool := false

abbrev Parse := StateT Reader (Except ParseFault)

namespace Parse

/-- The next `n` bytes, or none at all when there are fewer. -/
def bytes (n : Nat) : Parse Bytes := fun reader =>
  let taken := reader.rest.take n
  if reader.exhausted || taken.length < n then .ok ([], { rest := [], exhausted := true })
  else .ok (taken, { reader with rest := reader.rest.drop n })

def number (bytes : Bytes) : Nat := bytes.foldl (fun n b => n * 256 + b.toNat) 0

def u1 : Parse Nat := do return number (← bytes 1)

def u2 : Parse Nat := do return number (← bytes 2)

def u4 : Parse Nat := do return number (← bytes 4)

def index : Parse UInt16 := do return (← u2).toUInt16

def isExhausted : Parse Bool := do return (← get).exhausted

/-- Refuses a reader that has run past the end. -/
def checkEnd : Parse Unit := do if ← isExhausted then throw .truncated

def lookUp {α : Type} (result : Except PoolFault α) : Parse α :=
  match result with
  | .ok value => return value
  | .error fault => throw (.pool fault)

/-- Names the part that a fault is in. -/
def within {α : Type} (part : Bytes) (parse : Parse α) : Parse α := fun reader =>
  match parse reader with
  | .ok result => .ok result
  | .error fault => .error (.inside part fault)

/-- Reads another text with a reader of its own. -/
def nested {α : Type} (text : Bytes) (parse : Parse α) : Parse α := fun reader =>
  match parse { rest := text } with
  | .ok (value, _) => .ok (value, reader)
  | .error fault => .error fault

/-- Up to `n` items, ending early once the reader is exhausted. -/
def items {α : Type} (item : Parse α) : Nat → Array α → Parse (Array α)
  | 0, done => return done
  | n + 1, done => do
      if ← isExhausted then return done
      let value ← item
      items item n (done.push value)

/-- Exactly `n` items. -/
def exactly {α : Type} (item : Parse α) : Nat → Array α → Parse (Array α)
  | 0, done => return done
  | n + 1, done => do
      let value ← item
      exactly item n (done.push value)

def constant (position : Nat) : Parse Constant := do
  match ← u1 with
  | 1 => return .utf8 (ModifiedUtf8.decode (← bytes (← u2)))
  | 3 => return .integer (Int32.ofNat (← u4))
  | 7 => return .classRef (← index)
  | 8 => return .string (← index)
  | 9 => return .field (← index) (← index)
  | 10 => return .method (← index) (← index)
  | 11 => return .interfaceMethod (← index) (← index)
  | 12 => return .nameAndType (← index) (← index)
  | tag => throw (.poolTag tag position)

def constants : Nat → Nat → Pool → Parse Pool
  | 0, _, pool => return pool
  | n + 1, position, pool => do
      let entry ← constant position
      checkEnd
      constants n (position + 1) (pool.append entry)

def pool : Parse Pool := do
  let pool ← constants ((← u2) - 1) 1 {}
  checkEnd
  return pool

def type (pool : Pool) : Parse VType := do
  match ← u1 with
  | 0 => checkEnd; return .top
  | 1 => checkEnd; return .int
  | 7 => return .object (← lookUp (pool.className (← index)))
  | 8 =>
      let offset ← u2
      checkEnd
      return .uninit offset
  | kind => throw (.unsupportedType kind)

/-- A frame relative to the one before: its distance, locals and stack. -/
def frame (pool : Pool) (locals : List VType) : Parse (Nat × List VType × List VType) := do
  let kind ← u1
  if kind < 64 then return (kind, locals, [])
  else if kind < 128 then return (kind - 64, locals, [← type pool])
  else if kind < 247 then throw (.reservedFrame kind)
  else
    let distance ← u2
    if kind = 247 then return (distance, locals, [← type pool])
    else if kind < 251 then
      let count := 251 - kind
      if locals.length < count then throw (.chop count locals.length)
      return (distance, locals.take (locals.length - count), [])
    else if kind < 255 then
      return (distance, locals ++ (← exactly (type pool) (kind - 251) #[]).toList, [])
    else
      let locals ← exactly (type pool) (← u2) #[]
      let stack ← exactly (type pool) (← u2) #[]
      return (distance, locals.toList, stack.toList)

def frames (pool : Pool) : Nat → Option Nat → List VType → Array Frame → Parse (Array Frame)
  | 0, _, _, done => return done
  | n + 1, previous, locals, done => do
      if ← isExhausted then return done
      let (distance, locals, stack) ← frame pool locals
      let offset := match previous with
        | none => distance
        | some offset => offset + distance + 1
      frames pool n (some offset) locals (done.push { offset, locals, stack })

def stackMap (pool : Pool) (init : List VType) : Parse (List Frame) := do
  let list ← frames pool (← u2) none (trimTop init) #[]
  checkEnd
  return list.toList

/-- The types of a method's parameters in their slots, the receiver first. -/
def implicitLocals (access : UInt16) (descriptor : Bytes) : Parse (List VType) :=
  match methodType descriptor with
  | .error fault => throw (.descriptor fault)
  | .ok (params, _) =>
      return if access &&& 8 ≠ 0 then params else .object "java/lang/Object" :: params

/-- The name and the body of an attribute. -/
def namedPart (pool : Pool) : Parse (Bytes × Bytes) := do
  let name ← lookUp (pool.text (← index))
  return (name, ← bytes (← u4))

def lineEntry : Parse LineEntry := do return ⟨← u2, ← u2⟩

def lineTable : Parse (List LineEntry) := do
  let lines ← items lineEntry (← u2) #[]
  checkEnd
  return lines.toList

def codeAttributes (pool : Pool) (access : UInt16) (descriptor : Bytes) :
    Nat → CodeInfo → Parse CodeInfo
  | 0, code => return code
  | n + 1, code => do
      if ← isExhausted then return code
      let (name, body) ← namedPart pool
      if ← isExhausted then return code
      if name = ("LineNumberTable" : Bytes) then
        let lines ← nested body lineTable
        codeAttributes pool access descriptor n { code with lines := code.lines ++ lines }
      else if name = ("StackMapTable" : Bytes) then
        let frames ← nested body (stackMap pool (← implicitLocals access descriptor))
        codeAttributes pool access descriptor n { code with frames }
      else codeAttributes pool access descriptor n code

def code (pool : Pool) (access : UInt16) (descriptor : Bytes) : Parse CodeInfo := do
  let maxStack ← u2
  let maxLocals ← u2
  let body ← bytes (← u4)
  let _ ← bytes (8 * (← u2))
  let info ← codeAttributes pool access descriptor (← u2) { maxStack, maxLocals, bytes := body }
  checkEnd
  return info

def methodAttributes (pool : Pool) : Nat → MethodInfo → Parse MethodInfo
  | 0, method => return method
  | n + 1, method => do
      if ← isExhausted then return method
      let (name, body) ← namedPart pool
      if name ≠ ("Code" : Bytes) || (← isExhausted) then methodAttributes pool n method
      else
        let info ← within (method.name ++ method.descriptor)
          (nested body (code pool method.access method.descriptor))
        methodAttributes pool n { method with code := some info }

def method (pool : Pool) : Parse MethodInfo := do
  let access ← index
  let name ← lookUp (pool.text (← index))
  let descriptor ← lookUp (pool.text (← index))
  let method ← methodAttributes pool (← u2) { access, name, descriptor }
  checkEnd
  return method

def skipAttribute : Parse Unit := do
  let _ ← u2
  let _ ← bytes (← u4)

def skipField : Parse Unit := do
  let _ ← bytes 6
  let _ ← items skipAttribute (← u2) #[]

def classAttributes (pool : Pool) : Nat → Bytes → Parse Bytes
  | 0, source => return source
  | n + 1, source => do
      if ← isExhausted then return source
      let (name, body) ← namedPart pool
      if name = ("SourceFile" : Bytes) then
        match body with
        | [high, low] =>
            let source ← lookUp (pool.text (word high low).toUInt16)
            classAttributes pool n source
        | _ => classAttributes pool n source
      else classAttributes pool n source

def cls : Parse Class := do
  if (← u4) ≠ 0xCAFEBABE then
    checkEnd
    throw .badMagic
  let minor ← index
  let major ← index
  let pool ← within "constant pool" pool
  let access ← index
  let name ← within "this_class" (do lookUp (pool.className (← index)))
  let super ← within "super_class" (do lookUp (pool.className (← index)))
  let _ ← bytes (2 * (← u2))
  let _ ← items skipField (← u2) #[]
  let methods ← items (method pool) (← u2) #[]
  let sourceFile ← classAttributes pool (← u2) []
  checkEnd
  return { minor, major, access, pool, name, super, sourceFile, methods := methods.toList }

end Parse

/-- The class of a file; bytes behind it are not looked at. -/
def Class.parse (bytes : Bytes) : Except ParseFault Class :=
  (Parse.cls.run { rest := bytes }).map Prod.fst

end Minilang.ClassFile
