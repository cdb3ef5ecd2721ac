import Minilang.ClassFile.ModifiedUtf8
import Std.Data.HashMap

/-! The constant pool of a class file. Indices start at one; zero stands for no entry. Interning a
constant that is already there gives its index back; past 65534 entries the pool stays as it is,
gives out zero and remembers that it overflowed. -/

namespace Minilang.ClassFile

/-- A pool entry; references are indices of other entries. -/
inductive Constant where
  | utf8 (text : Bytes)
  | integer (value : Int32)
  | classRef (name : UInt16)
  | string (text : UInt16)
  | field (owner member : UInt16)
  | method (owner member : UInt16)
  | interfaceMethod (owner member : UInt16)
  | nameAndType (name descriptor : UInt16)
  deriving DecidableEq, Hashable, Repr

namespace Constant

def tag : Constant → Nat
  | utf8 _ => 1
  | integer _ => 3
  | classRef _ => 7
  | string _ => 8
  | field .. => 9
  | method .. => 10
  | interfaceMethod .. => 11
  | nameAndType .. => 12

end Constant

/-- Why a pool look-up fails. -/
inductive PoolFault where
  | outOfRange (index : UInt16)
  | wrongTag (index : UInt16) (tag wanted : Nat)
  | notMember (index : UInt16)
  deriving DecidableEq, Repr

namespace PoolFault

def message : PoolFault → Bytes
  | outOfRange index => "constant pool index " ++ Bytes.dec index.toNat ++ " out of range"
  | wrongTag index tag wanted =>
      "constant pool index " ++ Bytes.dec index.toNat ++ ": tag " ++ Bytes.dec tag ++ ", want " ++
        Bytes.dec wanted
  | notMember index =>
      "constant pool index " ++ Bytes.dec index.toNat ++ " is not a member reference"

end PoolFault

/-- A field or method with its class. -/
structure MemberRef where
  owner : Bytes
  name : Bytes
  descriptor : Bytes
  deriving DecidableEq, Repr

/-- `owner.name:descriptor`. -/
def MemberRef.text (ref : MemberRef) : Bytes :=
  ref.owner ++ "." ++ ref.name ++ ":" ++ ref.descriptor

structure Pool where
  /-- The entry with index `i` stands at `i - 1`. -/
  entries : Array Constant := #[]
  lookup : Std.HashMap Constant UInt16 := {}
  overflowed : Bool := false

namespace Pool

/-- One more than the number of entries. -/
def count (pool : Pool) : Nat := pool.entries.size + 1

/-- The count a class file cannot exceed. -/
def limit : Nat := 65535

/-- Appends an entry; the first of equal entries is the one found later. -/
def append (pool : Pool) (constant : Constant) : Pool :=
  let index := pool.count.toUInt16
  { pool with
    entries := pool.entries.push constant
    lookup := pool.lookup.insertIfNew constant index }

def intern (pool : Pool) (constant : Constant) : UInt16 × Pool :=
  match pool.lookup[constant]? with
  | some index => (index, pool)
  | none =>
      if limit ≤ pool.count then (0, { pool with overflowed := true })
      else (pool.count.toUInt16, pool.append constant)

def utf8 (pool : Pool) (text : Bytes) : UInt16 × Pool := pool.intern (.utf8 text)

def integer (pool : Pool) (value : Int32) : UInt16 × Pool := pool.intern (.integer value)

def classRef (pool : Pool) (name : Bytes) : UInt16 × Pool :=
  let (name, pool) := pool.utf8 name
  pool.intern (.classRef name)

def string (pool : Pool) (text : Bytes) : UInt16 × Pool :=
  let (text, pool) := pool.utf8 text
  pool.intern (.string text)

def nameAndType (pool : Pool) (name descriptor : Bytes) : UInt16 × Pool :=
  let (name, pool) := pool.utf8 name
  let (descriptor, pool) := pool.utf8 descriptor
  pool.intern (.nameAndType name descriptor)

def field (pool : Pool) (ref : MemberRef) : UInt16 × Pool :=
  let (owner, pool) := pool.classRef ref.owner
  let (member, pool) := pool.nameAndType ref.name ref.descriptor
  pool.intern (.field owner member)

def method (pool : Pool) (ref : MemberRef) : UInt16 × Pool :=
  let (owner, pool) := pool.classRef ref.owner
  let (member, pool) := pool.nameAndType ref.name ref.descriptor
  pool.intern (.method owner member)

def get (pool : Pool) (index : UInt16) : Except PoolFault Constant :=
  if index = 0 then .error (.outOfRange index)
  else
    match pool.entries[index.toNat - 1]? with
    | some constant => .ok constant
    | none => .error (.outOfRange index)

/-- The text of a Utf8 entry. -/
def text (pool : Pool) (index : UInt16) : Except PoolFault Bytes := do
  match ← pool.get index with
  | .utf8 text => return text
  | constant => throw (.wrongTag index constant.tag 1)

/-- The name of a class entry. -/
def className (pool : Pool) (index : UInt16) : Except PoolFault Bytes := do
  match ← pool.get index with
  | .classRef name => pool.text name
  | constant => throw (.wrongTag index constant.tag 7)

/-- The member that a field or method entry refers to. -/
def member (pool : Pool) (index : UInt16) : Except PoolFault MemberRef := do
  match ← pool.get index with
  | .field owner member | .method owner member | .interfaceMethod owner member =>
      let owner ← pool.className owner
      match ← pool.get member with
      | .nameAndType name descriptor =>
          return { owner, name := ← pool.text name, descriptor := ← pool.text descriptor }
      | constant => throw (.wrongTag member constant.tag 12)
  | _ => throw (.notMember index)

end Pool

end Minilang.ClassFile
