import Minilang.Text.Quoted

/-! Verification types, type frames and the descriptors that name them. -/

namespace Minilang.ClassFile

inductive VType where
  /-- Nothing is known. -/
  | top
  | int
  | object (name : Bytes)
  /-- The result of the `new` at an offset, not yet initialised. -/
  | uninit (offset : Nat)
  deriving DecidableEq, Repr, Inhabited

namespace VType

def text : VType → Bytes
  | top => "top"
  | int => "I"
  | object name => "L" ++ name
  | uninit offset => "uninit@" ++ Bytes.dec offset

/-- The type with a text. -/
def ofText (text : Bytes) : VType :=
  if text = ("I" : Bytes) then int
  else
    match Bytes.after? "uninit@" text with
    | some digits => uninit (Bytes.digitsValue digits)
    | none =>
        match text with
        | 76 :: name => object name
        | _ => top

def isRef : VType → Bool
  | object _ | uninit _ => true
  | _ => false

/-- Whether both types are of one kind: names and offsets do not count. -/
def sameKind : VType → VType → Bool
  | top, top | int, int | object _, object _ | uninit _, uninit _ => true
  | _, _ => false

end VType

/-- The types on entry to the instruction at an offset; the top of the stack comes last. -/
structure Frame where
  offset : Nat
  locals : List VType
  stack : List VType
  deriving DecidableEq, Repr

/-- The types without unknown ones at the end. -/
def trimTop (locals : List VType) : List VType :=
  (locals.reverse.dropWhile (· == .top)).reverse

inductive DescriptorFault where
  | empty
  | malformed (text : Bytes)
  | unsupported (text : Bytes)
  | malformedMethod (text : Bytes)
  deriving DecidableEq, Repr

namespace DescriptorFault

def message : DescriptorFault → Bytes
  | empty => "empty descriptor"
  | malformed text => "malformed descriptor " ++ Text.quoted text
  | unsupported text => "unsupported descriptor " ++ Text.quoted text
  | malformedMethod text => "malformed method descriptor " ++ Text.quoted text

end DescriptorFault

/-- The type of a field descriptor: small integers, classes and arrays. -/
def fieldType (text : Bytes) : Except DescriptorFault VType :=
  match text with
  | [] => .error .empty
  | first :: rest =>
      if [73, 90, 66, 67, 83].contains first then .ok .int
      else if first = 76 then
        match Bytes.before? ";" rest with
        | some name => .ok (.object name)
        | none => .error (.malformed text)
      else if first = 91 then .ok (.object text)
      else .error (.unsupported text)

/-- The length of the first field descriptor of a text, zero when there is none. -/
def descriptorLength (text : Bytes) : Nat :=
  let dimensions := (text.takeWhile (· == 91)).length
  match text.drop dimensions with
  | [] => 0
  | 76 :: rest =>
      match Bytes.cut? 59 rest with
      | some (name, _) => dimensions + name.length + 2
      | none => 0
  | _ => dimensions + 1

/-- The types of a run of field descriptors, with enough turns for its length. -/
def parameterTypes (whole : Bytes) :
    Nat → Bytes → List VType → Except DescriptorFault (List VType)
  | _, [], done => .ok done.reverse
  | 0, _ :: _, done => .ok done.reverse
  | fuel + 1, rest, done =>
      match descriptorLength rest with
      | 0 => .error (.malformedMethod whole)
      | n =>
          match fieldType (rest.take n) with
          | .error fault => .error fault
          | .ok type => parameterTypes whole fuel (rest.drop n) (type :: done)

/-- The parameter types and the result type of a method descriptor; no result type for `V`. -/
def methodType (text : Bytes) : Except DescriptorFault (List VType × Option VType) :=
  match text with
  | 40 :: tail =>
      match Bytes.cut? 41 tail with
      | none => .error (.malformedMethod text)
      | some (params, result) => do
          let params ← parameterTypes text params.length params []
          if result = ("V" : Bytes) then return (params, none)
          else return (params, some (← fieldType result))
  | _ => .error (.malformedMethod text)

end Minilang.ClassFile
