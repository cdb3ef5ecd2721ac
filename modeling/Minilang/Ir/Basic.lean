import Minilang.Arith

/-! The intermediate code of the textual target: a single function made of named blocks. Values
are assigned once; variables live in cells that are loaded and stored. Names are kept without
their `%` and `@` marks. -/

namespace Minilang.Ir

/-- How pointers are spelt. -/
inductive Dialect where
  | opaquePointers
  | typedPointers
  deriving DecidableEq, Repr

namespace Dialect

def name : Dialect → Bytes
  | opaquePointers => "opaque"
  | typedPointers => "typed"

def ofNumber (n : Nat) : Dialect := if n = 1 then typedPointers else opaquePointers

/-- The dialect of a configured name; the empty name means opaque pointers. -/
def parse (text : Bytes) : Except Bytes Dialect :=
  if text = [] || text = ("opaque" : Bytes) then .ok opaquePointers
  else if text = ("typed" : Bytes) then .ok typedPointers
  else .error ("unknown IR dialect " ++ Text.quoted text ++ " (expected opaque|typed)")

/-- The type of a pointer to a cell. -/
def cellPointer : Dialect → Bytes
  | opaquePointers => "ptr"
  | typedPointers => "i32*"

/-- The type of a pointer to a format string. -/
def bytePointer : Dialect → Bytes
  | opaquePointers => "ptr"
  | typedPointers => "i8*"

end Dialect

inductive Operand where
  | imm (value : Int32)
  | reg (name : Bytes)
  deriving DecidableEq, Repr

namespace Operand

def text : Operand → Bytes
  | imm value => Bytes.int value.toInt
  | reg name => "%" ++ name

/-- The value that has to be defined for the operand to have a meaning. -/
def name? : Operand → Option Bytes
  | imm _ => none
  | reg name => some name

end Operand

inductive Calc where
  | add
  | sub
  | mul
  | sdiv
  | srem
  deriving DecidableEq, Repr

namespace Calc

def all : List Calc := [add, sub, mul, sdiv, srem]

def name : Calc → Bytes
  | add => "add"
  | sub => "sub"
  | mul => "mul"
  | sdiv => "sdiv"
  | srem => "srem"

def ofName? (text : Bytes) : Option Calc := all.find? fun op => op.name = text

/-- The result, unless it is a division by zero. -/
def eval? : Calc → Int32 → Int32 → Option Int32
  | add, l, r => some (l + r)
  | sub, l, r => some (l - r)
  | mul, l, r => some (l * r)
  | sdiv, l, r => Arith.div? l r
  | srem, l, r => Arith.rem? l r

end Calc

/-- Signed comparisons. -/
inductive Test where
  | eq
  | ne
  | slt
  | sle
  | sgt
  | sge
  deriving DecidableEq, Repr

namespace Test

def all : List Test := [eq, ne, slt, sle, sgt, sge]

def name : Test → Bytes
  | eq => "eq"
  | ne => "ne"
  | slt => "slt"
  | sle => "sle"
  | sgt => "sgt"
  | sge => "sge"

def ofName? (text : Bytes) : Option Test := all.find? fun test => test.name = text

def holds : Test → Int32 → Int32 → Bool
  | eq, l, r => l == r
  | ne, l, r => l != r
  | slt, l, r => l < r
  | sle, l, r => l ≤ r
  | sgt, l, r => r < l
  | sge, l, r => r ≤ l

end Test

/-- What an instruction does. -/
inductive Action where
  | alloca
  | store (value : Operand) (cell : Bytes)
  | load (cell : Bytes)
  | compute (op : Calc) (left right : Operand)
  | compare (test : Test) (left right : Operand)
  /-- Widens a truth value to an integer. -/
  | widen (flag : Operand)
  | jump (label : Bytes)
  | branch (flag : Operand) (yes no : Bytes)
  | print (format : Bytes) (value : Operand)
  | scan (format : Bytes) (cell : Bytes)
  | ret (value : Operand)
  deriving DecidableEq, Repr

namespace Action

/-- Whether the action ends its block. -/
def isTerminator : Action → Bool
  | jump _ | branch .. | ret _ => true
  | _ => false

/-- The names an action uses, operands before its cell. -/
def uses : Action → List Bytes
  | alloca | jump _ => []
  | store value cell => value.name?.toList ++ [cell]
  | load cell | scan _ cell => [cell]
  | compute _ left right | compare _ left right => left.name?.toList ++ right.name?.toList
  | widen value | branch value _ _ | print _ value | ret value => value.name?.toList

/-- The labels an action may continue at. -/
def targets : Action → List Bytes
  | jump label => [label]
  | branch _ yes no => [yes, no]
  | _ => []

end Action

/-- An instruction; its result may have a name. -/
structure Insn where
  result : Option Bytes := none
  action : Action
  deriving DecidableEq, Repr

/-- What stands on a line of the function's body. -/
inductive Item where
  | label (name : Bytes)
  | insn (insn : Insn)
  deriving DecidableEq, Repr

/-- A format string of the module. -/
structure Global where
  name : Bytes
  text : Bytes
  deriving DecidableEq, Repr

/-- A decimal integer on a line of its own. -/
def outFormat : Global := { name := "out_fmt", text := "%d\n" }

/-- A decimal integer. -/
def inFormat : Global := { name := "in_fmt", text := "%d" }

end Minilang.Ir
