import Minilang.Arith

/-! The instruction set of class files as far as it is supported: mnemonics, operand sizes, and
what each instruction does once its operand is known. -/

namespace Minilang.ClassFile

structure Opcode where
  byte : UInt8
  deriving DecidableEq, Repr, Inhabited

/-- Signed comparisons of branches, in the order of their opcodes. -/
inductive Cond where
  | eq
  | ne
  | lt
  | ge
  | gt
  | le
  deriving DecidableEq, Repr

namespace Cond

def all : List Cond := [eq, ne, lt, ge, gt, le]

def index : Cond → Nat
  | eq => 0
  | ne => 1
  | lt => 2
  | ge => 3
  | gt => 4
  | le => 5

def holds : Cond → Int32 → Int32 → Bool
  | eq, l, r => l == r
  | ne, l, r => l != r
  | lt, l, r => l < r
  | ge, l, r => r ≤ l
  | gt, l, r => r < l
  | le, l, r => l ≤ r

end Cond

inductive Calc where
  | add
  | sub
  | mul
  | div
  | rem
  deriving DecidableEq, Repr

namespace Calc

/-- The result, unless it is a division by zero. -/
def eval? : Calc → Int32 → Int32 → Option Int32
  | add, l, r => some (l + r)
  | sub, l, r => some (l - r)
  | mul, l, r => some (l * r)
  | div, l, r => Arith.div? l r
  | rem, l, r => Arith.rem? l r

end Calc

/-- Permutations and copies of the top of the stack. -/
inductive Shuffle where
  | pop
  | pop2
  | dup
  | dupX1
  | dupX2
  | dup2
  | dup2X1
  | dup2X2
  | swap
  deriving DecidableEq, Repr

namespace Shuffle

/-- The stack afterwards, top first, unless it holds too few values. -/
def apply {α : Type} : Shuffle → List α → Option (List α)
  | pop, _ :: rest => some rest
  | pop2, _ :: _ :: rest => some rest
  | dup, a :: rest => some (a :: a :: rest)
  | dupX1, a :: b :: rest => some (a :: b :: a :: rest)
  | dupX2, a :: b :: c :: rest => some (a :: b :: c :: a :: rest)
  | dup2, a :: b :: rest => some (a :: b :: a :: b :: rest)
  | dup2X1, a :: b :: c :: rest => some (a :: b :: c :: a :: b :: rest)
  | dup2X2, a :: b :: c :: d :: rest => some (a :: b :: c :: d :: a :: b :: rest)
  | swap, a :: b :: rest => some (b :: a :: rest)
  | _, _ => none

end Shuffle

inductive InvokeKind where
  | virtualCall
  | specialCall
  | staticCall
  deriving DecidableEq, Repr

/-- What an instruction does; indices point into the constant pool, targets are offsets. -/
inductive Action where
  | nop
  | push (value : Int32)
  | constant (index : UInt16)
  | intLoad (slot : Nat)
  | refLoad (slot : Nat)
  | intStore (slot : Nat)
  | refStore (slot : Nat)
  | shuffle (kind : Shuffle)
  | compute (op : Calc)
  | negate
  | branchZero (cond : Cond) (target : Int)
  | branchInts (cond : Cond) (target : Int)
  | goto (target : Int)
  | ret
  | getStatic (index : UInt16)
  | invoke (kind : InvokeKind) (index : UInt16)
  | new (index : UInt16)
  deriving DecidableEq, Repr

namespace Opcode

def nop : Opcode := ⟨0x00⟩

def iconst0 : Opcode := ⟨0x03⟩

def bipush : Opcode := ⟨0x10⟩

def sipush : Opcode := ⟨0x11⟩

def ldc : Opcode := ⟨0x12⟩

def ldcW : Opcode := ⟨0x13⟩

def iload : Opcode := ⟨0x15⟩

def aload : Opcode := ⟨0x19⟩

def istore : Opcode := ⟨0x36⟩

def astore : Opcode := ⟨0x3a⟩

def pop : Opcode := ⟨0x57⟩

def pop2 : Opcode := ⟨0x58⟩

def dup : Opcode := ⟨0x59⟩

def dupX1 : Opcode := ⟨0x5a⟩

def dup2X1 : Opcode := ⟨0x5d⟩

def swap : Opcode := ⟨0x5f⟩

def iadd : Opcode := ⟨0x60⟩

def isub : Opcode := ⟨0x64⟩

def imul : Opcode := ⟨0x68⟩

def idiv : Opcode := ⟨0x6c⟩

def irem : Opcode := ⟨0x70⟩

def ineg : Opcode := ⟨0x74⟩

/-- A branch that compares with zero. -/
def ifZero (cond : Cond) : Opcode := ⟨0x99 + cond.index.toUInt8⟩

/-- A branch that compares two integers. -/
def ifInts (cond : Cond) : Opcode := ⟨0x9f + cond.index.toUInt8⟩

def goto : Opcode := ⟨0xa7⟩

def ret : Opcode := ⟨0xb1⟩

def getStatic : Opcode := ⟨0xb2⟩

def invokeVirtual : Opcode := ⟨0xb6⟩

def invokeSpecial : Opcode := ⟨0xb7⟩

def new : Opcode := ⟨0xbb⟩

def wide : Opcode := ⟨0xc4⟩

/-- The mnemonic and the number of operand bytes of a supported instruction. -/
def info? (op : Opcode) : Option (String × Nat) :=
  match op.byte.toNat with
  | 0x00 => some ("nop", 0)
  | 0x02 => some ("iconst_m1", 0)
  | 0x03 => some ("iconst_0", 0)
  | 0x04 => some ("iconst_1", 0)
  | 0x05 => some ("iconst_2", 0)
  | 0x06 => some ("iconst_3", 0)
  | 0x07 => some ("iconst_4", 0)
  | 0x08 => some ("iconst_5", 0)
  | 0x10 => some ("bipush", 1)
  | 0x11 => some ("sipush", 2)
  | 0x12 => some ("ldc", 1)
  | 0x13 => some ("ldc_w", 2)
  | 0x15 => some ("iload", 1)
  | 0x19 => some ("aload", 1)
  | 0x1a => some ("iload_0", 0)
  | 0x1b => some ("iload_1", 0)
  | 0x1c => some ("iload_2", 0)
  | 0x1d => some ("iload_3", 0)
  | 0x2a => some ("aload_0", 0)
  | 0x2b => some ("aload_1", 0)
  | 0x2c => some ("aload_2", 0)
  | 0x2d => some ("aload_3", 0)
  | 0x36 => some ("istore", 1)
  | 0x3a => some ("astore", 1)
  | 0x3b => some ("istore_0", 0)
  | 0x3c => some ("istore_1", 0)
  | 0x3d => some ("istore_2", 0)
  | 0x3e => some ("istore_3", 0)
  | 0x4b => some ("astore_0", 0)
  | 0x4c => some ("astore_1", 0)
  | 0x4d => some ("astore_2", 0)
  | 0x4e => some ("astore_3", 0)
  | 0x57 => some ("pop", 0)
  | 0x58 => some ("pop2", 0)
  | 0x59 => some ("dup", 0)
  | 0x5a => some ("dup_x1", 0)
  | 0x5b => some ("dup_x2", 0)
  | 0x5c => some ("dup2", 0)
  | 0x5d => some ("dup2_x1", 0)
  | 0x5e => some ("dup2_x2", 0)
  | 0x5f => some ("swap", 0)
  | 0x60 => some ("iadd", 0)
  | 0x64 => some ("isub", 0)
  | 0x68 => some ("imul", 0)
  | 0x6c => some ("idiv", 0)
  | 0x70 => some ("irem", 0)
  | 0x74 => some ("ineg", 0)
  | 0x99 => some ("ifeq", 2)
  | 0x9a => some ("ifne", 2)
  | 0x9b => some ("iflt", 2)
  | 0x9c => some ("ifge", 2)
  | 0x9d => some ("ifgt", 2)
  | 0x9e => some ("ifle", 2)
  | 0x9f => some ("if_icmpeq", 2)
  | 0xa0 => some ("if_icmpne", 2)
  | 0xa1 => some ("if_icmplt", 2)
  | 0xa2 => some ("if_icmpge", 2)
  | 0xa3 => some ("if_icmpgt", 2)
  | 0xa4 => some ("if_icmple", 2)
  | 0xa7 => some ("goto", 2)
  | 0xb1 => some ("return", 0)
  | 0xb2 => some ("getstatic", 2)
  | 0xb6 => some ("invokevirtual", 2)
  | 0xb7 => some ("invokespecial", 2)
  | 0xb8 => some ("invokestatic", 2)
  | 0xbb => some ("new", 2)
  | 0xc4 => some ("wide", 0)
  | _ => none

/-- The mnemonic, or the byte in hexadecimal for instructions without support. -/
def name (op : Opcode) : Bytes :=
  match op.info? with
  | some (name, _) => name
  | none => "op_" ++ Bytes.hex [op.byte]

/-- The opcode of a mnemonic. -/
def ofName? (text : Bytes) : Option Opcode :=
  ((List.range 256).map fun n => Opcode.mk n.toUInt8).find? fun op => op.name = text

/-- Whether the operand is a branch offset. -/
def isBranch (op : Opcode) : Bool := (0x99 ≤ op.byte && op.byte ≤ 0xa4) || op == goto

/-- Whether the instruction moves a local variable and can be widened. -/
def isLocal (op : Opcode) : Bool := op == iload || op == aload || op == istore || op == astore

/-- The form with the slot in the opcode, for slots below four. -/
def short (op : Opcode) (slot : Nat) : Opcode :=
  let base : UInt8 :=
    if op = iload then 0x1a else if op = aload then 0x2a else if op = istore then 0x3b else 0x4b
  ⟨base + slot.toUInt8⟩

end Opcode

end Minilang.ClassFile
