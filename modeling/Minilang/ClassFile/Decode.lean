import Minilang.ClassFile.Opcode

/-! Splitting code into instructions. The argument of an instruction is brought into one form per
kind: the value pushed, the slot of a local variable, the absolute target of a branch, or an index
of the constant pool. -/

namespace Minilang.ClassFile

structure Insn where
  offset : Nat
  op : Opcode
  wide : Bool := false
  arg : Int := 0
  length : Nat
  deriving DecidableEq, Repr, Inhabited

inductive DecodeFault where
  | truncatedWide (offset : Nat)
  | unsupportedWide (offset : Nat) (op : Opcode)
  | unsupported (offset : Nat) (op : Opcode)
  | truncated (offset : Nat) (op : Opcode)
  deriving DecidableEq, Repr

namespace DecodeFault

private def at_ (offset : Nat) : Bytes := "offset " ++ Bytes.dec offset ++ ": "

def message : DecodeFault → Bytes
  | truncatedWide offset => at_ offset ++ "truncated wide instruction"
  | unsupportedWide offset op => at_ offset ++ "wide " ++ op.name ++ " is not supported"
  | unsupported offset op => at_ offset ++ "unsupported opcode 0x" ++ Bytes.hex [op.byte]
  | truncated offset op => at_ offset ++ "truncated " ++ op.name

end DecodeFault

/-- Two bytes, the high one first. -/
def word (high low : UInt8) : Nat := high.toNat * 256 + low.toNat

/-- A number of `bits` bits read in two's complement. -/
def twosComplement (bits value : Nat) : Int :=
  if value < Nat.pow 2 (bits - 1) then value else (value : Int) - Nat.pow 2 bits

/-- The argument of an instruction from its operand bytes. -/
def Opcode.argument (op : Opcode) (offset : Nat) (operand : Bytes) : Int :=
  let b := op.byte.toNat
  let unsigned :=
    match operand with
    | [low] => low.toNat
    | [high, low] => word high low
    | _ => 0
  if 0x02 ≤ b ∧ b ≤ 0x08 then (b : Int) - 3
  else if op = .bipush then twosComplement 8 unsigned
  else if op = .sipush then twosComplement 16 unsigned
  else if 0x1a ≤ b ∧ b ≤ 0x1d then ((b - 0x1a : Nat) : Int)
  else if 0x2a ≤ b ∧ b ≤ 0x2d then ((b - 0x2a : Nat) : Int)
  else if 0x3b ≤ b ∧ b ≤ 0x3e then ((b - 0x3b : Nat) : Int)
  else if 0x4b ≤ b ∧ b ≤ 0x4e then ((b - 0x4b : Nat) : Int)
  else if op.isBranch then (offset : Int) + twosComplement 16 unsigned
  else unsigned

/-- The first instruction of the code that remains, and what follows it. -/
def decodeNext (offset : Nat) (first : UInt8) (rest : Bytes) :
    Except DecodeFault (Insn × { tail : Bytes // tail.length ≤ rest.length }) :=
  let op : Opcode := ⟨first⟩
  if op = .wide then
    match rest with
    | second :: high :: low :: tail =>
        let op : Opcode := ⟨second⟩
        if op.isLocal then
          .ok ({ offset, op, wide := true, arg := word high low, length := 4 },
            ⟨tail, by simp; omega⟩)
        else .error (.unsupportedWide offset op)
    | _ => .error (.truncatedWide offset)
  else
    match op.info? with
    | none => .error (.unsupported offset op)
    | some (_, operands) =>
        let operand := rest.take operands
        if operand.length < operands then .error (.truncated offset op)
        else
          .ok ({ offset, op, arg := op.argument offset operand, length := 1 + operands },
            ⟨rest.drop operands, by simp⟩)

def decodeLoop (offset : Nat) (code : Bytes) (done : Array Insn) :
    Except DecodeFault (Array Insn) :=
  match code with
  | [] => .ok done
  | first :: rest =>
      match decodeNext offset first rest with
      | .error fault => .error fault
      | .ok (insn, ⟨tail, _⟩) => decodeLoop (offset + insn.length) tail (done.push insn)
termination_by code.length

/-- All instructions of a method body. -/
def decode (code : Bytes) : Except DecodeFault (Array Insn) := decodeLoop 0 code #[]

def condOf (n : Nat) : Cond := Cond.all.getD n .eq

/-- What a decoded instruction does. -/
def Insn.action (insn : Insn) : Action :=
  let slot := insn.arg.toNat
  let index := insn.arg.toNat.toUInt16
  let b := insn.op.byte.toNat
  if b = 0x12 ∨ b = 0x13 then .constant index
  else if b = 0x15 ∨ (0x1a ≤ b ∧ b ≤ 0x1d) then .intLoad slot
  else if b = 0x19 ∨ (0x2a ≤ b ∧ b ≤ 0x2d) then .refLoad slot
  else if b = 0x36 ∨ (0x3b ≤ b ∧ b ≤ 0x3e) then .intStore slot
  else if b = 0x3a ∨ (0x4b ≤ b ∧ b ≤ 0x4e) then .refStore slot
  else if 0x02 ≤ b ∧ b ≤ 0x11 then .push (Int32.ofInt insn.arg)
  else if 0x99 ≤ b ∧ b ≤ 0x9e then .branchZero (condOf (b - 0x99)) insn.arg
  else if 0x9f ≤ b ∧ b ≤ 0xa4 then .branchInts (condOf (b - 0x9f)) insn.arg
  else
    match b with
    | 0x57 => .shuffle .pop
    | 0x58 => .shuffle .pop2
    | 0x59 => .shuffle .dup
    | 0x5a => .shuffle .dupX1
    | 0x5b => .shuffle .dupX2
    | 0x5c => .shuffle .dup2
    | 0x5d => .shuffle .dup2X1
    | 0x5e => .shuffle .dup2X2
    | 0x5f => .shuffle .swap
    | 0x60 => .compute .add
    | 0x64 => .compute .sub
    | 0x68 => .compute .mul
    | 0x6c => .compute .div
    | 0x70 => .compute .rem
    | 0x74 => .negate
    | 0xa7 => .goto insn.arg
    | 0xb1 => .ret
    | 0xb2 => .getStatic index
    | 0xb6 => .invoke .virtualCall index
    | 0xb7 => .invoke .specialCall index
    | 0xb8 => .invoke .staticCall index
    | 0xbb => .new index
    | _ => .nop

namespace Action

/-- The offset an instruction may branch to. -/
def target? : Action → Option Int
  | branchZero _ target | branchInts _ target | goto target => some target
  | _ => none

/-- Whether control can go on to the next instruction. -/
def fallsThrough : Action → Bool
  | goto _ | ret => false
  | _ => true

end Action

end Minilang.ClassFile
