import Minilang.ClassFile.Decode
import Minilang.ClassFile.Pool
import Minilang.ClassFile.Types

/-! Assembling a method body step by step. Each step takes the shortest encoding of its
instruction; jumps are patched when all labels are known. -/

namespace Minilang.ClassFile

/-- What can be asked of an assembler. Labels are numbers. -/
inductive Step where
  | insn (op : Opcode)
  | push (value : Int32)
  | localVar (op : Opcode) (slot : Int)
  | jump (op : Opcode) (label : Nat)
  | mark (label : Nat)
  | classOperand (op : Opcode) (name : Bytes)
  | fieldOperand (op : Opcode) (ref : MemberRef)
  | methodOperand (op : Opcode) (ref : MemberRef)
  /-- The next instruction belongs to a source line. -/
  | line (number : Int)
  | nops (count : Nat)
  deriving Repr

/-- Steps that make no sense. -/
inductive AssemblyFault where
  | labelBoundTwice
  | notLocal (op : Opcode)
  | slotRange (slot : Int)
  | notBranch (op : Opcode)
  deriving DecidableEq, Repr

namespace AssemblyFault

def message : AssemblyFault → Bytes
  | labelBoundTwice => "classfile: label bound twice"
  | notLocal op => "classfile: " ++ op.name ++ " is not a local variable instruction"
  | slotRange slot => "classfile: local slot " ++ Bytes.int slot ++ " out of range"
  | notBranch op => "classfile: " ++ op.name ++ " is not a branch"

end AssemblyFault

/-- A jump whose offset is still to be filled in. -/
structure Jump where
  label : Nat
  offset : Nat
  deriving Repr

structure LineEntry where
  pc : Nat
  line : Nat
  deriving DecidableEq, Repr

structure Method where
  access : UInt16
  name : Bytes
  descriptor : Bytes
  /-- Types of the parameters in their slots. -/
  init : List VType := []
  code : Array UInt8 := #[]
  jumps : Array Jump := #[]
  labels : Std.HashMap Nat Nat := {}
  lines : Array LineEntry := #[]
  maxLocals : Nat := 0
  lastLine : Int := 0

/-- Two bytes, high byte first; larger numbers lose their high bits. -/
def u2 (n : Nat) : Bytes := [(n / 256).toUInt8, n.toUInt8]

/-- Four bytes, high byte first. -/
def u4 (n : Nat) : Bytes := u2 (n / 65536) ++ u2 n

namespace Method

def make (access : UInt16) (name descriptor : Bytes) (init : List VType) : Method :=
  { access, name, descriptor, init, maxLocals := init.length }

/-- Where the next instruction goes. -/
def offset (method : Method) : Nat := method.code.size

def emit (method : Method) (bytes : Bytes) : Method :=
  { method with code := method.code ++ bytes }

/-- The bytes that push a constant. -/
def pushBytes (pool : Pool) (value : Int32) : Bytes × Pool :=
  let v := value.toInt
  if -1 ≤ v ∧ v ≤ 5 then ([(3 + v).toNat.toUInt8], pool)
  else if -128 ≤ v ∧ v ≤ 127 then ([Opcode.bipush.byte, (v % 256).toNat.toUInt8], pool)
  else if -32768 ≤ v ∧ v ≤ 32767 then (Opcode.sipush.byte :: u2 (v % 65536).toNat, pool)
  else
    let (index, pool) := pool.integer value
    if index ≤ 255 then ([Opcode.ldc.byte, index.toUInt8], pool)
    else (Opcode.ldcW.byte :: u2 index.toNat, pool)

/-- The bytes that load or store a local variable. -/
def localBytes (op : Opcode) (slot : Nat) : Bytes :=
  if slot < 4 then [(op.short slot).byte]
  else if slot ≤ 255 then [op.byte, slot.toUInt8]
  else Opcode.wide.byte :: op.byte :: u2 slot

/-- Records a line; a repeated line adds nothing, and the last line of an offset wins. -/
def addLine (method : Method) (number : Int) : Method :=
  if number ≤ 0 ∨ 65535 < number ∨ number = method.lastLine then method
  else
    let method := { method with lastLine := number }
    let entry : LineEntry := ⟨method.offset, number.toNat⟩
    if 65535 < method.offset then method
    else if (method.lines.back?.map LineEntry.pc) = some method.offset then
      { method with lines := method.lines.pop.push entry }
    else { method with lines := method.lines.push entry }

def step (method : Method) (pool : Pool) : Step → Except AssemblyFault (Method × Pool)
  | .insn op => .ok (method.emit [op.byte], pool)
  | .nops count => .ok (method.emit (Bytes.fill count Opcode.nop.byte), pool)
  | .push value =>
      let (bytes, pool) := pushBytes pool value
      .ok (method.emit bytes, pool)
  | .localVar op slot =>
      if !op.isLocal then .error (.notLocal op)
      else if slot < 0 ∨ 65535 < slot then .error (.slotRange slot)
      else
        let slot := slot.toNat
        let maxLocals := max method.maxLocals (slot + 1)
        .ok ({ method with maxLocals }.emit (localBytes op slot), pool)
  | .jump op label =>
      if !op.isBranch then .error (.notBranch op)
      else
        let jump : Jump := ⟨label, method.offset⟩
        .ok ({ method with jumps := method.jumps.push jump }.emit [op.byte, 0, 0], pool)
  | .mark label =>
      if method.labels.contains label then .error .labelBoundTwice
      else
        let offset := method.offset
        .ok ({ method with labels := method.labels.insert label offset }, pool)
  | .classOperand op name =>
      let (index, pool) := pool.classRef name
      .ok (method.emit (op.byte :: u2 index.toNat), pool)
  | .fieldOperand op ref =>
      let (index, pool) := pool.field ref
      .ok (method.emit (op.byte :: u2 index.toNat), pool)
  | .methodOperand op ref =>
      let (index, pool) := pool.method ref
      .ok (method.emit (op.byte :: u2 index.toNat), pool)
  | .line number => .ok (method.addLine number, pool)

/-- All steps in order. -/
def steps (method : Method) (pool : Pool) : List Step → Except AssemblyFault (Method × Pool)
  | [] => .ok (method, pool)
  | s :: rest =>
      match method.step pool s with
      | .error fault => .error fault
      | .ok (method, pool) => method.steps pool rest

end Method

/-- Why the code of a method cannot be finished. -/
inductive ResolveFault where
  | tooLarge (size : Nat)
  | unbound (offset : Nat)
  | tooFar (offset : Nat)
  deriving DecidableEq, Repr

namespace Method

def patch (labels : Std.HashMap Nat Nat) :
    List Jump → Array UInt8 → Except ResolveFault (Array UInt8)
  | [], code => .ok code
  | jump :: rest, code =>
      match labels[jump.label]? with
      | none => .error (.unbound jump.offset)
      | some target =>
          let delta : Int := target - jump.offset
          if delta < -32768 ∨ 32767 < delta then .error (.tooFar jump.offset)
          else
            let value := (delta % 65536).toNat
            patch labels rest
              ((code.setIfInBounds (jump.offset + 1) (value / 256).toUInt8).setIfInBounds
                (jump.offset + 2) value.toUInt8)

/-- The finished code: every jump goes to its label. -/
def resolve (method : Method) : Except ResolveFault Bytes :=
  if 65535 < method.code.size then .error (.tooLarge method.code.size)
  else (patch method.labels method.jumps.toList method.code).map Array.toList

end Method

end Minilang.ClassFile
