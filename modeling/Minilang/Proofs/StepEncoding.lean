import Minilang.ClassFile.Lower
import Minilang.Proofs.PoolInterning

/-! The bytes of one step. Whichever of its forms an instruction takes, decoding its bytes gives
back what the step asks for, with the indices that the pool gave for its operands. -/

namespace Minilang.ClassFile

def Opcode.does (op : Opcode) (arg : Int) : Action :=
  Insn.action { offset := 0, op, arg, length := 0 }

theorem Opcode.isLocal_iff {op : Opcode} :
    op.isLocal = true ↔ op = .iload ∨ op = .aload ∨ op = .istore ∨ op = .astore := by
  simp [Opcode.isLocal, or_assoc]

def Opcode.invokeStatic : Opcode := ⟨0xb8⟩

def plainOpcodes : List Opcode :=
  [.dup, .dupX1, .dup2X1, .pop, .pop2, .swap, .iadd, .isub, .imul, .idiv, .irem, .ineg, .ret]

def jumpOpcodes : List Opcode :=
  .goto :: (Cond.all.map Opcode.ifZero ++ Cond.all.map Opcode.ifInts)

theorem Opcode.isBranch_iff {op : Opcode} : op.isBranch = true ↔ op ∈ jumpOpcodes := by
  refine ⟨fun branch => ?_, (by decide : ∀ op ∈ jumpOpcodes, op.isBranch = true) op⟩
  simp only [isBranch, Bool.or_eq_true, Bool.and_eq_true, decide_eq_true_eq, beq_iff_eq,
    UInt8.le_iff_toNat_le, UInt8.reduceToNat] at branch
  rcases branch with ⟨low, high⟩ | rfl
  · -- the opcodes of one operand and of two have no gap between them
    have all : ∀ n < 12, Opcode.mk (0x99 + n).toUInt8 ∈ jumpOpcodes := by decide
    have known := all (op.byte.toNat - 0x99) (by omega)
    rwa [Nat.add_sub_cancel' low, Nat.toUInt8_eq, UInt8.ofNat_toNat] at known
  · exact List.mem_cons_self

namespace Step

def size : Step → Nat
  | .mark _ | .line _ => 0
  | .nops count => count
  | _ => 1

/-- The steps that lowering uses. -/
def Usual : Step → Prop
  | .insn op => op ∈ plainOpcodes
  | .push _ | .mark _ | .line _ => True
  | .localVar op slot => op.isLocal = true ∧ 0 ≤ slot ∧ slot ≤ 65535
  | .jump op _ => op ∈ jumpOpcodes
  | .classOperand op _ => op = .new
  | .fieldOperand op _ => op = .getStatic
  | .methodOperand op _ => op = .invokeVirtual ∨ op = .invokeSpecial
  | .nops _ => False

/-- The steps whose instructions have the form that their opcodes need. -/
def Regular : Step → Prop
  | .insn op => op ≠ .wide ∧ ∃ name, op.info? = some (name, 0)
  | .push _ | .mark _ | .line _ => True
  | .localVar op slot => op.isLocal = true ∧ 0 ≤ slot ∧ slot ≤ 65535
  | .jump op _ => op.isBranch = true
  | .classOperand op _ => op = .new
  | .fieldOperand op _ => op = .getStatic
  | .methodOperand op _ => op = .invokeVirtual ∨ op = .invokeSpecial ∨ op = .invokeStatic
  | .nops _ => False

def number? : Step → Option Request
  | .push value =>
      if -32768 ≤ value.toInt ∧ value.toInt ≤ 32767 then none else some (.number value)
  | _ => none

/-- What a step asks of the pool. -/
def request? : Step → Option Request
  | .push value => (Step.push value).number?
  | .classOperand _ name => some (.className name)
  | .fieldOperand _ ref => some (.field ref)
  | .methodOperand _ ref => some (.method ref)
  | _ => none

def bytes (pool : Pool) : Step → Bytes
  | .insn op => [op.byte]
  | .push value => (Method.pushBytes pool value).1
  | .localVar op slot => Method.localBytes op slot.toNat
  | .jump op _ => [op.byte, 0, 0]
  | .classOperand op name => op.byte :: u2 (pool.classRef name).1.toNat
  | .fieldOperand op ref => op.byte :: u2 (pool.field ref).1.toNat
  | .methodOperand op ref => op.byte :: u2 (pool.method ref).1.toNat
  | .mark _ | .line _ => []
  | .nops count => Bytes.fill count Opcode.nop.byte

/-- The bytes of a step at an offset when the places of the labels are known. -/
def placed (pool : Pool) (target : Nat → Option Nat) (offset : Nat) : Step → Bytes
  | .jump op label => op.byte :: u2 ((((target label).getD 0 : Nat) - offset : Int) % 65536).toNat
  | s => s.bytes pool

/-- An instruction whose argument is the index of what a step asks of the pool. -/
def Takes (operand : Request → UInt16 → Prop) (s : Step) (insn : Insn) : Prop :=
  ∃ request i, s.request? = some request ∧ insn.arg = (i : UInt16).toNat ∧ operand request i

/-- The instructions that a step may become; `operand` gives the indices of what the step asks of the
pool, and `target` the places of the labels. -/
def Becomes (operand : Request → UInt16 → Prop) (target : Nat → Option Nat) : Step → Insn → Prop
  | .insn op, made => made.op = op ∧ made.arg = op.argument 0 []
  | .push value, made => made.arg = value.toInt ∧ made.action = .push value ∨
      (made.op = .ldc ∨ made.op = .ldcW) ∧ Takes operand (.push value) made
  | .localVar op slot, made => made.arg = slot ∧ made.action = op.does slot
  | .jump op label, made => made.op = op ∧ ∃ place, target label = some place ∧ made.arg = place
  | .classOperand op name, made => made.op = op ∧ Takes operand (.classOperand op name) made
  | .fieldOperand op ref, made => made.op = op ∧ Takes operand (.fieldOperand op ref) made
  | .methodOperand op ref, made => made.op = op ∧ Takes operand (.methodOperand op ref) made
  | .mark _, _ | .line _, _ | .nops _, _ => False

/-- What the instruction of a step does; `target` gives the places of the labels. -/
def Means (pool : Pool) (target : Nat → Option Nat) : Step → Action → Prop
  | .insn op, action => action = op.does 0
  | .push value, action =>
      action = .push value ∨ ∃ i, action = .constant i ∧ pool.get i = .ok (.integer value)
  | .localVar op slot, action => action = op.does slot
  | .jump op label, action => ∃ place, target label = some place ∧ action = op.does place
  | .classOperand op name, action => ∃ i, action = op.does i.toNat ∧ pool.NamesClass i name
  | .fieldOperand op ref, action | .methodOperand op ref, action =>
      ∃ i, action = op.does i.toNat ∧ pool.NamesMember i ref
  | .mark _, _ | .line _, _ | .nops _, _ => False

def poolAfter (pool : Pool) : Step → Pool
  | .push value => (Method.pushBytes pool value).2
  | .classOperand _ name => (pool.classRef name).2
  | .fieldOperand _ ref => (pool.field ref).2
  | .methodOperand _ ref => (pool.method ref).2
  | _ => pool

def Reaches (target : Nat → Option Nat) (offset : Nat) : Step → Prop
  | .jump _ label => ∃ place : Nat, target label = some place ∧
      -32768 ≤ (place : Int) - offset ∧ (place : Int) - offset ≤ 32767
  | _ => True

@[simp] theorem length_placed (pool : Pool) (target : Nat → Option Nat) (offset : Nat) (s : Step) :
    (s.placed pool target offset).length = (s.bytes pool).length := by
  cases s <;> rfl

end Step

theorem word_u2 {n : Nat} (small : n < 65536) :
    word (n / 256).toUInt8 n.toUInt8 = n := by
  simp only [word, Nat.toUInt8_eq, UInt8.toNat_ofNat']
  omega

private theorem twosComplement_small {v : Int} (low : -128 ≤ v) (high : v ≤ 127) :
    twosComplement 8 (v % 256).toNat = v := by
  have half : Nat.pow 2 (8 - 1) = 128 := rfl
  have whole : Nat.pow 2 8 = 256 := rfl
  rw [twosComplement, half, whole]
  split <;> omega

private theorem twosComplement_short {v : Int} (low : -32768 ≤ v) (high : v ≤ 32767) :
    twosComplement 16 (v % 65536).toNat = v := by
  have half : Nat.pow 2 (16 - 1) = 32768 := rfl
  have whole : Nat.pow 2 16 = 65536 := rfl
  rw [twosComplement, half, whole]
  split <;> omega

theorem decodeNext_operand (offset : Nat) {op : Opcode} {name : String} {operand : Bytes}
    (info : op.info? = some (name, operand.length)) (narrow : op ≠ .wide) (rest : Bytes) :
    ∃ shorter, decodeNext offset op.byte (operand ++ rest) =
      .ok ({ offset, op, arg := op.argument offset operand, length := 1 + operand.length },
        ⟨rest, shorter⟩) := by
  refine ⟨by simp, ?_⟩
  simp only [decodeNext, narrow, if_false, info]
  simp

theorem decodeNext_wide (offset : Nat) {op : Opcode} (local_ : op.isLocal = true)
    (high low : UInt8) (rest : Bytes) :
    ∃ shorter, decodeNext offset Opcode.wide.byte (op.byte :: high :: low :: rest) =
      .ok ({ offset, op, wide := true, arg := word high low, length := 4 }, ⟨rest, shorter⟩) := by
  refine ⟨by simp; omega, ?_⟩
  have wide : (⟨Opcode.wide.byte⟩ : Opcode) = .wide := rfl
  simp only [decodeNext, wide, if_true]
  simp [local_]

theorem Opcode.branch_form {op : Opcode} (branch : op.isBranch = true) (offset : Nat) :
    op.info?.map Prod.snd = some 2 ∧ op ≠ .wide ∧ ∀ high low,
      op.argument offset [high, low] = (offset : Int) + twosComplement 16 (word high low) := by
  have usual := isBranch_iff.mp branch
  simp only [jumpOpcodes, Cond.all, List.map_cons, List.map_nil, List.cons_append,
    List.nil_append, List.mem_cons, List.not_mem_nil, or_false] at usual
  rcases usual with rfl | rfl | rfl | rfl | rfl | rfl | rfl | rfl | rfl | rfl | rfl | rfl | rfl <;>
    exact ⟨rfl, by decide, fun _ _ => rfl⟩

def Step.Encodes (pool : Pool) (target : Nat → Option Nat) (offset : Nat) (s : Step) (insn : Insn) :
    Prop :=
  insn.offset = offset ∧ insn.length = (s.bytes pool).length ∧
    ∃ first operand, s.placed pool target offset = first :: operand ∧ ∀ rest, ∃ shorter,
      decodeNext offset first (operand ++ rest) = .ok (insn, ⟨rest, shorter⟩)

def Pool.Answered (pool : Pool) (request : Request) (i : UInt16) : Prop := (request.run pool).1 = i

namespace Step

variable {pool : Pool} {target : Nat → Option Nat} {offset : Nat}

/-- A step whose bytes are those of an instruction that it becomes. -/
def Realized (pool : Pool) (target : Nat → Option Nat) (offset : Nat) (s : Step) : Prop :=
  ∃ insn, s.Encodes pool target offset insn ∧ s.Becomes pool.Answered target insn

private theorem realized_operand {s : Step} {op : Opcode} {name : String} {operand : Bytes}
    (placed : s.placed pool target offset = op.byte :: operand)
    (info : op.info? = some (name, operand.length)) (narrow : op ≠ .wide)
    (becomes : ∀ insn : Insn, insn.op = op → insn.arg = op.argument offset operand →
      s.Becomes pool.Answered target insn) :
    s.Realized pool target offset := by
  refine ⟨⟨offset, op, false, op.argument offset operand, 1 + operand.length⟩,
    ⟨rfl, ?_, op.byte, operand, placed, fun rest => ?_⟩, becomes _ rfl rfl⟩
  · have length := length_placed pool target offset s
    rw [placed, List.length_cons] at length
    rw [← length, Nat.add_comm]
  · exact decodeNext_operand offset info narrow rest

private theorem realized_jump {op : Opcode} (branch : op.isBranch = true) {label : Nat}
    (reaches : (Step.jump op label).Reaches target offset) :
    (Step.jump op label).Realized pool target offset := by
  obtain ⟨info, narrow, argument⟩ := Opcode.branch_form branch offset
  obtain ⟨⟨name, _⟩, info, ⟨⟩⟩ := Option.map_eq_some_iff.mp info
  obtain ⟨place, bound, low, high⟩ := reaches
  refine realized_operand rfl info narrow fun insn same arg => ⟨same, place, bound, ?_⟩
  rw [arg, bound, u2, argument, Option.getD_some, word_u2 (by omega), twosComplement_short low high]
  omega

private theorem realized_insn {op : Opcode} (regular : (Step.insn op).Regular) :
    (Step.insn op).Realized pool target offset := by
  obtain ⟨narrow, name, info⟩ := regular
  refine realized_operand rfl info narrow fun insn same arg => ⟨same, arg.trans ?_⟩
  have still : op.isBranch = false := by
    rw [Bool.eq_false_iff]
    intro branch
    have all : ∀ op ∈ jumpOpcodes, (op.info?.map Prod.snd) = some 2 := by decide
    have two := all op (Opcode.isBranch_iff.mp branch)
    rw [info] at two
    cases two
  simp [Opcode.argument, still]

private theorem realized_index {s : Step} {op : Opcode} {i : UInt16}
    (usual : op ∈ [Opcode.ldcW, .new, .getStatic, .invokeVirtual, .invokeSpecial, .invokeStatic])
    (placed : s.placed pool target offset = op.byte :: u2 i.toNat)
    (becomes : ∀ insn : Insn, insn.op = op → insn.arg = i.toNat →
      s.Becomes pool.Answered target insn) : s.Realized pool target offset := by
  have known : op.info?.map Prod.snd = some 2 ∧ op ≠ .wide ∧
      op.argument offset (u2 i.toNat) = (word (i.toNat / 256).toUInt8 i.toNat.toUInt8 : Int) := by
    simp only [List.mem_cons, List.not_mem_nil, or_false] at usual
    rcases usual with rfl | rfl | rfl | rfl | rfl | rfl <;> exact ⟨rfl, by decide, rfl⟩
  obtain ⟨info, narrow, argument⟩ := known
  obtain ⟨⟨name, _⟩, info, ⟨⟩⟩ := Option.map_eq_some_iff.mp info
  refine realized_operand placed info narrow fun insn same arg => becomes insn same ?_
  rw [arg, argument, word_u2 i.toNat_lt]

private theorem iconst_does (offset : Nat) {v : Int} (low : -1 ≤ v) (high : v ≤ 5) :
    (Opcode.mk (3 + v).toNat.toUInt8).info?.map Prod.snd = some 0 ∧
      Opcode.mk (3 + v).toNat.toUInt8 ≠ .wide ∧
      (Opcode.mk (3 + v).toNat.toUInt8).argument offset [] = v ∧
      (Opcode.mk (3 + v).toNat.toUInt8).does v = .push (Int32.ofInt v) := by
  have one : v = -1 ∨ v = 0 ∨ v = 1 ∨ v = 2 ∨ v = 3 ∨ v = 4 ∨ v = 5 := by omega
  rcases one with rfl | rfl | rfl | rfl | rfl | rfl | rfl <;> exact ⟨rfl, by decide, rfl, rfl⟩

/-- What an instruction does follows from its opcode and its argument. -/
theorem action_eq {insn : Insn} {op : Opcode} {arg : Int} (same : insn.op = op)
    (known : insn.arg = arg) : insn.action = op.does arg := by
  subst same known
  rfl

private theorem realized_push (value : Int32) : (Step.push value).Realized pool target offset := by
  have bytes : (Step.push value).placed pool target offset = (Method.pushBytes pool value).1 := rfl
  have back : Int32.ofInt value.toInt = value := Int32.ofInt_toInt value
  simp only [Method.pushBytes] at bytes
  by_cases tiny : -1 ≤ value.toInt ∧ value.toInt ≤ 5
  · rw [if_pos tiny] at bytes
    obtain ⟨info, narrow, argument, does⟩ := iconst_does offset tiny.1 tiny.2
    obtain ⟨⟨name, _⟩, info, ⟨⟩⟩ := Option.map_eq_some_iff.mp info
    refine realized_operand bytes info narrow fun insn same arg => .inl ⟨arg.trans argument, ?_⟩
    exact (action_eq same (arg.trans argument)).trans (does.trans (congrArg Action.push back))
  rw [if_neg tiny] at bytes
  -- The forms with an operand hold the value in two's complement.
  have immediate : ∀ insn : Insn, insn.op = .bipush ∨ insn.op = .sipush → insn.arg = value.toInt →
      (Step.push value).Becomes pool.Answered target insn := by
    intro insn same arg
    refine .inl ⟨arg, ?_⟩
    rcases same with same | same <;> rw [action_eq same arg] <;> exact congrArg Action.push back
  by_cases small : -128 ≤ value.toInt ∧ value.toInt ≤ 127
  · rw [if_pos small] at bytes
    refine realized_operand bytes rfl (by decide) fun insn same arg => immediate insn (.inl same) ?_
    have argument : Opcode.bipush.argument offset [(value.toInt % 256).toNat.toUInt8] =
        twosComplement 8 (value.toInt % 256).toNat.toUInt8.toNat := rfl
    have exact_ : (value.toInt % 256).toNat.toUInt8.toNat = (value.toInt % 256).toNat := by
      simp only [Nat.toUInt8_eq, UInt8.toNat_ofNat']
      omega
    rw [arg, argument, exact_, twosComplement_small small.1 small.2]
  rw [if_neg small] at bytes
  by_cases short : -32768 ≤ value.toInt ∧ value.toInt ≤ 32767
  · rw [if_pos short] at bytes
    refine realized_operand bytes rfl (by decide) fun insn same arg => immediate insn (.inr same) ?_
    have argument : Opcode.sipush.argument offset (u2 (value.toInt % 65536).toNat) =
        twosComplement 16 (word ((value.toInt % 65536).toNat / 256).toUInt8
          (value.toInt % 65536).toNat.toUInt8) := rfl
    rw [arg, argument, word_u2 (by omega), twosComplement_short short.1 short.2]
  rw [if_neg short] at bytes
  -- The value is a constant of the pool.
  have asks : (Step.push value).request? = some (.number value) := if_neg short
  have pooled : ∀ insn : Insn, insn.op = .ldc ∨ insn.op = .ldcW →
      insn.arg = (pool.integer value).1.toNat →
      (Step.push value).Becomes pool.Answered target insn :=
    fun insn same arg => .inr ⟨same, _, _, asks, arg, rfl⟩
  generalize (pool.integer value).1 = i at bytes pooled
  by_cases low : i ≤ 255
  · rw [if_pos low] at bytes
    refine realized_operand bytes rfl (by decide) fun insn same arg => pooled insn (.inl same) ?_
    have argument : Opcode.ldc.argument offset [i.toUInt8] = (i.toUInt8.toNat : Int) := rfl
    have small : i.toUInt8.toNat = i.toNat := by
      rw [UInt16.le_iff_toNat_le] at low
      simp only [UInt16.toNat_toUInt8]
      exact Nat.mod_eq_of_lt (Nat.lt_succ_of_le low)
    rw [arg, argument, small]
  · rw [if_neg low] at bytes
    exact realized_index (by simp) bytes fun insn same arg => pooled insn (.inr same) arg

private theorem short_does (offset : Nat) {op : Opcode} (local_ : op.isLocal = true) {slot : Nat}
    (small : slot < 4) :
    (op.short slot).info?.map Prod.snd = some 0 ∧ op.short slot ≠ .wide ∧
      (op.short slot).argument offset [] = slot ∧ (op.short slot).does slot = op.does slot := by
  have four : slot = 0 ∨ slot = 1 ∨ slot = 2 ∨ slot = 3 := by omega
  rcases Opcode.isLocal_iff.mp local_ with rfl | rfl | rfl | rfl <;>
    rcases four with rfl | rfl | rfl | rfl <;> exact ⟨rfl, by decide, rfl, rfl⟩

private theorem realized_localVar {op : Opcode} {slot : Int} (local_ : op.isLocal = true)
    (low : 0 ≤ slot) (high : slot ≤ 65535) :
    (Step.localVar op slot).Realized pool target offset := by
  obtain ⟨slot, rfl⟩ := Int.eq_ofNat_of_zero_le low
  have bytes : (Step.localVar op slot).placed pool target offset = Method.localBytes op slot := rfl
  rw [Method.localBytes] at bytes
  by_cases tiny : slot < 4
  · rw [if_pos tiny] at bytes
    obtain ⟨info, narrow, argument, does⟩ := short_does offset local_ tiny
    obtain ⟨⟨name, _⟩, info, ⟨⟩⟩ := Option.map_eq_some_iff.mp info
    refine realized_operand bytes info narrow fun insn same arg => ⟨arg.trans argument, ?_⟩
    rw [action_eq same (arg.trans argument), does]
  rw [if_neg tiny] at bytes
  by_cases small : slot ≤ 255
  · rw [if_pos small] at bytes
    have known : op.info?.map Prod.snd = some 1 ∧ op ≠ .wide ∧
        op.argument offset [slot.toUInt8] = (slot.toUInt8.toNat : Int) := by
      rcases Opcode.isLocal_iff.mp local_ with rfl | rfl | rfl | rfl <;> exact ⟨rfl, by decide, rfl⟩
    obtain ⟨info, narrow, argument⟩ := known
    obtain ⟨⟨name, _⟩, info, ⟨⟩⟩ := Option.map_eq_some_iff.mp info
    have exact_ : slot.toUInt8.toNat = slot := by
      simp only [Nat.toUInt8_eq, UInt8.toNat_ofNat']
      omega
    rw [exact_] at argument
    exact realized_operand bytes info narrow fun insn same arg =>
      ⟨arg.trans argument, action_eq same (arg.trans argument)⟩
  · rw [if_neg small] at bytes
    have word_ : word (slot / 256).toUInt8 slot.toUInt8 = slot := word_u2 (by omega)
    have length := length_placed pool target offset (.localVar op slot)
    refine ⟨⟨offset, op, true, word (slot / 256).toUInt8 slot.toUInt8, 4⟩,
      ⟨rfl, ?_, _, _, bytes, decodeNext_wide offset local_ (slot / 256).toUInt8 slot.toUInt8⟩,
      congrArg Int.ofNat word_, ?_⟩
    · rw [← length, bytes]
      rfl
    · rw [word_]
      rfl

/-- Every step of one instruction is encoded as an instruction that it may become. -/
theorem realized {s : Step} (regular : s.Regular) (one : s.size = 1)
    (reaches : s.Reaches target offset) : s.Realized pool target offset := by
  cases s with
  | insn op => exact realized_insn regular
  | push value => exact realized_push value
  | localVar op slot => exact realized_localVar regular.1 regular.2.1 regular.2.2
  | jump op label => exact realized_jump regular reaches
  | classOperand op name =>
    cases regular
    exact realized_index (by simp) rfl fun insn same arg => ⟨same, _, _, rfl, arg, rfl⟩
  | fieldOperand op ref =>
    cases regular
    exact realized_index (by simp) rfl fun insn same arg => ⟨same, _, _, rfl, arg, rfl⟩
  | methodOperand op ref =>
    refine realized_index ?_ rfl fun insn same arg => ⟨same, _, _, rfl, arg, rfl⟩
    rcases regular with rfl | rfl | rfl <;> simp
  | mark label | line number => cases one
  | nops count => exact regular.elim

theorem Usual.regular {s : Step} (usual : s.Usual) : s.Regular := by
  cases s with
  | insn op =>
    have all : ∀ op ∈ plainOpcodes, op ≠ .wide ∧ op.info?.map Prod.snd = some 0 := by decide
    obtain ⟨narrow, info⟩ := all op usual
    obtain ⟨⟨name, _⟩, info, ⟨⟩⟩ := Option.map_eq_some_iff.mp info
    exact ⟨narrow, name, info⟩
  | jump op label => exact Opcode.isBranch_iff.mpr usual
  | methodOperand op ref => exact usual.imp_right .inl
  | push | localVar | mark | classOperand | fieldOperand | line | nops => exact usual

private theorem pushBytes_short (pool : Pool) {value : Int32}
    (short : -32768 ≤ value.toInt ∧ value.toInt ≤ 32767) :
    (Method.pushBytes pool value).2 = pool := by
  unfold Method.pushBytes
  simp only [short, and_self, if_true]
  split
  · rfl
  · split <;> rfl

theorem pushBytes_long (pool : Pool) {value : Int32}
    (long : ¬ (-32768 ≤ value.toInt ∧ value.toInt ≤ 32767)) :
    (Method.pushBytes pool value).2 = (pool.integer value).2 ∧
      2 ≤ (Method.pushBytes pool value).1.length := by
  have tiny : ¬ (-1 ≤ value.toInt ∧ value.toInt ≤ 5) := by omega
  have small : ¬ (-128 ≤ value.toInt ∧ value.toInt ≤ 127) := by omega
  unfold Method.pushBytes
  simp only [tiny, small, long, if_false]
  split <;> simp [u2]

theorem poolAfter_eq (pool : Pool) (s : Step) :
    s.poolAfter pool = ((s.request?.map fun r => (r.run pool).2).getD pool) := by
  cases s with
  | push value =>
    rw [request?, number?, poolAfter]
    split
    next short => exact pushBytes_short pool short
    next long => exact (pushBytes_long pool long).1
  | insn | localVar | jump | mark | classOperand | fieldOperand | methodOperand | line | nops => rfl

private theorem interned {s : Step} (kept : s.poolAfter pool = pool) {request : Request} {i : UInt16}
    (asks : s.request? = some request) (answered : pool.Answered request i) :
    request.run pool = (i, pool) := by
  rw [poolAfter_eq, asks] at kept
  exact Prod.ext answered kept

/-- The instruction of a usual step means the step in a pool that has its operand. -/
theorem Becomes.means (sound : pool.Sound) (fits : pool.overflowed = false) {s : Step} {insn : Insn}
    (usual : s.Usual) (kept : s.poolAfter pool = pool)
    (becomes : s.Becomes pool.Answered target insn) : s.Means pool target insn.action := by
  cases s with
  | insn op =>
    have all : ∀ op ∈ plainOpcodes, op.argument 0 [] = 0 := by decide
    rw [Means, action_eq becomes.1 becomes.2, all op usual]
  | push value =>
    rcases becomes with ⟨-, does⟩ | ⟨same, request, i, asks, arg, answered⟩
    · exact .inl does
    · have found := interned kept asks answered
      rw [request?, number?] at asks
      split at asks <;> cases asks
      have back : i.toNat.toUInt16 = i := by simp
      have does : insn.action = .constant i := by
        rcases same with same | same <;> rw [action_eq same arg] <;>
          exact congrArg Action.constant back
      exact .inr ⟨i, does, Pool.get_of_intern sound fits found⟩
  | localVar op slot => exact becomes.2
  | jump op label =>
    obtain ⟨same, place, bound, arg⟩ := becomes
    exact ⟨place, bound, action_eq same arg⟩
  | classOperand op name =>
    obtain ⟨same, request, i, asks, arg, answered⟩ := becomes
    have found := interned kept asks answered
    cases asks
    exact ⟨i, action_eq same arg, Pool.names_of_classRef sound fits found⟩
  | fieldOperand op ref =>
    obtain ⟨same, request, i, asks, arg, answered⟩ := becomes
    have found := interned kept asks answered
    cases asks
    rw [Request.run, Pool.field_eq] at found
    exact ⟨i, action_eq same arg, Pool.names_of_memberRef sound fits (.inl rfl) found⟩
  | methodOperand op ref =>
    obtain ⟨same, request, i, asks, arg, answered⟩ := becomes
    have found := interned kept asks answered
    cases asks
    rw [Request.run, Pool.method_eq] at found
    exact ⟨i, action_eq same arg, Pool.names_of_memberRef sound fits (.inr rfl) found⟩
  | mark | line | nops => exact becomes.elim

end Step

end Minilang.ClassFile
