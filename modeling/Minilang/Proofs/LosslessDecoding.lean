import Minilang.Proofs.Decoding
import Minilang.Proofs.PlainText
import Minilang.Proofs.StepEncoding

/-! Decoding loses nothing. In whatever form the argument of an instruction was brought, the bytes
it was read from can be written back. So code is the concatenation of its instructions, no two
codes decode alike, and code is refused exactly where the scan from its start comes to something
that is no instruction. -/

namespace Minilang.ClassFile

/-- The bytes of one supported instruction. -/
inductive IsInsn : Bytes → Prop where
  | plain {op : Opcode} {name : String} {operand : Bytes}
      (known : op.info? = some (name, operand.length)) (narrow : op ≠ .wide) :
      IsInsn (op.byte :: operand)
  | widened {op : Opcode} (moves : op.isLocal = true) (high low : UInt8) :
      IsInsn [Opcode.wide.byte, op.byte, high, low]

/-- What a scan finds at an offset where no instruction stands. -/
inductive DecodeFault.Arises (offset : Nat) : Bytes → DecodeFault → Prop where
  | unsupported {op : Opcode} {rest : Bytes} (unknown : op.info? = none) :
      Arises offset (op.byte :: rest) (.unsupported offset op)
  | truncated {op : Opcode} {name : String} {operands : Nat} {rest : Bytes}
      (known : op.info? = some (name, operands)) (narrow : op ≠ .wide)
      (short : rest.length < operands) : Arises offset (op.byte :: rest) (.truncated offset op)
  | unsupportedWide {op : Opcode} {high low : UInt8} {rest : Bytes} (fixed : op.isLocal = false) :
      Arises offset (Opcode.wide.byte :: op.byte :: high :: low :: rest)
        (.unsupportedWide offset op)
  | truncatedWide {rest : Bytes} (short : rest.length < 3) :
      Arises offset (Opcode.wide.byte :: rest) (.truncatedWide offset)

/-- The opcodes with an operand of one byte. -/
def byteOpcodes : List Opcode := [.bipush, .ldc, .iload, .aload, .istore, .astore]

/-- The opcodes whose operand is an index of two bytes. -/
def indexOpcodes : List Opcode :=
  [.ldcW, .getStatic, .invokeVirtual, .invokeSpecial, .invokeStatic, .new]

theorem Opcode.info?_operands {op : Opcode} {name : String} {operands : Nat}
    (known : op.info? = some (name, operands)) :
    operands = 0 ∨ operands = 1 ∧ op ∈ byteOpcodes ∨
      operands = 2 ∧ (op = .sipush ∨ op ∈ indexOpcodes ∨ op ∈ jumpOpcodes) := by
  have all : ∀ b, ((Opcode.mk b).info?.map Prod.snd).all fun operands =>
      operands = 0 ∨ operands = 1 ∧ Opcode.mk b ∈ byteOpcodes ∨
        operands = 2 ∧ (Opcode.mk b = .sipush ∨ Opcode.mk b ∈ indexOpcodes ∨
          Opcode.mk b ∈ jumpOpcodes) := Bytes.forall_byte (by decide +kernel)
  have here := all op.byte
  rw [show Opcode.mk op.byte = op from rfl, known] at here
  simpa using here

/-- The last bytes of a number, the high ones first. -/
def lastBytes : Nat → Int → Bytes
  | 0, _ => []
  | count + 1, n => lastBytes count (n / 256) ++ [(n % 256).toNat.toUInt8]

theorem lastBytes_one {n : Int} {b : UInt8} (same : n % 256 = b.toNat) : lastBytes 1 n = [b] := by
  rw [lastBytes, lastBytes, same, Int.toNat_natCast, Nat.toUInt8_eq, UInt8.ofNat_toNat,
    List.nil_append]

theorem lastBytes_two {n : Int} {high low : UInt8} (same : n % 65536 = word high low) :
    lastBytes 2 n = [high, low] := by
  have := low.toNat_lt
  have first : n / 256 % 256 = high.toNat := by
    rw [word] at same
    omega
  have last : n % 256 = low.toNat := by
    rw [word] at same
    omega
  rw [lastBytes, lastBytes_one first, last, Int.toNat_natCast, Nat.toUInt8_eq, UInt8.ofNat_toNat,
    List.cons_append, List.nil_append]

theorem word_lt (high low : UInt8) : word high low < 65536 := by
  have := high.toNat_lt
  have := low.toNat_lt
  rw [word]
  omega

private theorem twosComplement_byte (b : UInt8) : twosComplement 8 b.toNat % 256 = b.toNat := by
  have := b.toNat_lt
  have half : Nat.pow 2 (8 - 1) = 128 := rfl
  have whole : Nat.pow 2 8 = 256 := rfl
  rw [twosComplement, half, whole]
  split <;> omega

private theorem twosComplement_word (high low : UInt8) :
    twosComplement 16 (word high low) % 65536 = word high low := by
  have := word_lt high low
  have half : Nat.pow 2 (16 - 1) = 32768 := rfl
  have whole : Nat.pow 2 16 = 65536 := rfl
  rw [twosComplement, half, whole]
  split <;> omega

/-- What an argument counts from. -/
def Opcode.base (op : Opcode) (offset : Nat) : Int := if op.isBranch then offset else 0

/-- An argument keeps the bytes of the operand, behind what it counts from. -/
theorem Opcode.lastBytes_argument {op : Opcode} {name : String} {operand : Bytes}
    (known : op.info? = some (name, operand.length)) (offset : Nat) :
    lastBytes operand.length (op.argument offset operand - op.base offset) = operand := by
  rcases info?_operands known with none | ⟨one, usual⟩ | ⟨two, usual⟩
  · obtain rfl := List.eq_nil_of_length_eq_zero none
    rfl
  · obtain ⟨b, rfl⟩ := List.length_eq_one_iff.mp one
    refine lastBytes_one ?_
    have forms : op.base offset = 0 ∧ (op.argument offset [b] = twosComplement 8 b.toNat ∨
        op.argument offset [b] = b.toNat) := by
      simp only [byteOpcodes, List.mem_cons, List.not_mem_nil, or_false] at usual
      rcases usual with rfl | rfl | rfl | rfl | rfl | rfl
      · exact ⟨rfl, .inl rfl⟩
      all_goals exact ⟨rfl, .inr rfl⟩
    have small := b.toNat_lt
    rcases forms with ⟨still, signed | plain⟩
    · rw [still, signed, Int.sub_zero, twosComplement_byte]
    · rw [still, plain]
      omega
  · obtain ⟨high, low, rfl⟩ : ∃ high low, operand = [high, low] := by
      match operand, two with
      | [high, low], _ => exact ⟨high, low, rfl⟩
    refine lastBytes_two ?_
    have forms : op.argument offset [high, low] - op.base offset =
        twosComplement 16 (word high low) ∨
        op.argument offset [high, low] - op.base offset = word high low := by
      rcases usual with rfl | index | jump
      · exact .inl (Int.sub_zero _)
      · simp only [indexOpcodes, List.mem_cons, List.not_mem_nil, or_false] at index
        rcases index with rfl | rfl | rfl | rfl | rfl | rfl <;> exact .inr (Int.sub_zero _)
      · have branch := isBranch_iff.mpr jump
        have relative := (branch_form branch offset).2.2 high low
        rw [relative, base, if_pos branch]
        omega
    have small := word_lt high low
    rcases forms with signed | plain
    · rw [signed, twosComplement_word]
    · rw [plain]
      omega

/-- What an instruction was read from. -/
def Insn.bytes (insn : Insn) : Bytes :=
  if insn.wide then Opcode.wide.byte :: insn.op.byte :: lastBytes 2 insn.arg
  else insn.op.byte :: lastBytes (insn.length - 1) (insn.arg - insn.op.base insn.offset)

theorem decodeNext_bytes {offset : Nat} {first : UInt8} {rest : Bytes} {insn : Insn}
    {tail : { tail : Bytes // tail.length ≤ rest.length }}
    (decoded : decodeNext offset first rest = .ok (insn, tail)) :
    IsInsn insn.bytes ∧ first :: rest = insn.bytes ++ tail.val := by
  by_cases wide : (⟨first⟩ : Opcode) = .wide
  · obtain rfl : first = Opcode.wide.byte := congrArg Opcode.byte wide
    simp only [decodeNext, wide, if_true] at decoded
    split at decoded
    next second high low tail =>
      split at decoded
      next moves =>
        cases decoded
        have kept : lastBytes 2 (word high low : Int) = [high, low] := by
          have := word_lt high low
          exact lastBytes_two (by omega)
        simp only [Insn.bytes, if_true, kept]
        exact ⟨.widened moves high low, rfl⟩
      · cases decoded
    · cases decoded
  · simp only [decodeNext, wide, if_false] at decoded
    split at decoded
    · cases decoded
    next name operands known =>
      split at decoded
      · cases decoded
      next enough =>
        cases decoded
        have length : (rest.take operands).length = operands := by
          rw [List.length_take] at enough ⊢
          omega
        have known : Opcode.info? ⟨first⟩ = some (name, (rest.take operands).length) := by
          rw [length, known]
        have kept := Opcode.lastBytes_argument known offset
        rw [length] at kept
        simp only [Insn.bytes, Bool.false_eq_true, if_false, Nat.add_sub_cancel_left, kept,
          List.cons_append, List.take_append_drop, and_true]
        exact .plain known wide

/-- An instruction is read whole, whatever follows. -/
theorem IsInsn.decodeNext {bytes : Bytes} (piece : IsInsn bytes) (offset : Nat) (rest : Bytes) :
    ∃ first operand insn shorter, bytes = first :: operand ∧ insn.length = bytes.length ∧
      decodeNext offset first (operand ++ rest) = .ok (insn, ⟨rest, shorter⟩) := by
  cases piece with
  | plain known narrow =>
    obtain ⟨shorter, next⟩ := decodeNext_operand offset known narrow rest
    exact ⟨_, _, _, shorter, rfl, Nat.add_comm _ _, next⟩
  | widened moves high low =>
    obtain ⟨shorter, next⟩ := decodeNext_wide offset moves high low rest
    exact ⟨_, _, _, shorter, rfl, rfl, next⟩

theorem decodeNext_error_iff {offset : Nat} {first : UInt8} {rest : Bytes} {fault : DecodeFault} :
    decodeNext offset first rest = .error fault ↔ fault.Arises offset (first :: rest) := by
  constructor
  · intro failed
    by_cases wide : (⟨first⟩ : Opcode) = .wide
    · obtain rfl : first = Opcode.wide.byte := congrArg Opcode.byte wide
      simp only [decodeNext, wide, if_true] at failed
      split at failed
      next second high low tail =>
        split at failed
        · cases failed
        next fixed =>
          cases failed
          exact .unsupportedWide (show (⟨second⟩ : Opcode).isLocal = false by simpa using fixed)
      next short =>
        cases failed
        refine .truncatedWide (Nat.not_le.mp fun enough => ?_)
        rcases rest with _ | ⟨second, _ | ⟨high, _ | ⟨low, tail⟩⟩⟩
        case cons.cons.cons => exact short second high low tail rfl
        all_goals exact absurd enough (by simp)
    · simp only [decodeNext, wide, if_false] at failed
      split at failed
      next unknown =>
        cases failed
        exact .unsupported (show (⟨first⟩ : Opcode).info? = none from unknown)
      next name operands known =>
        split at failed
        next short =>
          cases failed
          rw [List.length_take] at short
          exact .truncated (show (⟨first⟩ : Opcode).info? = _ from known) wide (by omega)
        · cases failed
  · intro arises
    cases arises with
    | @unsupported op _ unknown =>
      have narrow : op ≠ .wide := by
        rintro rfl
        cases unknown
      simp only [decodeNext, narrow, if_false, unknown]
    | @truncated op name operands _ known narrow short =>
      simp only [decodeNext, narrow, if_false, known]
      rw [if_pos (by rw [List.length_take]; omega)]
    | unsupportedWide fixed =>
      simp only [decodeNext, show (⟨Opcode.wide.byte⟩ : Opcode) = .wide from rfl, if_true]
      simp [fixed]
    | truncatedWide short =>
      simp only [decodeNext, show (⟨Opcode.wide.byte⟩ : Opcode) = .wide from rfl, if_true]
      rcases rest with _ | ⟨second, _ | ⟨high, _ | ⟨low, tail⟩⟩⟩
      case cons.cons.cons => exact absurd short (Nat.not_lt.mpr (Nat.le_add_left 3 _))
      all_goals rfl

theorem decodeLoop_bytes {offset : Nat} {code : Bytes} {done insns : Array Insn}
    (decoded : decodeLoop offset code done = .ok insns) :
    ∃ list, insns.toList = done.toList ++ list ∧ (∀ insn ∈ list, IsInsn insn.bytes) ∧
      code = list.flatMap Insn.bytes := by
  fun_induction decodeLoop offset code done with
  | case1 => cases decoded; exact ⟨[], by simp, List.forall_mem_nil _, rfl⟩
  | case2 => cases decoded
  | case3 offset done first rest insn tail shorter next ih =>
    obtain ⟨list, whole, pieces, rfl⟩ := ih decoded
    obtain ⟨piece, read⟩ := decodeNext_bytes next
    exact ⟨insn :: list, by simp [whole], List.forall_mem_cons.mpr ⟨piece, pieces⟩, read⟩

/-- The scan passes over instructions, whatever follows them. -/
theorem decodeLoop_scanned {read : List Bytes} (pieces : ∀ piece ∈ read, IsInsn piece)
    (offset : Nat) (rest : Bytes) (done : Array Insn) :
    ∃ passed, decodeLoop offset (read.flatten ++ rest) done =
      decodeLoop (offset + read.flatten.length) rest passed := by
  induction read generalizing offset done with
  | nil => exact ⟨done, rfl⟩
  | cons piece read ih =>
    obtain ⟨here, later⟩ := List.forall_mem_cons.mp pieces
    obtain ⟨first, operand, insn, shorter, rfl, length, next⟩ :=
      here.decodeNext offset (read.flatten ++ rest)
    obtain ⟨passed, loop⟩ := ih later (offset + insn.length) (done.push insn)
    refine ⟨passed, ?_⟩
    rw [List.flatten_cons, List.append_assoc, List.cons_append, decodeLoop, next]
    simp only
    rw [loop, length, List.length_append, Nat.add_assoc]

theorem decodeLoop_error {offset : Nat} {code : Bytes} {done : Array Insn} {fault : DecodeFault}
    (failed : decodeLoop offset code done = .error fault) :
    ∃ (read : List Bytes) (rest : Bytes), (∀ piece ∈ read, IsInsn piece) ∧
      code = read.flatten ++ rest ∧ fault.Arises (offset + read.flatten.length) rest := by
  fun_induction decodeLoop offset code done with
  | case1 => cases failed
  | case2 offset done first rest found next =>
    cases failed
    exact ⟨[], first :: rest, List.forall_mem_nil _, rfl, decodeNext_error_iff.mp next⟩
  | case3 offset done first rest insn tail shorter next ih =>
    obtain ⟨read, behind, pieces, rfl, arises⟩ := ih failed
    obtain ⟨piece, whole⟩ := decodeNext_bytes next
    obtain ⟨-, -, length⟩ := decodeNext_tiles next
    have total : insn.bytes.length = insn.length := by
      have sizes := congrArg List.length whole
      rw [List.length_append, List.length_cons] at sizes
      omega
    refine ⟨insn.bytes :: read, behind, List.forall_mem_cons.mpr ⟨piece, pieces⟩, ?_, ?_⟩
    · rw [whole, List.flatten_cons, List.append_assoc]
    · rwa [List.flatten_cons, List.length_append, total, ← Nat.add_assoc]

/-- The instructions of decoded code write it back. -/
theorem decode_bytes {code : Bytes} {insns : Array Insn} (decoded : decode code = .ok insns) :
    (∀ insn ∈ insns.toList, IsInsn insn.bytes) ∧ code = insns.toList.flatMap Insn.bytes := by
  obtain ⟨list, whole, pieces, same⟩ := decodeLoop_bytes decoded
  rw [List.nil_append] at whole
  exact ⟨whole ▸ pieces, whole ▸ same⟩

/-- Decoding always ends, and nothing is lost by it. The instructions of decoded code follow each
other from its start to its end without gap or overlap, and no other code decodes to them. Code
decodes exactly if it is made of instructions; otherwise the fault is what the scan from the start
meets behind the instructions that it has passed: an unknown opcode, a wide form without support,
or an instruction that does not fit into what remains. -/
theorem decode_lossless (code : Bytes) :
    (∀ insns, decode code = .ok insns → Tiles 0 insns.toList code.length ∧
      ∀ other, decode other = .ok insns → other = code) ∧
    ((∃ insns, decode code = .ok insns) ↔
      ∃ read : List Bytes, (∀ piece ∈ read, IsInsn piece) ∧ code = read.flatten) ∧
    ∀ fault, decode code = .error fault ↔ ∃ (read : List Bytes) (rest : Bytes),
      (∀ piece ∈ read, IsInsn piece) ∧ code = read.flatten ++ rest ∧
        fault.Arises read.flatten.length rest := by
  refine ⟨fun insns decoded => ⟨decode_tiles decoded, fun other same => ?_⟩, ⟨?_, ?_⟩,
    fun fault => ⟨fun failed => ?_, ?_⟩⟩
  · exact (decode_bytes same).2.trans (decode_bytes decoded).2.symm
  · rintro ⟨insns, decoded⟩
    obtain ⟨pieces, same⟩ := decode_bytes decoded
    refine ⟨insns.toList.map Insn.bytes, ?_, same.trans List.flatMap_def⟩
    simpa using pieces
  · rintro ⟨read, pieces, rfl⟩
    obtain ⟨passed, loop⟩ := decodeLoop_scanned pieces 0 [] #[]
    rw [List.append_nil] at loop
    exact ⟨passed, loop.trans (by rw [decodeLoop])⟩
  · obtain ⟨read, rest, pieces, same, arises⟩ := decodeLoop_error failed
    exact ⟨read, rest, pieces, same, by rwa [Nat.zero_add] at arises⟩
  · rintro ⟨read, rest, pieces, rfl, arises⟩
    obtain ⟨passed, loop⟩ := decodeLoop_scanned pieces 0 rest #[]
    rw [Nat.zero_add] at loop
    rw [decode, loop]
    cases rest with
    | nil => cases arises
    | cons first rest => rw [decodeLoop, decodeNext_error_iff.mpr arises]

/-- A load, a widened store, a push of a negative number and a jump back. -/
def mixedCode : Bytes := [0x1b, 0xc4, 0x36, 0x01, 0x00, 0x10, 0xfe, 0xa7, 0xff, 0xf9]

theorem mixedCode_is_lossless :
    (∃ insns, decode mixedCode = .ok insns ∧ Tiles 0 insns.toList 10 ∧
      ∀ other, decode other = .ok insns → other = mixedCode) ∧
    decode (mixedCode.take 3) = .error (.truncatedWide 1) := by
  have load : IsInsn [(⟨0x1b⟩ : Opcode).byte] := .plain rfl (by decide)
  have store : IsInsn [Opcode.wide.byte, Opcode.istore.byte, 0x01, 0x00] := .widened rfl 1 0
  have push : IsInsn [Opcode.bipush.byte, 0xfe] := .plain rfl (by decide)
  have back : IsInsn [Opcode.goto.byte, 0xff, 0xf9] := .plain rfl (by decide)
  obtain ⟨kept, complete, -⟩ := decode_lossless mixedCode
  obtain ⟨insns, decoded⟩ := complete.mpr
    ⟨[[0x1b], [0xc4, 0x36, 0x01, 0x00], [0x10, 0xfe], [0xa7, 0xff, 0xf9]], by
      simp only [List.forall_mem_cons, load, true_and]
      exact ⟨store, push, back, nofun⟩, rfl⟩
  exact ⟨⟨insns, decoded, kept insns decoded⟩,
    ((decode_lossless (mixedCode.take 3)).2.2 _).mpr
      ⟨[[0x1b]], [0xc4, 0x36], by simpa using load, rfl, .truncatedWide (by decide)⟩⟩

end Minilang.ClassFile
