import Minilang.Proofs.Results
import Minilang.Proofs.ValidText

/-! The string encoding of class files. A well-formed text survives being written and read, and is
written without a zero byte. Any bytes can be read: by position, no byte outside of them is ever
asked for, and each turn leaves at least one byte behind. -/

namespace Minilang.ClassFile.ModifiedUtf8

private theorem toUInt8_ne_zero {n : Nat} (positive : 0 < n) (small : n < 256) :
    (0 : UInt8) ≠ n.toUInt8 := by
  intro same
  have value := toNat_toUInt8 small
  rw [← same] at value
  change 0 = n at value
  omega

theorem zero_notMem_encodeUnit {unit : Nat} (small : unit < 0x10000) : 0 ∉ encodeUnit unit := by
  unfold encodeUnit
  split
  · simpa using toUInt8_ne_zero (n := unit) (by omega) (by omega)
  split
  · have first := toUInt8_ne_zero (n := 0xC0 + unit / 0x40) (by omega) (by omega)
    have last := toUInt8_ne_zero (n := 0x80 + unit % 0x40) (by omega) (by omega)
    simp only [List.mem_cons, List.not_mem_nil, or_false, not_or]
    exact ⟨first, last⟩
  · have first := toUInt8_ne_zero (n := 0xE0 + unit / 0x1000) (by omega) (by omega)
    have second := toUInt8_ne_zero (n := 0x80 + unit / 0x40 % 0x40) (by omega) (by omega)
    have last := toUInt8_ne_zero (n := 0x80 + unit % 0x40) (by omega) (by omega)
    simp only [List.mem_cons, List.not_mem_nil, or_false, not_or]
    exact ⟨first, second, last⟩

theorem zero_notMem_encode {text : Bytes} (valid : Utf8.isValid text = true) :
    0 ∉ encode text := by
  obtain ⟨list, scalars, rfl⟩ := Utf8.isValid_iff.mp valid
  rw [encode, Utf8.codes_ofCodes scalars]
  intro zero
  obtain ⟨unit, member, inside⟩ := List.mem_flatMap.mp zero
  obtain ⟨code, present, part⟩ := List.mem_flatMap.mp member
  exact zero_notMem_encodeUnit (units_small (scalars code present) unit part) inside

theorem encode_injective : Set.InjOn encode {text | Utf8.isValid text = true} := by
  intro first valid second alsoValid same
  rw [← decode_encode valid, same, decode_encode alsoValid]

inductive ReadFault where
  | outside (position : Nat)
  | unfinished
  deriving DecidableEq, Repr

def byteAt (bytes : Bytes) (position : Nat) : Except ReadFault UInt8 :=
  match bytes[position]? with
  | some byte => .ok byte
  | none => .error (.outside position)

/-- The unit whose form starts at a position, and the position behind that form. -/
def unitAt (bytes : Bytes) (position : Nat) : Except ReadFault (Nat × Nat) := do
  let a ← byteAt bytes position
  if a < 0x80 then return (a.toNat, position + 1)
  else if a &&& 0xE0 = 0xC0 ∧ position + 1 < bytes.length then
    let b ← byteAt bytes (position + 1)
    return ((a &&& 0x1F).toNat * 0x40 + (b &&& 0x3F).toNat, position + 2)
  else if a &&& 0xF0 = 0xE0 ∧ position + 2 < bytes.length then
    let b ← byteAt bytes (position + 1)
    let c ← byteAt bytes (position + 2)
    return ((a &&& 0x0F).toNat * 0x1000 + (b &&& 0x3F).toNat * 0x40 + (c &&& 0x3F).toNat,
      position + 3)
  else return (Utf8.replacement, position + 1)

def unitsFrom (bytes : Bytes) : Nat → Nat → Except ReadFault (List Nat)
  | 0, position => if position < bytes.length then .error .unfinished else .ok []
  | turns + 1, position =>
      if position < bytes.length then do
        let (unit, next) ← unitAt bytes position
        let units ← unitsFrom bytes turns next
        return unit :: units
      else .ok []

theorem byteAt_inside {bytes : Bytes} {position : Nat} (inside : position < bytes.length) :
    byteAt bytes position = .ok bytes[position] := by
  rw [byteAt, List.getElem?_eq_getElem inside]

theorem decodeUnits_alone {a : UInt8} {rest : Bytes} (high : ¬ a < 0x80)
    (two : ¬ (a &&& 0xE0 = 0xC0 ∧ 0 < rest.length))
    (three : ¬ (a &&& 0xF0 = 0xE0 ∧ 1 < rest.length)) :
    decodeUnits (a :: rest) = Utf8.replacement :: decodeUnits rest := by
  match rest with
  | [] => simp [decodeUnits, high]
  | [b] =>
    have notTwo : ¬ a &&& 0xE0 = 0xC0 := fun lead => two ⟨lead, Nat.one_pos⟩
    simp [decodeUnits, high, notTwo]
  | b :: c :: rest =>
    have notTwo : ¬ a &&& 0xE0 = 0xC0 := fun lead => two ⟨lead, by simp⟩
    have notThree : ¬ a &&& 0xF0 = 0xE0 := fun lead => three ⟨lead, by simp⟩
    rw [decodeUnits, if_neg high, if_neg notTwo, if_neg notThree]

/-- A turn stays inside, goes on by at least one byte, and reads what the text reads there. -/
theorem unitAt_inside {bytes : Bytes} {position : Nat} (inside : position < bytes.length) :
    ∃ unit next, unitAt bytes position = .ok (unit, next) ∧ position < next ∧
      next ≤ bytes.length ∧
      decodeUnits (bytes.drop position) = unit :: decodeUnits (bytes.drop next) := by
  have first := List.drop_eq_getElem_cons inside
  rw [unitAt, byteAt_inside inside, ok_bind]
  split
  next low =>
    exact ⟨_, _, rfl, by omega, by omega, by rw [first, decodeUnits_one low]⟩
  next high =>
  split
  next two =>
    have second := List.drop_eq_getElem_cons two.2
    rw [byteAt_inside two.2, ok_bind]
    exact ⟨_, _, rfl, by omega, by omega, by rw [first, second, decodeUnits_two high two.1]⟩
  next notTwo =>
  split
  next three =>
    have middle : position + 1 < bytes.length := by omega
    have second := List.drop_eq_getElem_cons middle
    have third := List.drop_eq_getElem_cons three.2
    rw [byteAt_inside middle, ok_bind, byteAt_inside three.2, ok_bind]
    have notLead : ¬ bytes[position] &&& 0xE0 = 0xC0 := fun lead => notTwo ⟨lead, middle⟩
    refine ⟨_, _, rfl, by omega, by omega, ?_⟩
    rw [first, second, third, decodeUnits, if_neg high, if_neg notLead, if_pos three.1]
  next notThree =>
    refine ⟨_, _, rfl, by omega, by omega, ?_⟩
    have left : (bytes.drop (position + 1)).length = bytes.length - (position + 1) :=
      List.length_drop
    rw [first, decodeUnits_alone high]
    · rintro ⟨lead, room⟩
      exact notTwo ⟨lead, by omega⟩
    · rintro ⟨lead, room⟩
      exact notThree ⟨lead, by omega⟩

/-- As many turns as there are bytes are enough, and each of them succeeds. -/
theorem unitsFrom_inside {bytes : Bytes} {turns position : Nat}
    (enough : bytes.length ≤ position + turns) :
    unitsFrom bytes turns position = .ok (decodeUnits (bytes.drop position)) := by
  induction turns generalizing position with
  | zero =>
    rw [unitsFrom, if_neg (by omega), List.drop_eq_nil_of_le (by omega), decodeUnits]
  | succ turns ih =>
    rw [unitsFrom]
    split
    next inside =>
      obtain ⟨unit, next, read, onward, -, decoded⟩ := unitAt_inside inside
      simp only [read, ok_bind, ih (show bytes.length ≤ next + turns by omega), decoded]
      rfl
    next beyond => rw [List.drop_eq_nil_of_le (by omega), decodeUnits]

/-- Well-formed texts survive being written and read, are written without a zero byte, and are
written alike only when they are the same. Reading ends on any bytes, truncated or not, after at
most as many turns as there are bytes, and asks for none outside. -/
theorem encoding_is_faithful (text bytes : Bytes) :
    (Utf8.isValid text = true → decode (encode text) = text ∧ 0 ∉ encode text) ∧
    Set.InjOn encode {text | Utf8.isValid text = true} ∧
    ∃ units, unitsFrom bytes bytes.length 0 = .ok units ∧
      decode bytes = Utf8.ofCodes (joinUnits units) :=
  ⟨fun valid => ⟨decode_encode valid, zero_notMem_encode valid⟩, encode_injective,
    decodeUnits bytes, unitsFrom_inside (by omega), rfl⟩

theorem four_forms_are_faithful :
    let text : Bytes := [0x61, 0x00, 0xC3, 0xA9, 0xE2, 0x82, 0xAC, 0xF0, 0x9F, 0x98, 0x80]
    let bytes : Bytes := [0x61, 0xE2, 0x82]
    Utf8.isValid text = true ∧ decode (encode text) = text ∧ 0 ∉ encode text ∧
      (∃ units, unitsFrom bytes bytes.length 0 = .ok units) ∧
      decode bytes = [0x61, 0xEF, 0xBF, 0xBD, 0xEF, 0xBF, 0xBD] := by
  intro text bytes
  have valid : Utf8.isValid text = true := by decide +kernel
  obtain ⟨survives, -, units, read, -⟩ := encoding_is_faithful text bytes
  exact ⟨valid, (survives valid).1, (survives valid).2, ⟨units, read⟩, by decide +kernel⟩

end Minilang.ClassFile.ModifiedUtf8
