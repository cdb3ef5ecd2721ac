import Minilang.Proofs.ClassReading
import Minilang.Proofs.Results

/-! The types that descriptors name. A class named in a descriptor is a part of its text, cut out
next to ASCII bytes, so that it can be stored wherever the descriptor can. -/

namespace Minilang.ClassFile

/-- A text that class files can hold: well-formed and not too long. -/
structure Encodable (text : Bytes) : Prop where
  valid : Utf8.isValid text = true
  short : (ModifiedUtf8.encode text).length ≤ 65535

instance (text : Bytes) : Decidable (Encodable text) :=
  decidable_of_iff (Utf8.isValid text = true ∧ (ModifiedUtf8.encode text).length ≤ 65535)
    ⟨fun ⟨valid, short⟩ => ⟨valid, short⟩, fun ⟨valid, short⟩ => ⟨valid, short⟩⟩

namespace Encodable

theorem repair {text : Bytes} (encodable : Encodable text) : repair text = text :=
  repair_of_valid encodable.valid

theorem cut {before behind : Bytes} {b : UInt8} (ascii : b.toNat < 0x80)
    (whole : Encodable (before ++ b :: behind)) :
    Encodable before ∧ Encodable (b :: behind) := by
  obtain ⟨first, second⟩ := Utf8.isValid_cut ascii whole.valid
  have length := whole.short
  rw [ModifiedUtf8.encode_append first, List.length_append] at length
  exact ⟨⟨first, by omega⟩, ⟨second, by omega⟩⟩

theorem tail {b : UInt8} {rest : Bytes} (ascii : b.toNat < 0x80) (whole : Encodable (b :: rest)) :
    Encodable rest := by
  have single : Utf8.isValid [b] = true :=
    Utf8.isValid_of_ascii (by simpa [UInt8.lt_iff_toNat_lt] using ascii)
  have length := whole.short
  rw [← List.singleton_append, ModifiedUtf8.encode_append single, List.length_append] at length
  exact ⟨Utf8.isValid_tail ascii whole.valid, by omega⟩

end Encodable

def VType.Described (type : VType) : Prop := type = .int ∨ ∃ name, type = .object name

/-- The three forms of a field descriptor. -/
theorem fieldType_cases {text : Bytes} {type : VType} (described : fieldType text = .ok type) :
    ∃ first rest, text = first :: rest ∧ first.toNat < 0x80 ∧ (type = .int ∨
      (∃ name, rest = name ++ [59] ∧ type = .object name) ∨ type = .object text) := by
  cases text with
  | nil => cases described
  | cons first rest =>
    refine ⟨first, rest, rfl, ?_⟩
    rw [fieldType] at described
    split at described
    next small =>
      cases described
      refine ⟨?_, .inl rfl⟩
      simp only [List.contains_eq_mem, List.mem_cons, List.not_mem_nil, or_false,
        decide_eq_true_eq] at small
      rcases small with rfl | rfl | rfl | rfl | rfl <;> decide
    · split at described
      next letter =>
        subst letter
        split at described
        next name found =>
          cases described
          refine ⟨by decide, .inr (.inl ⟨name, ?_, rfl⟩)⟩
          rw [Bytes.before?] at found
          split at found
          next suffix =>
            cases found
            obtain ⟨before, rfl⟩ := List.isSuffixOf_iff_suffix.mp suffix
            have closing : (";" : Bytes) = [59] := rfl
            simp [closing]
          · cases found
        · cases described
      · split at described
        next bracket =>
          cases described
          subst bracket
          exact ⟨by decide, .inr (.inr rfl)⟩
        · cases described

theorem fieldType_described {text : Bytes} {type : VType} (described : fieldType text = .ok type) :
    type.Described := by
  obtain ⟨-, -, -, -, rfl | ⟨name, -, rfl⟩ | rfl⟩ := fieldType_cases described
  · exact .inl rfl
  · exact .inr ⟨name, rfl⟩
  · exact .inr ⟨_, rfl⟩

/-- A class named in a field descriptor can be stored. -/
theorem fieldType_encodable {text name : Bytes} (whole : Encodable text)
    (described : fieldType text = .ok (.object name)) : Encodable name := by
  obtain ⟨first, rest, rfl, ascii, wrong | ⟨inner, rfl, same⟩ | same⟩ := fieldType_cases described
  · cases wrong
  · cases same
    exact ((whole.tail ascii).cut (b := 59) (by decide)).1
  · cases same
    exact whole

theorem methodType_result {text : Bytes} {params : List VType} {type : VType}
    (described : methodType text = .ok (params, some type)) :
    ∃ before last, text = before ++ last ∧ fieldType last = .ok type := by
  unfold methodType at described
  split at described
  next tail =>
    split at described
    · cases described
    next inner last cut =>
      obtain ⟨types, -, described⟩ := bind_eq_ok.mp described
      split at described
      · cases described
      · obtain ⟨result, found, described⟩ := bind_eq_ok.mp described
        cases described
        rw [Bytes.cut?] at cut
        split at cut
        · cases cut
        next b rest dropped =>
          cases cut
          refine ⟨40 :: tail.takeWhile (· != 41) ++ [b], _, ?_, found⟩
          have whole := List.takeWhile_append_dropWhile (p := (· != 41)) (l := tail)
          rw [dropped] at whole
          simp [whole]
  · cases described

theorem methodType_described {text : Bytes} {params : List VType} {type : VType}
    (described : methodType text = .ok (params, some type)) : type.Described := by
  obtain ⟨_, _, _, found⟩ := methodType_result described
  exact fieldType_described found

theorem methodType_encodable {text name : Bytes} {params : List VType} (whole : Encodable text)
    (described : methodType text = .ok (params, some (.object name))) : Encodable name := by
  obtain ⟨before, last, rfl, found⟩ := methodType_result described
  obtain ⟨first, rest, rfl, ascii, -⟩ := fieldType_cases found
  exact fieldType_encodable (whole.cut ascii).2 found

end Minilang.ClassFile
