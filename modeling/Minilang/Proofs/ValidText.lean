import Mathlib.Algebra.Order.Ring.Nat
import Minilang.ClassFile.ModifiedUtf8

/-! Well-formed texts. A text is well-formed exactly when it spells scalar values; it can be cut
before any ASCII byte, and the string encoding of class files gives it back. -/

namespace Minilang

/-- A code point that is not a surrogate. -/
def IsScalar (code : Nat) : Prop := code < 0xD800 ∨ 0xE000 ≤ code ∧ code < 0x110000

theorem toNat_toUInt8 {n : Nat} (small : n < 256) : n.toUInt8.toNat = n := by
  rw [Nat.toUInt8_eq, UInt8.toNat_ofNat', Nat.mod_eq_of_lt small]

private theorem toUInt8_eq {a : UInt8} {n : Nat} (same : n = a.toNat) : n.toUInt8 = a := by
  rw [same]
  exact UInt8.ofNat_toNat

namespace Utf8

/-- The bytes of a well-formed character. -/
inductive Spelling : Nat → Bytes → Prop where
  | one {a : UInt8} (low : a.toNat < 0x80) : Spelling a.toNat [a]
  | two {a b : UInt8} (first : 0xC2 ≤ a.toNat ∧ a.toNat < 0xE0)
      (second : 0x80 ≤ b.toNat ∧ b.toNat ≤ 0xBF) :
      Spelling ((a.toNat - 0xC0) * 0x40 + (b.toNat - 0x80)) [a, b]
  | three {a b c : UInt8} (first : 0xE0 ≤ a.toNat ∧ a.toNat < 0xF0)
      (second : 0x80 ≤ b.toNat ∧ b.toNat ≤ 0xBF) (long : a.toNat = 0xE0 → 0xA0 ≤ b.toNat)
      (scalar : a.toNat = 0xED → b.toNat ≤ 0x9F) (third : 0x80 ≤ c.toNat ∧ c.toNat ≤ 0xBF) :
      Spelling ((a.toNat - 0xE0) * 0x1000 + (b.toNat - 0x80) * 0x40 + (c.toNat - 0x80)) [a, b, c]
  | four {a b c d : UInt8} (first : 0xF0 ≤ a.toNat ∧ a.toNat < 0xF5)
      (second : 0x80 ≤ b.toNat ∧ b.toNat ≤ 0xBF) (long : a.toNat = 0xF0 → 0x90 ≤ b.toNat)
      (scalar : a.toNat = 0xF4 → b.toNat ≤ 0x8F) (third : 0x80 ≤ c.toNat ∧ c.toNat ≤ 0xBF)
      (fourth : 0x80 ≤ d.toNat ∧ d.toNat ≤ 0xBF) :
      Spelling ((a.toNat - 0xF0) * 0x40000 + (b.toNat - 0x80) * 0x1000 + (c.toNat - 0x80) * 0x40 +
        (d.toNat - 0x80)) [a, b, c, d]

/-- What is read and is not repaired was spelt well. -/
theorem Spelling.of_next? {text rest : Bytes} {rune : Rune}
    (step : next? text = some (rune, rest)) (good : rune.isBad = false) :
    Spelling rune.code rune.bytes ∧ text = rune.bytes ++ rest := by
  unfold next? at step
  simp only [isTail, UInt8.lt_iff_toNat_lt, UInt8.le_iff_toNat_le, ← UInt8.toNat_inj,
    Bool.and_eq_true, decide_eq_true_eq, apply_ite UInt8.toNat, UInt8.reduceToNat] at step
  grind [Rune.isBad, Spelling]

theorem Spelling.next? {code : Nat} {bytes : Bytes} (spelling : Spelling code bytes)
    (rest : Bytes) : next? (bytes ++ rest) = some (⟨code, bytes⟩, rest) := by
  cases spelling <;>
    simp only [List.cons_append, List.nil_append, Utf8.next?, isTail, UInt8.lt_iff_toNat_lt,
      UInt8.le_iff_toNat_le, ← UInt8.toNat_inj, Bool.and_eq_true, decide_eq_true_eq,
      apply_ite UInt8.toNat, UInt8.reduceToNat] <;>
    grind

/-- Every scalar value has one spelling. -/
theorem Spelling.encodeScalar {code : Nat} {bytes : Bytes} (spelling : Spelling code bytes) :
    IsScalar code ∧ encodeScalar code = bytes := by
  unfold IsScalar
  cases spelling with
  | one low =>
    refine ⟨by omega, ?_⟩
    rw [Minilang.encodeScalar, if_pos low, toUInt8_eq rfl]
  | two first second =>
    refine ⟨by omega, ?_⟩
    rw [Minilang.encodeScalar, if_neg (by omega), if_pos (by omega), toUInt8_eq, toUInt8_eq]
    all_goals omega
  | three first second long scalar third =>
    refine ⟨by omega, ?_⟩
    rw [Minilang.encodeScalar, if_neg (by omega), if_neg (by omega), if_neg (by omega),
      if_pos (by omega), toUInt8_eq, toUInt8_eq, toUInt8_eq]
    all_goals omega
  | four first second long scalar third fourth =>
    refine ⟨by omega, ?_⟩
    rw [Minilang.encodeScalar, if_neg (by omega), if_neg (by omega), if_neg (by omega),
      if_neg (by omega), toUInt8_eq, toUInt8_eq, toUInt8_eq, toUInt8_eq]
    all_goals omega

theorem spelling_encodeScalar {code : Nat} (scalar : IsScalar code) :
    Spelling code (encodeScalar code) := by
  unfold IsScalar at scalar
  unfold encodeScalar
  split
  next one =>
    have value := toNat_toUInt8 (n := code) (by omega)
    have spelt := Spelling.one (a := code.toUInt8) (by omega)
    rwa [value] at spelt
  split
  next two =>
    have first := toNat_toUInt8 (n := 0xC0 + code / 0x40) (by omega)
    have second := toNat_toUInt8 (n := 0x80 + code % 0x40) (by omega)
    have spelt := Spelling.two (a := (0xC0 + code / 0x40).toUInt8) (b := (0x80 + code % 0x40).toUInt8)
      (by omega) (by omega)
    rwa [first, second, show (0xC0 + code / 0x40 - 0xC0) * 0x40 + (0x80 + code % 0x40 - 0x80) = code
      by omega] at spelt
  rw [if_neg (by omega)]
  split
  next three =>
    have first := toNat_toUInt8 (n := 0xE0 + code / 0x1000) (by omega)
    have second := toNat_toUInt8 (n := 0x80 + code / 0x40 % 0x40) (by omega)
    have third := toNat_toUInt8 (n := 0x80 + code % 0x40) (by omega)
    have spelt := Spelling.three (a := (0xE0 + code / 0x1000).toUInt8)
      (b := (0x80 + code / 0x40 % 0x40).toUInt8) (c := (0x80 + code % 0x40).toUInt8)
      (by omega) (by omega) (by omega) (by omega) (by omega)
    rwa [first, second, third, show (0xE0 + code / 0x1000 - 0xE0) * 0x1000 +
      (0x80 + code / 0x40 % 0x40 - 0x80) * 0x40 + (0x80 + code % 0x40 - 0x80) = code by omega] at spelt
  next four =>
    have first := toNat_toUInt8 (n := 0xF0 + code / 0x40000) (by omega)
    have second := toNat_toUInt8 (n := 0x80 + code / 0x1000 % 0x40) (by omega)
    have third := toNat_toUInt8 (n := 0x80 + code / 0x40 % 0x40) (by omega)
    have fourth := toNat_toUInt8 (n := 0x80 + code % 0x40) (by omega)
    have spelt := Spelling.four (a := (0xF0 + code / 0x40000).toUInt8)
      (b := (0x80 + code / 0x1000 % 0x40).toUInt8) (c := (0x80 + code / 0x40 % 0x40).toUInt8)
      (d := (0x80 + code % 0x40).toUInt8) (by omega) (by omega) (by omega) (by omega) (by omega)
      (by omega)
    rwa [first, second, third, fourth, show (0xF0 + code / 0x40000 - 0xF0) * 0x40000 +
      (0x80 + code / 0x1000 % 0x40 - 0x80) * 0x1000 + (0x80 + code / 0x40 % 0x40 - 0x80) * 0x40 +
      (0x80 + code % 0x40 - 0x80) = code by omega] at spelt

/-- Only the first byte of a character can be ASCII, and then it is the only one. -/
theorem Spelling.tail {code : Nat} {bytes : Bytes} (spelling : Spelling code bytes) :
    ∃ first rest, bytes = first :: rest ∧ ∀ b ∈ rest, 0x80 ≤ b.toNat := by
  cases spelling <;> exact ⟨_, _, rfl, by grind⟩

/-- The bytes of a character past ASCII are past ASCII. -/
theorem Spelling.high {code : Nat} {bytes : Bytes} (spelling : Spelling code bytes)
    (past : 0x80 ≤ code) : ∀ b ∈ bytes, 0x80 ≤ b.toNat := by
  cases spelling <;> grind

private theorem runesLoop_none {text : Bytes} (ends : next? text = none) (done : Array Rune) :
    runesLoop text done = done := by
  rw [runesLoop]
  split
  · rfl
  next same =>
    rw [ends] at same
    cases same

private theorem runesLoop_next {text rest : Bytes} {rune : Rune}
    (step : next? text = some (rune, rest)) (done : Array Rune) :
    runesLoop text done = runesLoop rest (done.push rune) := by
  rw [runesLoop]
  split
  next none =>
    rw [step] at none
    cases none
  next same =>
    rw [step] at same
    cases same
    rfl

private theorem runesLoop_done (text : Bytes) (done : Array Rune) :
    runesLoop text done = done ++ runesLoop text #[] := by
  induction length : text.length using Nat.strongRecOn generalizing text done with
  | _ n ih =>
    cases step : next? text with
    | none => rw [runesLoop_none step, runesLoop_none step, Array.append_empty]
    | some read =>
      obtain ⟨rune, rest⟩ := read
      have shorter := length ▸ next?_shorter step
      rw [runesLoop_next step, runesLoop_next step, ih _ shorter _ _ rfl,
        ih _ shorter rest (#[].push rune) rfl]
      simp

theorem runes_nil : runes [] = [] := by
  rw [runes, runesLoop_none rfl]

theorem codes_nil : codes [] = [] := by
  rw [codes, runes_nil]
  rfl

theorem runes_of_next? {text rest : Bytes} {rune : Rune} (step : next? text = some (rune, rest)) :
    runes text = rune :: runes rest := by
  rw [runes, runesLoop_next step, runesLoop_done]
  simp [runes]

/-- The spelling of a character, then more. -/
theorem runes_encodeScalar {code : Nat} (scalar : IsScalar code) (rest : Bytes) :
    runes (encodeScalar code ++ rest) = ⟨code, encodeScalar code⟩ :: runes rest :=
  runes_of_next? ((spelling_encodeScalar scalar).next? rest)

theorem ofCodes_cons (code : Nat) (list : List Nat) :
    ofCodes (code :: list) = encodeScalar code ++ ofCodes list := rfl

theorem codes_ofCodes_append {list : List Nat} (scalars : ∀ code ∈ list, IsScalar code)
    (rest : Bytes) : codes (ofCodes list ++ rest) = list ++ codes rest := by
  induction list with
  | nil => rfl
  | cons code list ih =>
    obtain ⟨here, later⟩ := List.forall_mem_cons.mp scalars
    rw [ofCodes_cons, List.append_assoc, codes, runes_encodeScalar here, List.map_cons,
      List.cons_append, ← ih later, codes]

theorem codes_ofCodes {list : List Nat} (scalars : ∀ code ∈ list, IsScalar code) :
    codes (ofCodes list) = list := by
  have whole := codes_ofCodes_append scalars []
  rwa [List.append_nil, codes_nil, List.append_nil] at whole

/-- A well-formed replacement character is none that was put in for a byte. -/
theorem isBad_encodeScalar (code : Nat) : Rune.isBad ⟨code, encodeScalar code⟩ = false := by
  by_cases same : code = replacement
  · subst same
    rfl
  · simp [Rune.isBad, same]

/-- A text is well-formed exactly when it spells scalar values. -/
theorem isValid_iff {text : Bytes} :
    isValid text = true ↔ ∃ list, (∀ code ∈ list, IsScalar code) ∧ text = ofCodes list := by
  constructor
  · intro valid
    induction length : text.length using Nat.strongRecOn generalizing text with
    | _ n ih =>
      cases step : next? text with
      | none =>
        cases text with
        | nil => exact ⟨[], nofun, rfl⟩
        | cons a rest =>
          unfold next? at step
          grind
      | some read =>
        obtain ⟨rune, rest⟩ := read
        rw [isValid, runes_of_next? step, List.all_cons, Bool.and_eq_true, Bool.not_eq_true'] at valid
        obtain ⟨spelling, rfl⟩ := Spelling.of_next? step valid.1
        obtain ⟨list, scalars, rfl⟩ := ih _ (length ▸ next?_shorter step) valid.2 rfl
        obtain ⟨scalar, spelt⟩ := spelling.encodeScalar
        refine ⟨rune.code :: list, List.forall_mem_cons.mpr ⟨scalar, scalars⟩, ?_⟩
        rw [ofCodes_cons, spelt]
  · rintro ⟨list, scalars, rfl⟩
    induction list with
    | nil =>
      rw [isValid, ofCodes, List.flatMap_nil, runes_nil]
      rfl
    | cons code list ih =>
      obtain ⟨here, later⟩ := List.forall_mem_cons.mp scalars
      rw [isValid, ofCodes_cons, runes_encodeScalar here, List.all_cons, isBad_encodeScalar]
      exact ih later

theorem isValid_append {first second : Bytes} (begins : isValid first = true)
    (ends : isValid second = true) : isValid (first ++ second) = true := by
  obtain ⟨left, here, rfl⟩ := isValid_iff.mp begins
  obtain ⟨right, there, rfl⟩ := isValid_iff.mp ends
  refine isValid_iff.mpr ⟨left ++ right, List.forall_mem_append.mpr ⟨here, there⟩, ?_⟩
  rw [ofCodes, ofCodes, ofCodes, List.flatMap_append]

/-- Spelt values can be cut before an ASCII byte. -/
private theorem ofCodes_cut {list : List Nat} (scalars : ∀ code ∈ list, IsScalar code) {b : UInt8}
    (ascii : b.toNat < 0x80) {before behind : Bytes} (same : ofCodes list = before ++ b :: behind) :
    ∃ first second, list = first ++ second ∧ before = ofCodes first ∧
      b :: behind = ofCodes second := by
  induction list generalizing before with
  | nil => simp [ofCodes] at same
  | cons code list ih =>
    obtain ⟨here, later⟩ := List.forall_mem_cons.mp scalars
    cases before with
    | nil => exact ⟨[], _, rfl, rfl, same.symm⟩
    | cons a before =>
      obtain ⟨first, rest, spelt, high⟩ := (spelling_encodeScalar here).tail
      rw [ofCodes_cons, spelt, List.cons_append, List.cons_append, List.cons.injEq] at same
      obtain ⟨rfl, same⟩ := same
      rcases List.append_eq_append_iff.mp same with ⟨middle, rfl, tail⟩ | ⟨middle, whole, tail⟩
      · obtain ⟨left, right, rfl, rfl, found⟩ := ih later tail
        exact ⟨code :: left, right, rfl, by rw [ofCodes_cons, spelt]; rfl, found⟩
      · -- The cut would lie inside the character, where no byte is ASCII.
        cases middle with
        | nil =>
          rw [List.append_nil] at whole
          subst whole
          have behind_ : ofCodes list = [] ++ b :: behind := tail.symm
          obtain ⟨left, right, rfl, none, found⟩ := ih later behind_
          refine ⟨code :: left, right, rfl, ?_, found⟩
          rw [ofCodes_cons, spelt, ← none, List.append_nil]
        | cons byte middle =>
          rw [List.cons_append, List.cons.injEq] at tail
          have := high byte (by simp [whole])
          rw [← tail.1] at this
          omega

theorem isValid_cut {before behind : Bytes} {b : UInt8} (ascii : b.toNat < 0x80)
    (valid : isValid (before ++ b :: behind) = true) :
    isValid before = true ∧ isValid (b :: behind) = true := by
  obtain ⟨list, scalars, same⟩ := isValid_iff.mp valid
  obtain ⟨first, second, rfl, left, right⟩ := ofCodes_cut scalars ascii same.symm
  obtain ⟨here, later⟩ := List.forall_mem_append.mp scalars
  exact ⟨isValid_iff.mpr ⟨first, here, left⟩, isValid_iff.mpr ⟨second, later, right⟩⟩

/-- An ASCII byte is a character of its own. -/
theorem isValid_tail {b : UInt8} {rest : Bytes} (ascii : b.toNat < 0x80)
    (valid : isValid (b :: rest) = true) : isValid rest = true := by
  have step : next? (b :: rest) = some (⟨b.toNat, [b]⟩, rest) := (Spelling.one ascii).next? rest
  rw [isValid, runes_of_next? step, List.all_cons, Bool.and_eq_true] at valid
  exact valid.2

theorem codes_append {before : Bytes} (valid : isValid before = true) (behind : Bytes) :
    codes (before ++ behind) = codes before ++ codes behind := by
  obtain ⟨list, scalars, rfl⟩ := isValid_iff.mp valid
  rw [codes_ofCodes_append scalars, codes_ofCodes scalars]

/-- The bytes of an ASCII text spell themselves. -/
theorem isValid_of_ascii {text : Bytes} (ascii : ∀ b ∈ text, b < 0x80) : isValid text = true := by
  induction text with
  | nil => exact isValid_iff.mpr ⟨[], nofun, rfl⟩
  | cons b rest ih =>
    obtain ⟨here, later⟩ := List.forall_mem_cons.mp ascii
    obtain ⟨list, scalars, same⟩ := isValid_iff.mp (ih later)
    have low : b.toNat < 0x80 := UInt8.lt_iff_toNat_lt.mp here
    obtain ⟨scalar, spelt⟩ := (Spelling.one low).encodeScalar
    refine isValid_iff.mpr ⟨b.toNat :: list, List.forall_mem_cons.mpr ⟨scalar, scalars⟩, ?_⟩
    rw [ofCodes_cons, spelt, same]
    rfl

end Utf8

namespace ClassFile.ModifiedUtf8

open Utf8

/-- A byte that stands for itself. -/
theorem decodeUnits_one {a : UInt8} (low : a < 0x80) (rest : Bytes) :
    decodeUnits (a :: rest) = a.toNat :: decodeUnits rest := by
  match rest with
  | [] => simp [decodeUnits, low]
  | [b] => simp [decodeUnits, low]
  | b :: c :: rest => simp [decodeUnits, low]

theorem decodeUnits_two {a b : UInt8} (high : ¬ a < 0x80) (lead : a &&& 0xE0 = 0xC0)
    (rest : Bytes) : decodeUnits (a :: b :: rest) =
      ((a &&& 0x1F).toNat * 0x40 + (b &&& 0x3F).toNat) :: decodeUnits rest := by
  match rest with
  | [] => simp [decodeUnits, high, lead]
  | c :: rest => simp [decodeUnits, high, lead]

/-- A number of fewer than eight bits behind a mark in the high bits. -/
private theorem marked (mark n k : Nat) (small : n < 2 ^ k) (fits : 2 ^ k * mark + 2 ^ k ≤ 256) :
    ((2 ^ k * mark + n).toUInt8 &&& (2 ^ k - 1).toUInt8).toNat = n := by
  rw [UInt8.toNat_and, toNat_toUInt8 (by omega), toNat_toUInt8 (by omega),
    Nat.and_two_pow_sub_one_eq_mod, Nat.mul_add_mod, Nat.mod_eq_of_lt small]

private theorem lead_of_two : ∀ n < 32, (0xC0 + n).toUInt8 &&& 0xE0 = 0xC0 := by decide

private theorem lead_of_three : ∀ n < 16, (0xE0 + n).toUInt8 &&& 0xE0 ≠ 0xC0 ∧
    (0xE0 + n).toUInt8 &&& 0xF0 = 0xE0 := by decide

private theorem decodeUnits_encodeUnit {unit : Nat} (small : unit < 0x10000) (rest : Bytes) :
    decodeUnits (encodeUnit unit ++ rest) = unit :: decodeUnits rest := by
  have last := marked 2 (unit % 0x40) 6 (by omega) (by decide)
  unfold encodeUnit
  split
  next one =>
    have value := toNat_toUInt8 (n := unit) (by omega)
    have low : unit.toUInt8 < 0x80 := UInt8.lt_iff_toNat_lt.mpr (by rw [value]; exact one.2)
    rw [List.cons_append, List.nil_append, decodeUnits_one low, value]
  split
  next two =>
    have value := toNat_toUInt8 (n := 0xC0 + unit / 0x40) (by omega)
    have high : ¬ (0xC0 + unit / 0x40).toUInt8 < 0x80 := by
      rw [UInt8.lt_iff_toNat_lt, value]
      change ¬ _ < 128
      omega
    have first := marked 6 (unit / 0x40) 5 (by omega) (by decide)
    rw [List.cons_append, List.cons_append, List.nil_append,
      decodeUnits_two high (lead_of_two _ (by omega))]
    change (((0xC0 + unit / 0x40).toUInt8 &&& 0x1F).toNat * 0x40 +
      ((0x80 + unit % 0x40).toUInt8 &&& 0x3F).toNat) :: _ = _
    change ((0xC0 + unit / 0x40).toUInt8 &&& 0x1F).toNat = _ at first
    change ((0x80 + unit % 0x40).toUInt8 &&& 0x3F).toNat = _ at last
    rw [first, last, List.cons.injEq]
    exact ⟨by omega, rfl⟩
  next three =>
    have value := toNat_toUInt8 (n := 0xE0 + unit / 0x1000) (by omega)
    have high : ¬ (0xE0 + unit / 0x1000).toUInt8 < 0x80 := by
      rw [UInt8.lt_iff_toNat_lt, value]
      change ¬ _ < 128
      omega
    have lead := lead_of_three (unit / 0x1000) (by omega)
    have first := marked 14 (unit / 0x1000) 4 (by omega) (by decide)
    have second := marked 2 (unit / 0x40 % 0x40) 6 (by omega) (by decide)
    change ((0xE0 + unit / 0x1000).toUInt8 &&& 0x0F).toNat = _ at first
    change ((0x80 + unit / 0x40 % 0x40).toUInt8 &&& 0x3F).toNat = _ at second
    change ((0x80 + unit % 0x40).toUInt8 &&& 0x3F).toNat = _ at last
    rw [List.cons_append, List.cons_append, List.cons_append, List.nil_append, decodeUnits,
      if_neg high, if_neg lead.1, if_pos lead.2, first, second, last, List.cons.injEq]
    exact ⟨by omega, rfl⟩

private theorem decodeUnits_encode {units : List Nat} (small : ∀ unit ∈ units, unit < 0x10000) :
    decodeUnits (units.flatMap encodeUnit) = units := by
  induction units with
  | nil =>
    rw [List.flatMap_nil, decodeUnits]
  | cons unit units ih =>
    obtain ⟨here, later⟩ := List.forall_mem_cons.mp small
    rw [List.flatMap_cons, decodeUnits_encodeUnit here, ih later]

private theorem joinUnits_units {code : Nat} (scalar : IsScalar code) (rest : List Nat) :
    joinUnits (units code ++ rest) = code :: joinUnits rest := by
  unfold IsScalar at scalar
  unfold units
  split
  next plain =>
    have alone : isHigh code = false ∧ isLow code = false := by
      simp only [isHigh, isLow, Bool.and_eq_false_iff, decide_eq_false_iff_not]
      omega
    cases rest with
    | nil => simp [joinUnits, alone]
    | cons next rest => simp [joinUnits, alone]
  next pair =>
    have high : isHigh (0xD800 + (code - 0x10000) / 0x400) = true := by
      simp only [isHigh, Bool.and_eq_true, decide_eq_true_eq]
      omega
    have low : isLow (0xDC00 + (code - 0x10000) % 0x400) = true := by
      simp only [isLow, Bool.and_eq_true, decide_eq_true_eq]
      omega
    simp only [List.cons_append, List.nil_append, joinUnits, high, low, Bool.and_self, if_true,
      List.cons.injEq, and_true]
    omega

theorem units_small {code : Nat} (scalar : IsScalar code) :
    ∀ unit ∈ units code, unit < 0x10000 := by
  unfold IsScalar at scalar
  unfold units
  split
  · simp only [List.mem_singleton, forall_eq]
    assumption
  · simp only [List.mem_cons, List.not_mem_nil, or_false, forall_eq_or_imp, forall_eq]
    omega

private theorem joinUnits_flatMap {list : List Nat} (scalars : ∀ code ∈ list, IsScalar code) :
    joinUnits (list.flatMap units) = list := by
  induction list with
  | nil => rfl
  | cons code list ih =>
    obtain ⟨here, later⟩ := List.forall_mem_cons.mp scalars
    rw [List.flatMap_cons, joinUnits_units here, ih later]

/-- A well-formed text survives being written and read. -/
theorem decode_encode {text : Bytes} (valid : isValid text = true) : decode (encode text) = text := by
  obtain ⟨list, scalars, rfl⟩ := isValid_iff.mp valid
  have small : ∀ unit ∈ list.flatMap units, unit < 0x10000 := by
    intro unit member
    obtain ⟨code, inside, part⟩ := List.mem_flatMap.mp member
    exact units_small (scalars code inside) unit part
  rw [decode, encode, codes_ofCodes scalars, decodeUnits_encode small, joinUnits_flatMap scalars]

theorem encode_append {before : Bytes} (valid : isValid before = true) (behind : Bytes) :
    encode (before ++ behind) = encode before ++ encode behind := by
  rw [encode, codes_append valid, List.flatMap_append, List.flatMap_append, encode, encode]

end ClassFile.ModifiedUtf8

end Minilang
