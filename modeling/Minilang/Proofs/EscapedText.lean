import Minilang.Proofs.PlainText
import Minilang.Text.Quoted
import Minilang.Toml.Value

/-! Texts between quotes. Messages quote a text with more escapes than configuration files know, so
a quoted text that is read from a configuration file has its content back exactly when none of its
characters needs one of the others. -/

namespace Minilang

namespace Toml

/-- A byte that stands for itself between quotes. -/
def isOrdinary (b : UInt8) : Bool := 32 ≤ b && b != 34 && b != 92 && b != 127

theorem ordinary_iff {b : UInt8} :
    isOrdinary b = true ↔ 32 ≤ b.toNat ∧ b.toNat ≠ 34 ∧ b.toNat ≠ 92 ∧ b.toNat ≠ 127 := by
  simp only [isOrdinary, Bool.and_eq_true, decide_eq_true_eq, bne_iff_ne, ne_eq, and_assoc,
    UInt8.le_iff_toNat_le, ← UInt8.toNat_inj, UInt8.reduceToNat]

/-- What is written between quotes and the text it stands for, which there is none of once a
backslash is used for anything but an escape. -/
inductive Spells : Bytes → Option Bytes → Prop where
  | nil : Spells [] (some [])
  | ordinary {b : UInt8} {raw : Bytes} {content : Option Bytes} (plain : isOrdinary b = true)
      (rest : Spells raw content) : Spells (b :: raw) (content.map (b :: ·))
  | simple {kind b : UInt8} {raw : Bytes} {content : Option Bytes}
      (known : simpleEscape? kind = some b) (rest : Spells raw content) :
      Spells (92 :: kind :: raw) (content.map (b :: ·))
  | code {kind : UInt8} {digits character raw : Bytes} {content : Option Bytes}
      (sized : kind = 117 ∧ digits.length = 4 ∨ kind = 85 ∧ digits.length = 8)
      (plain : ∀ b ∈ digits, isOrdinary b = true) (scalar : scalar? digits = some character)
      (rest : Spells raw content) :
      Spells (92 :: kind :: (digits ++ raw)) (content.map (character ++ ·))
  | unknown {kind : UInt8} {raw : Bytes} {content : Option Bytes} (plain : isOrdinary kind = true)
      (unknown : simpleEscape? kind = none) (short : kind ≠ 117) (long : kind ≠ 85)
      (rest : Spells raw content) : Spells (92 :: kind :: raw) none

theorem simpleEscape?_kind {kind b : UInt8} (known : simpleEscape? kind = some b) :
    (isOrdinary kind = true ∨ kind = 34 ∨ kind = 92) ∧ kind ≠ 117 ∧ kind ≠ 85 := by
  unfold simpleEscape? at known
  split at known <;> first | decide | cases known

/-- What is written between quotes holds no control characters. -/
theorem Spells.clean {raw : Bytes} {content : Option Bytes} (spells : Spells raw content) :
    ∀ b ∈ raw, 32 ≤ b.toNat ∧ b.toNat ≠ 127 := by
  have visible : ∀ {b : UInt8}, isOrdinary b = true → 32 ≤ b.toNat ∧ b.toNat ≠ 127 := by
    intro b plain
    have := ordinary_iff.mp plain
    exact ⟨this.1, this.2.2.2⟩
  have backslash : 32 ≤ (92 : UInt8).toNat ∧ (92 : UInt8).toNat ≠ 127 := by decide
  induction spells with
  | nil => exact nofun
  | ordinary plain _ ih => exact List.forall_mem_cons.mpr ⟨visible plain, ih⟩
  | simple known _ ih =>
    refine List.forall_mem_cons.mpr ⟨backslash, List.forall_mem_cons.mpr ⟨?_, ih⟩⟩
    rcases (simpleEscape?_kind known).1 with plain | rfl | rfl
    · exact visible plain
    · decide
    · decide
  | code sized plain _ _ ih =>
    refine List.forall_mem_cons.mpr ⟨backslash, List.forall_mem_cons.mpr ⟨?_, ?_⟩⟩
    · rcases sized with ⟨rfl, -⟩ | ⟨rfl, -⟩ <;> decide
    · exact List.forall_mem_append.mpr ⟨fun b member => visible (plain b member), ih⟩
  | unknown plain _ _ _ _ ih =>
    exact List.forall_mem_cons.mpr ⟨backslash, List.forall_mem_cons.mpr ⟨visible plain, ih⟩⟩

private theorem lineEnd_ordinary {b : UInt8} (plain : isOrdinary b = true) :
    isLineEnd b = false := by
  have := ordinary_iff.mp plain
  simp only [isLineEnd, Bool.or_eq_false_iff, beq_eq_false_iff_ne, ne_eq, ← UInt8.toNat_inj,
    UInt8.reduceToNat]
  omega

private theorem closeBasic?_ordinary {b : UInt8} (plain : isOrdinary b = true) (text done : Bytes) :
    closeBasic? (b :: text) done = closeBasic? text (b :: done) := by
  have quote : b ≠ 34 := by
    rintro rfl
    cases plain
  have backslash : b ≠ 92 := by
    rintro rfl
    cases plain
  rw [closeBasic?, lineEnd_ordinary plain]
  · simp
  · exact fun same => quote same
  · exact fun _ _ same => absurd same backslash

private theorem closeBasic?_digits {digits : Bytes} (plain : ∀ b ∈ digits, isOrdinary b = true)
    (text done : Bytes) :
    closeBasic? (digits ++ text) done = closeBasic? text (digits.reverse ++ done) := by
  induction digits generalizing done with
  | nil => rfl
  | cons b digits ih =>
    obtain ⟨here, later⟩ := List.forall_mem_cons.mp plain
    rw [List.cons_append, closeBasic?_ordinary here, ih later]
    simp

private theorem closeBasic?_escape {kind : UInt8} (same : isLineEnd kind = false)
    (text done : Bytes) :
    closeBasic? (92 :: kind :: text) done = closeBasic? text (kind :: 92 :: done) := by
  rw [closeBasic?, same]
  simp

/-- The closing quote is found where it was put. -/
theorem Spells.close {raw : Bytes} {content : Option Bytes} (spells : Spells raw content)
    (rest done : Bytes) :
    closeBasic? (raw ++ 34 :: rest) done = some (done.reverse ++ raw, rest) := by
  induction spells generalizing done with
  | nil => simp [closeBasic?]
  | ordinary plain _ ih =>
    rw [List.cons_append, closeBasic?_ordinary plain, ih]
    simp
  | simple known _ ih =>
    rw [List.cons_append, List.cons_append, closeBasic?_escape, ih]
    · simp
    · rcases (simpleEscape?_kind known).1 with plain | rfl | rfl
      · exact lineEnd_ordinary plain
      · rfl
      · rfl
  | code sized plain _ _ ih =>
    rw [List.cons_append, List.cons_append, closeBasic?_escape, List.append_assoc,
      closeBasic?_digits plain, ih]
    · simp
    · rcases sized with ⟨rfl, -⟩ | ⟨rfl, -⟩ <;> rfl
  | unknown plain _ _ _ _ ih =>
    rw [List.cons_append, List.cons_append, closeBasic?_escape (lineEnd_ordinary plain), ih]
    simp

private theorem unescape?_plain {b : UInt8} (differ : b ≠ 92) (fuel : Nat) (rest : Bytes) :
    unescape? (fuel + 1) (b :: rest) = (unescape? fuel rest).map (b :: ·) := by
  rw [unescape?]
  · exact fun _ _ same => absurd same differ
  · exact fun same => absurd same differ

private theorem unescape?_escape (fuel : Nat) (kind : UInt8) (rest : Bytes) :
    unescape? (fuel + 1) (92 :: kind :: rest) =
      if kind = 117 ∨ kind = 85 then
        if rest.length < (if kind = 117 then 4 else 8) then none
        else (scalar? (rest.take (if kind = 117 then 4 else 8))).bind fun character =>
          (unescape? fuel (rest.drop (if kind = 117 then 4 else 8))).map (character ++ ·)
      else (simpleEscape? kind).bind fun b => (unescape? fuel rest).map (b :: ·) := by
  rw [unescape?]
  by_cases short : kind = 117
  · simp [short, Option.map_eq_bind]
  by_cases long : kind = 85
  · simp [long, Option.map_eq_bind]
  · simp [short, long, Option.map_eq_bind]

/-- Fuel for the bytes that are left is enough. -/
theorem unescape?_enough {fuel more : Nat} {text : Bytes} (first : text.length ≤ fuel)
    (second : text.length ≤ more) : unescape? fuel text = unescape? more text := by
  induction fuel generalizing more text with
  | zero =>
    obtain rfl := List.eq_nil_of_length_eq_zero (Nat.le_zero.mp first)
    cases more <;> rfl
  | succ fuel ih =>
    match more, text with
    | 0, text =>
      obtain rfl := List.eq_nil_of_length_eq_zero (Nat.le_zero.mp second)
      rfl
    | more + 1, [] => rfl
    | more + 1, b :: rest =>
      rw [List.length_cons, Nat.add_le_add_iff_right] at first second
      by_cases escape : b = 92
      · subst escape
        match rest with
        | [] => rw [unescape?, unescape?]
        | kind :: rest =>
          rw [List.length_cons] at first second
          have later : ∀ left : Bytes, left.length ≤ rest.length →
              unescape? fuel left = unescape? more left :=
            fun left shorter => ih (by omega) (by omega)
          rw [unescape?_escape, unescape?_escape, later rest le_rfl, later _ (by simp)]
      · rw [unescape?_plain escape, unescape?_plain escape, ih first second]

private theorem unescape?_decode {fuel : Nat} {text : Bytes} (enough : text.length ≤ fuel) :
    unescape? fuel text = decodeText? text :=
  unescape?_enough enough (Nat.le_succ _)

/-- Replacing the escapes gives what is spelt. -/
theorem Spells.decode {raw : Bytes} {content : Option Bytes} (spells : Spells raw content) :
    decodeText? raw = content := by
  induction spells with
  | nil => rfl
  | ordinary plain _ ih =>
    rw [decodeText?, unescape?_plain, List.length_cons, unescape?_decode (Nat.le_succ _), ih]
    rintro rfl
    cases plain
  | simple known _ ih =>
    obtain ⟨-, short, long⟩ := simpleEscape?_kind known
    rw [decodeText?, unescape?_escape, if_neg (by simp [short, long]), known, Option.bind_some,
      unescape?_decode (by simp; omega), ih]
  | @code kind digits character raw content sized plain scalar _ ih =>
    have special : kind = 117 ∨ kind = 85 := sized.imp And.left And.left
    have width : (if kind = 117 then 4 else 8) = digits.length := by
      rcases sized with ⟨rfl, four⟩ | ⟨rfl, eight⟩
      · rw [four, if_pos rfl]
      · rw [eight, if_neg (by decide)]
    rw [decodeText?, unescape?_escape, if_pos special, width, if_neg (by simp), List.take_left,
      List.drop_left, scalar, Option.bind_some, unescape?_decode (by simp; omega), ih]
  | unknown plain unknown short long _ _ =>
    rw [decodeText?, unescape?_escape, if_neg (by simp [short, long]), unknown, Option.bind_none]

theorem Spells.head? {raw : Bytes} {content : Option Bytes} (spells : Spells raw content) :
    raw.head? ≠ some 34 := by
  cases spells with
  | ordinary plain =>
    rintro ⟨⟩
    cases plain
  | _ => nofun

/-- A text between quotes is read as what is spelt there, and what follows is left. -/
theorem Spells.text? {raw : Bytes} {content : Option Bytes} (spells : Spells raw content)
    {rest : Bytes} (ends : rest.head? ≠ some 34) :
    Toml.text? (34 :: (raw ++ 34 :: rest)) = content.map fun content => (content, rest) := by
  rw [Toml.text?]
  · rw [quotedText?, spells.close]
    simp [spells.decode, Option.map_eq_bind]
  · -- The opening quote is not the first of three.
    intro behind same
    rw [List.cons.injEq] at same
    cases raw with
    | nil =>
      rw [List.nil_append, List.cons.injEq] at same
      exact ends (same.2.2 ▸ rfl)
    | cons b raw =>
      rw [List.cons_append, List.cons.injEq] at same
      exact spells.head? (same.2.1 ▸ rfl)
  · exact nofun

end Toml

namespace Bytes

theorem hexValue?_hexDigit {n : Nat} (small : n < 16) : hexValue? (hexDigit n) = some n := by
  revert n
  decide

theorem length_hexPadded (width n : Nat) : (hexPadded width n).length = width := by
  induction width generalizing n with
  | zero => rfl
  | succ width ih => rw [hexPadded, List.length_append, ih, List.length_singleton]

theorem mem_hexPadded {width n : Nat} {b : UInt8} (member : b ∈ hexPadded width n) :
    ∃ digit < 16, b = hexDigit digit := by
  induction width generalizing n with
  | zero => cases member
  | succ width ih =>
    rcases List.mem_append.mp member with before | last
    · exact ih before
    · exact ⟨n % 16, Nat.mod_lt n (by decide), List.mem_singleton.mp last⟩

/-- Hexadecimal digits are read as the number they were written from. -/
theorem foldlM_hexPadded (width n start : Nat) :
    (hexPadded width n).foldlM (fun n b => (hexValue? b).map (16 * n + ·)) start =
      some (16 ^ width * start + n % 16 ^ width) := by
  induction width generalizing n with
  | zero => simp [hexPadded, Nat.mod_one]
  | succ width ih =>
    rw [hexPadded, List.foldlM_append, ih]
    have digit := hexValue?_hexDigit (Nat.mod_lt n (by decide : 0 < 16))
    simp only [Option.bind_eq_bind, Option.bind_some, List.foldlM_cons, digit, Option.map_some,
      List.foldlM_nil, Option.pure_def, Option.some.injEq]
    have split : n % 16 ^ (width + 1) = 16 * (n / 16 % 16 ^ width) + n % 16 := by
      rw [Nat.pow_succ', Nat.mod_mul, Nat.add_comm]
    rw [split, Nat.pow_succ', Nat.mul_add, Nat.mul_assoc, Nat.add_assoc]

end Bytes

namespace Toml

open Text (quotedRune isPrintable)

/-- The hexadecimal digits of a character stand for it. -/
theorem scalar?_hexPadded {width code : Nat} (fits : code < 16 ^ width) (scalar : IsScalar code) :
    scalar? (Bytes.hexPadded width code) = some (encodeScalar code) := by
  rw [scalar?, Bytes.foldlM_hexPadded, Nat.mul_zero, Nat.zero_add, Nat.mod_eq_of_lt fits]
  unfold IsScalar at scalar
  have inside : ((0xD800 ≤ code && code < 0xE000) || 0x110000 ≤ code) = false := by
    simp only [Bool.or_eq_false_iff, Bool.and_eq_false_iff, decide_eq_false_iff_not]
    omega
  simp only [Option.bind_eq_bind, Option.bind_some]
  rw [inside]
  rfl

/-- The characters for which messages have no escape but those of configuration files. -/
def isPortable (code : Nat) : Bool :=
  if code < 32 then [8, 9, 10, 12, 13].contains code else code != 127

/-- Ordinary bytes stand for themselves, in front of what is spelt. -/
theorem Spells.ordinaries {raw text : Bytes} {content : Option Bytes} (spells : Spells raw content)
    (plain : ∀ b ∈ text, isOrdinary b = true) :
    Spells (text ++ raw) (content.map (text ++ ·)) := by
  induction text with
  | nil => simpa using spells
  | cons b text ih =>
    obtain ⟨here, later⟩ := List.forall_mem_cons.mp plain
    have rest := Spells.ordinary here (ih later)
    rwa [Option.map_map] at rest

theorem spells_ordinary {text : Bytes} (plain : ∀ b ∈ text, isOrdinary b = true) :
    Spells text (some text) := by
  have spells := Spells.nil.ordinaries plain
  rwa [List.append_nil, Option.map_some, List.append_nil] at spells

theorem ordinary_printable {code : Nat} (printable : isPrintable code = true) (quote : code ≠ 34)
    (backslash : code ≠ 92) (scalar : IsScalar code) :
    isPortable code = true ∧ ∀ b ∈ encodeScalar code, isOrdinary b = true := by
  by_cases ascii : code < 0x80
  · have visible : 32 ≤ code ∧ code < 127 := by
      rw [isPrintable, if_pos (by omega)] at printable
      simp only [Bool.or_eq_true, Bool.and_eq_true, decide_eq_true_eq, bne_iff_ne] at printable
      omega
    have value := toNat_toUInt8 (n := code) (by omega)
    constructor
    · rw [isPortable, if_neg (by omega), bne_iff_ne]
      omega
    · rw [encodeScalar, if_pos ascii, List.forall_mem_singleton, ordinary_iff, value]
      omega
  · constructor
    · rw [isPortable, if_neg (by omega), bne_iff_ne]
      omega
    · intro b member
      have := (Utf8.spelling_encodeScalar scalar).high (by omega) b member
      exact ordinary_iff.mpr (by omega)

theorem ordinary_hexPadded (width code : Nat) :
    ∀ b ∈ Bytes.hexPadded width code, isOrdinary b = true := by
  have all : ∀ digit < 16, isOrdinary (Bytes.hexDigit digit) = true := by decide
  intro b member
  obtain ⟨digit, small, rfl⟩ := Bytes.mem_hexPadded member
  exact all digit small

/-- How messages quote a character, in front of what is spelt. -/
theorem Spells.quotedRune {raw : Bytes} {content : Option Bytes} (spells : Spells raw content)
    {code : Nat} (scalar : IsScalar code) :
    Spells (quotedRune ⟨code, encodeScalar code⟩ ++ raw)
      (if isPortable code then content.map (encodeScalar code ++ ·) else none) := by
  unfold Text.quotedRune
  rw [Utf8.isBad_encodeScalar, if_neg Bool.false_ne_true]
  split
  next quote =>
    obtain rfl : code = 0x22 := by simpa using quote
    exact .simple rfl spells
  next quote =>
  split
  next backslash =>
    obtain rfl : code = 0x5C := by simpa using backslash
    exact .simple rfl spells
  next backslash =>
  split
  next printable =>
    obtain ⟨portable, plain⟩ := ordinary_printable printable (by simpa using quote)
      (by simpa using backslash) scalar
    rw [portable, if_pos rfl]
    exact spells.ordinaries plain
  next hidden =>
  dsimp only
  split
  · exact .unknown rfl rfl (by decide) (by decide) spells
  · exact .simple rfl spells
  · exact .simple rfl spells
  · exact .simple rfl spells
  · exact .simple rfl spells
  · exact .simple rfl spells
  · exact .unknown rfl rfl (by decide) (by decide) spells
  next bell back feed line return_ tab vertical =>
    split
    next control =>
      simp only [Bool.or_eq_true, decide_eq_true_eq, beq_iff_eq] at control
      have foreign : isPortable code = false := by
        rw [isPortable]
        split
        · simp_all
        · simp; omega
      rw [foreign, if_neg Bool.false_ne_true]
      exact .unknown rfl rfl (by decide) (by decide)
        (spells.ordinaries (ordinary_hexPadded 2 code))
    next visible =>
      simp only [Bool.or_eq_true, decide_eq_true_eq, beq_iff_eq, not_or] at visible
      have portable : isPortable code = true := by
        rw [isPortable, if_neg visible.1, bne_iff_ne]
        exact visible.2
      have below : code < 0x110000 := by
        unfold IsScalar at scalar
        omega
      rw [portable, if_pos rfl]
      split
      next short =>
        exact .code (.inl ⟨rfl, Bytes.length_hexPadded 4 code⟩) (ordinary_hexPadded 4 code)
          (scalar?_hexPadded short scalar) spells
      next long =>
        exact .code (.inr ⟨rfl, Bytes.length_hexPadded 8 code⟩) (ordinary_hexPadded 8 code)
          (scalar?_hexPadded (by omega) scalar) spells

/-- What is written between the quotes of a text. -/
def inQuotes (text : Bytes) : Bytes := (Utf8.runes text).flatMap quotedRune

theorem quoted_eq (text : Bytes) : Text.quoted text = 34 :: (inQuotes text ++ [34]) := rfl

theorem inQuotes_cons {code : Nat} (scalar : IsScalar code) (rest : Bytes) :
    inQuotes (encodeScalar code ++ rest) =
      quotedRune ⟨code, encodeScalar code⟩ ++ inQuotes rest := by
  rw [inQuotes, Utf8.runes_encodeScalar scalar, List.flatMap_cons, inQuotes]

/-- What messages write between quotes spells the text when all of its characters are portable,
and nothing otherwise. -/
theorem spells_inQuotes {text : Bytes} (valid : Utf8.isValid text = true) :
    Spells (inQuotes text) (if (Utf8.codes text).all isPortable then some text else none) := by
  obtain ⟨list, scalars, rfl⟩ := Utf8.isValid_iff.mp valid
  clear valid
  rw [Utf8.codes_ofCodes scalars]
  induction list with
  | nil =>
    rw [inQuotes, Utf8.ofCodes, List.flatMap_nil, Utf8.runes_nil]
    exact .nil
  | cons code list ih =>
    obtain ⟨here, later⟩ := List.forall_mem_cons.mp scalars
    have spells := (ih later).quotedRune here
    rw [Utf8.ofCodes_cons, inQuotes_cons here, List.all_cons]
    convert spells using 1
    cases isPortable code <;> cases list.all isPortable <;> rfl

theorem quotedRune_ascii (code : Nat) :
    (∀ b ∈ quotedRune ⟨code, encodeScalar code⟩, b < 0x80) ∨
      quotedRune ⟨code, encodeScalar code⟩ = encodeScalar code := by
  have digits : ∀ digit < 16, Bytes.hexDigit digit < 0x80 := by decide
  have padded : ∀ mark : Bytes, (∀ b ∈ mark, b < 0x80) →
      ∀ width, ∀ b ∈ mark ++ Bytes.hexPadded width code, b < 0x80 := by
    intro mark ascii width b member
    rcases List.mem_append.mp member with before | behind
    · exact ascii b before
    · obtain ⟨digit, small, rfl⟩ := Bytes.mem_hexPadded behind
      exact digits digit small
  unfold Text.quotedRune
  rw [Utf8.isBad_encodeScalar, if_neg Bool.false_ne_true]
  split
  · exact .inl (by decide)
  split
  · exact .inl (by decide)
  split
  · exact .inr rfl
  left
  dsimp only
  split
  · decide
  · decide
  · decide
  · decide
  · decide
  · decide
  · decide
  · split
    · exact padded _ (by decide) 2
    · split
      · exact padded _ (by decide) 4
      · exact padded _ (by decide) 8

/-- Quoting keeps a text well-formed. -/
theorem isValid_quoted {text : Bytes} (valid : Utf8.isValid text = true) :
    Utf8.isValid (Text.quoted text) = true := by
  have quote : Utf8.isValid [34] = true := Utf8.isValid_of_ascii (by decide)
  have inner : Utf8.isValid (inQuotes text) = true := by
    obtain ⟨list, scalars, rfl⟩ := Utf8.isValid_iff.mp valid
    clear valid
    induction list with
    | nil =>
      rw [inQuotes, Utf8.ofCodes, List.flatMap_nil, Utf8.runes_nil]
      exact Utf8.isValid_of_ascii (List.forall_mem_nil _)
    | cons code list ih =>
      obtain ⟨here, later⟩ := List.forall_mem_cons.mp scalars
      rw [Utf8.ofCodes_cons, inQuotes_cons here]
      apply Utf8.isValid_append
      · rcases quotedRune_ascii code with ascii | same
        · exact Utf8.isValid_of_ascii ascii
        · rw [same]
          refine Utf8.isValid_iff.mpr ⟨[code], by simpa using here, ?_⟩
          rw [Utf8.ofCodes, List.flatMap_singleton]
      · exact ih later
  rw [quoted_eq]
  exact Utf8.isValid_append quote (Utf8.isValid_append inner quote)

end Toml

end Minilang
