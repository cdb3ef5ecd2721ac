import Minilang.Proofs.ValidText
import Minilang.Text.Blank

/-! Taking plain ASCII text apart: lines, words, and what stands before and behind a mark. -/

namespace Minilang

namespace Bytes

theorem forall_byte {holds : UInt8 → Prop} (all : ∀ n : Fin 256, holds n.val.toUInt8) (b : UInt8) :
    holds b := by
  simpa using all ⟨b.toNat, b.toNat_lt⟩

/-- What every byte of a text is like is found by going through the text. -/
instance (priority := high) {p : UInt8 → Prop} [DecidablePred p] (text : Bytes) :
    Decidable (∀ b ∈ text, p b) := List.decidableBAll p text

theorem after?_append (start text : Bytes) : after? start (start ++ text) = some text := by
  induction start with
  | nil => rfl
  | cons b rest ih => simpa [after?] using ih

theorem before?_append (text tail : Bytes) : before? tail (text ++ tail) = some text := by
  simp [before?]

/-- The text around a byte that does not stand before. -/
theorem cut?_append {byte : UInt8} {before : Bytes} (absent : byte ∉ before) (behind : Bytes) :
    cut? byte (before ++ byte :: behind) = some (before, behind) := by
  have differ : ∀ b ∈ before, (b != byte) = true := by
    intro b member
    simp only [bne_iff_ne]
    rintro rfl
    exact absent member
  have rest : (before ++ byte :: behind).dropWhile (· != byte) = byte :: behind := by
    rw [List.dropWhile_append_of_pos differ, List.dropWhile_cons_of_neg (by simp)]
  have first : (before ++ byte :: behind).takeWhile (· != byte) = before := by
    rw [List.takeWhile_append_of_pos differ, List.takeWhile_cons_of_neg (by simp), List.append_nil]
  rw [cut?, rest, first]

private theorem splitLoop_append {byte : UInt8} {before : Bytes} (absent : byte ∉ before)
    (behind piece : Bytes) (done : List Bytes) :
    splitLoop byte (before ++ behind) piece done =
      splitLoop byte behind (before.reverse ++ piece) done := by
  induction before generalizing piece with
  | nil => rfl
  | cons b rest ih =>
    simp only [List.mem_cons, not_or] at absent
    obtain ⟨differ, absent⟩ := absent
    rw [List.cons_append, splitLoop, if_neg (Ne.symm differ), ih absent]
    simp

private theorem splitLoop_done (byte : UInt8) (text piece : Bytes) (done : List Bytes) :
    splitLoop byte text piece done = done.reverse ++ splitLoop byte text piece [] := by
  induction text generalizing piece done with
  | nil => simp [splitLoop]
  | cons b rest ih =>
    simp only [splitLoop]
    split
    · rw [ih, ih [] [piece.reverse]]
      simp
    · exact ih _ _

/-- A line that ends, and the lines behind it. -/
theorem split_line {byte : UInt8} {line : Bytes} (absent : byte ∉ line) (rest : Bytes) :
    split byte (line ++ byte :: rest) = line :: split byte rest := by
  rw [split, splitLoop_append absent, splitLoop, if_pos rfl, splitLoop_done]
  simp [split]

theorem split_nil (byte : UInt8) : split byte [] = [[]] := rfl

theorem split_of_absent {byte : UInt8} {text : Bytes} (absent : byte ∉ text) :
    split byte text = [text] := by
  have whole := splitLoop_append absent [] [] []
  rw [List.append_nil] at whole
  rw [split, whole]
  simp [splitLoop]

/-- The pieces on both sides of an occurrence. -/
theorem split_append (byte : UInt8) (first rest : Bytes) :
    split byte (first ++ byte :: rest) = split byte first ++ split byte rest := by
  suffices loop : ∀ piece, splitLoop byte (first ++ byte :: rest) piece [] =
      splitLoop byte first piece [] ++ split byte rest from loop []
  induction first with
  | nil =>
    intro piece
    simp only [List.nil_append, splitLoop, if_true]
    exact splitLoop_done byte rest [] [piece.reverse]
  | cons b first ih =>
    intro piece
    rw [List.cons_append, splitLoop, splitLoop]
    split
    · rw [splitLoop_done, ih, splitLoop_done byte first [] [piece.reverse], List.append_assoc]
    · exact ih _

/-- No piece has the byte in it. -/
theorem absent_of_mem_split {byte : UInt8} {text part : Bytes} (member : part ∈ split byte text) :
    byte ∉ part := by
  suffices loop : ∀ piece, byte ∉ piece → part ∈ splitLoop byte text piece [] → byte ∉ part from
    loop [] List.not_mem_nil member
  clear member
  induction text with
  | nil =>
    intro piece absent member
    rw [splitLoop, List.reverse_singleton, List.mem_singleton] at member
    rwa [member, List.mem_reverse]
  | cons b rest ih =>
    intro piece absent member
    rw [splitLoop] at member
    split at member
    · rw [splitLoop_done, List.mem_append] at member
      rcases member with first | later
      · rw [List.reverse_singleton, List.mem_singleton] at first
        rwa [first, List.mem_reverse]
      · exact ih [] List.not_mem_nil later
    · next differ =>
      refine ih (b :: piece) ?_ member
      rw [List.mem_cons, not_or]
      exact ⟨Ne.symm differ, absent⟩

/-- A text joined from pieces without the byte comes apart into them. -/
theorem split_join {byte : UInt8} {parts : List Bytes} (absent : ∀ part ∈ parts, byte ∉ part)
    (some_ : parts ≠ []) : split byte (join [byte] parts) = parts := by
  cases parts with
  | nil => exact absurd rfl some_
  | cons first rest =>
    rw [List.forall_mem_cons] at absent
    obtain ⟨here, later⟩ := absent
    clear some_
    induction rest generalizing first with
    | nil => simpa [join] using split_of_absent here
    | cons second rest ih =>
      rw [List.forall_mem_cons] at later
      have apart := ih second later.1 later.2
      rw [join] at apart ⊢
      rw [List.flatMap_cons, List.append_assoc, List.singleton_append, split_line here, apart]

/-- The first place of a pattern whose first byte does not stand before. -/
theorem find?_append {byte : UInt8} {before : Bytes} (absent : byte ∉ before) (pattern rest : Bytes) :
    find? (byte :: pattern) (before ++ (byte :: pattern ++ rest)) = some before.length := by
  suffices loop : ∀ k, findLoop (byte :: pattern) (before ++ (byte :: pattern ++ rest)) k =
      some (k + before.length) by
    simpa [find?] using loop 0
  induction before with
  | nil =>
    intro k
    simp [findLoop]
  | cons b before ih =>
    intro k
    simp only [List.mem_cons, not_or] at absent
    obtain ⟨differ, absent⟩ := absent
    rw [List.cons_append, findLoop, if_neg (by simp [List.isPrefixOf, differ]), ih absent,
      List.length_cons]
    congr 1
    omega

/-- A run ends where what follows is of another kind. -/
theorem takeWhile_stops {test : UInt8 → Bool} {text rest : Bytes}
    (passes : ∀ b ∈ text, test b = true) (stops : rest.head?.any test = false) :
    (text ++ rest).takeWhile test = text := by
  rw [List.takeWhile_append_of_pos passes]
  cases rest with
  | nil => simp
  | cons b rest =>
    have fails : ¬ test b = true := by simpa using stops
    rw [List.takeWhile_cons_of_neg fails, List.append_nil]

end Bytes

namespace Utf8

/-- A rune is read from the first bytes. -/
theorem next?_bytes {text rest : Bytes} {rune : Rune} (step : next? text = some (rune, rest)) :
    text = rune.bytes ++ rest := by
  unfold next? at step
  grind

/-- The runes of a text spell it. -/
theorem runes_bytes (text : Bytes) : (runes text).flatMap Rune.bytes = text := by
  induction length : text.length using Nat.strongRecOn generalizing text with
  | _ n ih =>
    cases step : next? text with
    | none =>
      cases text with
      | nil => rw [runes_nil]; rfl
      | cons a rest =>
        unfold next? at step
        grind
    | some read =>
      obtain ⟨rune, rest⟩ := read
      have shorter := length ▸ next?_shorter step
      rw [runes_of_next? step, List.flatMap_cons, ih _ shorter rest rfl, ← next?_bytes step]

theorem next?_ascii {b : UInt8} (ascii : b < 0x80) (rest : Bytes) :
    next? (b :: rest) = some (⟨b.toNat, [b]⟩, rest) := by
  simp only [next?, ascii, if_true]

theorem runes_ascii {before : Bytes} (ascii : ∀ b ∈ before, b < 0x80) (rest : Bytes) :
    runes (before ++ rest) = before.map (fun b => ⟨b.toNat, [b]⟩) ++ runes rest := by
  induction before with
  | nil => rfl
  | cons b before ih =>
    obtain ⟨here, later⟩ := List.forall_mem_cons.mp ascii
    rw [List.cons_append, runes_of_next? (next?_ascii here _), ih later]
    rfl

end Utf8

namespace Text

open Utf8 (Rune runes)

/-- A visible ASCII character. -/
def isSolid (b : UInt8) : Bool := 33 ≤ b && b < 127

theorem ascii_of_solid {b : UInt8} (solid : isSolid b = true) : b < 0x80 := by
  simp only [isSolid, Bool.and_eq_true, decide_eq_true_eq] at solid
  exact UInt8.lt_trans solid.2 (by decide)

theorem isBlank_solid {b : UInt8} (solid : isSolid b = true) : isBlank b.toNat = false := by
  simp only [isSolid, Bool.and_eq_true, decide_eq_true_eq, UInt8.le_iff_toNat_le,
    UInt8.lt_iff_toNat_lt] at solid
  have low : 33 ≤ b.toNat := solid.1
  have high : b.toNat < 127 := solid.2
  simp only [isBlank, Bool.or_eq_false_iff, Bool.and_eq_false_iff, decide_eq_false_iff_not,
    beq_eq_false_iff_ne]
  omega

theorem trimStart_solid {b : UInt8} (solid : isSolid b = true) (rest : Bytes) :
    trimStart (b :: rest) = b :: rest := by
  have step := Utf8.next?_ascii (ascii_of_solid solid) rest
  rw [trimStart]
  split
  next none =>
    rw [step] at none
    cases none
  next same =>
    rw [step] at same
    cases same
    rw [if_neg (by simp [isBlank_solid solid])]

theorem trimStart_space (rest : Bytes) : trimStart (32 :: rest) = trimStart rest := by
  have step := Utf8.next?_ascii (b := 32) (by decide) rest
  rw [trimStart]
  split
  next none =>
    rw [step] at none
    cases none
  next same =>
    rw [step] at same
    cases same
    rw [if_pos (by decide)]

/-- Words that are separated by single blanks, and nothing else: a text that trimming leaves
alone. -/
structure Phrase (text : Bytes) : Prop where
  visible : ∀ b ∈ text, isSolid b = true ∨ b = 32
  first : ∃ b rest, text = b :: rest ∧ isSolid b = true
  last : ∃ b rest, text = rest ++ [b] ∧ isSolid b = true

namespace Phrase

theorem of_solid {text : Bytes} (some_ : text ≠ []) (solid : ∀ b ∈ text, isSolid b = true) :
    Phrase text where
  visible := fun b member => .inl (solid b member)
  first := by
    obtain ⟨b, rest, rfl⟩ := List.exists_cons_of_ne_nil some_
    exact ⟨b, rest, rfl, solid b List.mem_cons_self⟩
  last := by
    obtain ⟨rest, b, rfl⟩ := List.eq_nil_or_concat text |>.resolve_left some_
    exact ⟨b, rest, by simp, solid b (by simp)⟩

theorem of_ends {text : Bytes} (visible : ∀ b ∈ text, isSolid b = true ∨ b = 32)
    (begins : text.head?.any isSolid = true) (ends : text.getLast?.any isSolid = true) :
    Phrase text where
  visible := visible
  first := by
    obtain ⟨b, here, solid⟩ := (Option.any_eq_true _ _).mp begins
    obtain ⟨rest, rfl⟩ := List.head?_eq_some_iff.mp here
    exact ⟨b, rest, rfl, solid⟩
  last := by
    obtain ⟨b, here, solid⟩ := (Option.any_eq_true _ _).mp ends
    obtain ⟨rest, rfl⟩ := List.getLast?_eq_some_iff.mp here
    exact ⟨b, rest, rfl, solid⟩

theorem append {first second between : Bytes} (begins : Phrase first) (ends : Phrase second)
    (visible : ∀ b ∈ between, isSolid b = true ∨ b = 32) : Phrase (first ++ (between ++ second)) where
  visible := by
    simp only [List.mem_append, or_imp, forall_and]
    exact ⟨begins.visible, visible, ends.visible⟩
  first := by
    obtain ⟨b, rest, rfl, solid⟩ := begins.first
    exact ⟨b, rest ++ (between ++ second), rfl, solid⟩
  last := by
    obtain ⟨b, rest, rfl, solid⟩ := ends.last
    exact ⟨b, first ++ (between ++ rest), by simp, solid⟩

theorem pair {first second : Bytes} (begins : Phrase first) (ends : Phrase second) :
    Phrase (first ++ 32 :: second) :=
  begins.append ends fun _ member => .inr (List.mem_singleton.mp member)

theorem ascii {text : Bytes} (phrase : Phrase text) : ∀ b ∈ text, b < 0x80 := by
  intro b member
  rcases phrase.visible b member with solid | rfl
  · exact ascii_of_solid solid
  · decide

end Phrase

private theorem dropEnd_prefix (before behind : List Rune) {rune : Rune}
    (visible : isBlank rune.code = false) :
    ∃ kept, ((before ++ rune :: behind).reverse.dropWhile fun rune => isBlank rune.code).reverse =
      before ++ rune :: kept := by
  refine ⟨(behind.reverse.dropWhile fun rune => isBlank rune.code).reverse, ?_⟩
  rw [List.reverse_append, List.reverse_cons, List.append_assoc, List.dropWhile_append]
  split
  next empty =>
    have nothing := List.isEmpty_iff.mp empty
    simp [nothing, visible]
  next => simp

/-- Trimming keeps what begins and ends with visible characters, whatever follows. -/
theorem trim_prefix {start : Bytes} (phrase : Phrase start) (rest : Bytes) :
    ∃ kept, trim (start ++ rest) = start ++ kept := by
  obtain ⟨b, tail, same, solid⟩ := phrase.first
  obtain ⟨z, init, ends, visible⟩ := phrase.last
  have whole : trimStart (start ++ rest) = start ++ rest := by
    rw [same, List.cons_append, trimStart_solid solid]
  have initial : ∀ b ∈ init, b < 0x80 := fun b member => phrase.ascii b (by simp [ends, member])
  have split : runes (start ++ rest) =
      init.map (fun b => ⟨b.toNat, [b]⟩) ++ (⟨z.toNat, [z]⟩ :: runes rest) := by
    rw [ends, List.append_assoc, Utf8.runes_ascii initial,
      Utf8.runes_ascii (by simpa using ascii_of_solid visible)]
    rfl
  have blank : isBlank (⟨z.toNat, [z]⟩ : Rune).code = false := isBlank_solid visible
  obtain ⟨kept, trimmed⟩ := dropEnd_prefix (init.map fun b => ⟨b.toNat, [b]⟩) (runes rest) blank
  refine ⟨kept.flatMap Rune.bytes, ?_⟩
  rw [trim, whole, split, trimmed, join, ends]
  simp [List.flatMap_map]

theorem trim_phrase {text : Bytes} (phrase : Phrase text) : trim text = text := by
  obtain ⟨b, tail, same, solid⟩ := phrase.first
  obtain ⟨z, init, ends, visible⟩ := phrase.last
  have whole : trimStart text = text := by rw [same, trimStart_solid solid]
  have split : runes text = text.map fun b => ⟨b.toNat, [b]⟩ := by
    simpa [Utf8.runes_nil] using Utf8.runes_ascii phrase.ascii []
  rw [trim, whole, split, ends, List.map_append, List.reverse_append, List.map_singleton,
    List.reverse_singleton, List.singleton_append,
    List.dropWhile_cons_of_neg (by simp [isBlank_solid visible]), List.reverse_cons,
    List.reverse_reverse, join]
  simp [List.flatMap_map]

theorem trim_space (text : Bytes) : trim (32 :: text) = trim text := by
  rw [trim, trimStart_space, trim]

private theorem wordsLoop_solid {before : Bytes} (solid : ∀ b ∈ before, isSolid b = true)
    (rest : List Rune) (word : Bytes) (done : List Bytes) :
    wordsLoop (before.map (fun b => ⟨b.toNat, [b]⟩) ++ rest) word done =
      wordsLoop rest (before.reverse ++ word) done := by
  induction before generalizing word with
  | nil => rfl
  | cons b before ih =>
    obtain ⟨here, later⟩ := List.forall_mem_cons.mp solid
    rw [List.map_cons, List.cons_append, wordsLoop, if_neg (by simp [isBlank_solid here]),
      ih later]
    simp

/-- Two words are read back. -/
theorem words_pair {first second : Bytes} (begins : first ≠ []) (ends : second ≠ [])
    (one : ∀ b ∈ first, isSolid b = true) (two : ∀ b ∈ second, isSolid b = true) :
    words (first ++ 32 :: second) = [first, second] := by
  have split : runes (first ++ 32 :: second) = first.map (fun b => ⟨b.toNat, [b]⟩) ++
      (⟨32, [32]⟩ :: (second.map (fun b => ⟨b.toNat, [b]⟩) ++ [])) := by
    rw [Utf8.runes_ascii fun b member => ascii_of_solid (one b member),
      Utf8.runes_of_next? (Utf8.next?_ascii (by decide) second)]
    have tail := Utf8.runes_ascii (fun b member => ascii_of_solid (two b member)) []
    rw [List.append_nil] at tail
    rw [tail, Utf8.runes_nil]
    rfl
  rw [words, split, wordsLoop_solid one, wordsLoop, if_pos (by decide), if_neg (by simp [begins]),
    wordsLoop_solid two, wordsLoop, if_neg (by simp [ends])]
  simp

end Text

end Minilang
