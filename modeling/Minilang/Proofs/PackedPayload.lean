import Minilang.Cache.Payload
import Minilang.Proofs.PlainText

/-! A packed payload is read back as it was, as long as its texts are shorter than four gibibytes,
the greatest size that the format can tell. -/

namespace Minilang.Cache.Payload

theorem length_bigEndian (width n : Nat) : (bigEndian width n).length = width := by
  induction width generalizing n with
  | zero => rfl
  | succ width ih => simp [bigEndian, ih]

theorem value_append (high : Bytes) (low : UInt8) :
    value (high ++ [low]) = 256 * value high + low.toNat := by
  simp [value]

theorem value_bigEndian (width n : Nat) : value (bigEndian width n) = n % 256 ^ width := by
  induction width generalizing n with
  | zero => simp [bigEndian, value, Nat.mod_one]
  | succ width ih =>
    have low : (n % 256).toUInt8.toNat = n % 256 := by simp
    have split : 256 ^ (width + 1) = 256 * 256 ^ width := by rw [Nat.pow_succ, Nat.mul_comm]
    rw [bigEndian, value_append, ih, low, split, Nat.mod_mul]
    omega

theorem number?_bigEndian (width n : Nat) (rest : Bytes) :
    number? width (bigEndian width n ++ rest) = some (n % 256 ^ width, rest) := by
  have long : ¬ (bigEndian width n ++ rest).length < width := by
    rw [List.length_append, length_bigEndian]
    omega
  have head : (bigEndian width n ++ rest).take width = bigEndian width n :=
    List.take_left' (length_bigEndian width n)
  have tail : (bigEndian width n ++ rest).drop width = rest :=
    List.drop_left' (length_bigEndian width n)
  rw [number?, if_neg long, head, tail, value_bigEndian]

theorem content?_bigEndian {width : Nat} {content : Bytes} (fits : content.length < 256 ^ width)
    (rest : Bytes) : content? width (bigEndian width content.length ++ (content ++ rest)) =
      some (content, rest) := by
  rw [content?, number?_bigEndian, Nat.mod_eq_of_lt fits]
  simp

theorem unsized?_sized {code8 code16 code32 : UInt8} (first : code16 ≠ code8)
    (second : code32 ≠ code8) (third : code32 ≠ code16) {content : Bytes}
    (fits : content.length < 2 ^ 32) (rest : Bytes) :
    unsized? code8 code16 code32 (sized code8 code16 code32 content ++ rest) =
      some (content, rest) := by
  rw [sized]
  split
  next small =>
    rw [List.append_assoc, List.cons_append, unsized?, if_pos rfl]
    exact content?_bigEndian (by omega) rest
  next =>
    split
    next small =>
      rw [List.append_assoc, List.cons_append, unsized?, if_neg first, if_pos rfl]
      exact content?_bigEndian (by omega) rest
    next =>
      rw [List.append_assoc, List.cons_append, unsized?, if_neg second, if_neg third, if_pos rfl]
      exact content?_bigEndian (by omega) rest

theorem textValue?_textValue {text : Bytes} (fits : text.length < 2 ^ 32) (rest : Bytes) :
    textValue? (textValue text ++ rest) = some (text, rest) := by
  rw [textValue]
  split
  next short =>
    have low : text.length.toUInt8.toNat = text.length := by
      simp
      omega
    have number : (0xA0 + text.length.toUInt8).toNat = 0xA0 + text.length := by
      rw [UInt8.toNat_add, low]
      simp
      omega
    have size : ((0xA0 + text.length.toUInt8) - 0xA0).toNat = text.length := by
      rw [UInt8.toNat_sub, number]
      simp
      omega
    have inside : (0xA0 ≤ 0xA0 + text.length.toUInt8 && 0xA0 + text.length.toUInt8 < 0xC0) = true := by
      rw [Bool.and_eq_true, decide_eq_true_eq, decide_eq_true_eq, UInt8.le_iff_toNat_le,
        UInt8.lt_iff_toNat_lt, number]
      refine ⟨Nat.le_add_right _ _, ?_⟩
      simp
      omega
    rw [shortText, List.cons_append, textValue?, if_pos inside, size]
    simp
  next =>
    have other : ∀ tail, textValue? (sized 0xD9 0xDA 0xDB text ++ tail) =
        unsized? 0xD9 0xDA 0xDB (sized 0xD9 0xDA 0xDB text ++ tail) := by
      intro tail
      rw [sized]
      split
      · rfl
      · split <;> rfl
    rw [other]
    exact unsized?_sized (by decide) (by decide) (by decide) fits rest

theorem expect?_append (start rest : Bytes) : expect? start (start ++ rest) = some rest :=
  Bytes.after?_append start rest

/-- What was packed is read back. -/
theorem decode?_encode {payload : Payload} (path : payload.sourcePath.length < 2 ^ 32)
    (hash : payload.sourceHash.length < 2 ^ 32) (code : payload.code.length < 2 ^ 32) :
    decode? payload.encode = some payload := by
  have texts : ∀ rest, textValue? (textValue payload.sourcePath ++ rest) =
      some (payload.sourcePath, rest) := textValue?_textValue path
  have binaries : ∀ {content : Bytes}, content.length < 2 ^ 32 → ∀ rest,
      unsized? 0xC4 0xC5 0xC6 (binary content ++ rest) = some (content, rest) :=
    fun fits => unsized?_sized (by decide) (by decide) (by decide) fits
  have split : payload.encode = ([0x86] ++ shortText "Schema" ++ [0xCD]) ++
      (bigEndian 2 payload.schema.toNat ++ ((shortText "Target" ++ [0xCC]) ++
      ([payload.target] ++ (shortText "SourcePath" ++ (textValue payload.sourcePath ++
      (shortText "SourceHash" ++ (binary payload.sourceHash ++ (shortText "Code" ++
      (binary payload.code ++ ((shortText "CreatedAt" ++ [0xD3]) ++
      (bigEndian 8 payload.createdAt.toNat ++ []))))))))))) := by
    simp [encode]
  have target : ∀ rest, number? 1 ([payload.target] ++ rest) = some (payload.target.toNat, rest) := by
    intro rest
    have single : [payload.target] = bigEndian 1 payload.target.toNat := by
      simp [bigEndian]
    rw [single, number?_bigEndian]
    simp
  have schema : payload.schema.toNat % 256 ^ 2 = payload.schema.toNat :=
    Nat.mod_eq_of_lt payload.schema.toNat_lt
  have created : payload.createdAt.toNat % 256 ^ 8 = payload.createdAt.toNat :=
    Nat.mod_eq_of_lt payload.createdAt.toNat_lt
  rw [split, decode?]
  simp only [expect?_append, number?_bigEndian, target, texts, binaries hash, binaries code, schema,
    created, Option.bind_eq_bind, Option.bind_some, Option.pure_def]
  simp

end Minilang.Cache.Payload
