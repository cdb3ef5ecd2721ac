import Minilang.Proofs.Results
import Minilang.Text.Number

/-! Numbers read back from their decimal text. -/

namespace Minilang

namespace Bytes

private theorem code_digitChar : ∀ d < 10, code d.digitChar = (48 + d).toUInt8 := by decide

theorem dec_small {n : Nat} (small : n < 10) : dec n = [(48 + n).toUInt8] := by
  rw [dec, Nat.toDigits_of_lt_base small, List.map_singleton, code_digitChar n small]

theorem dec_large {n : Nat} (large : 10 ≤ n) :
    dec n = dec (n / 10) ++ [(48 + n % 10).toUInt8] := by
  rw [dec, Nat.toDigits_of_base_le (by decide) large, List.map_append, List.map_singleton,
    code_digitChar _ (Nat.mod_lt n (by decide))]
  rfl

theorem dec_ne_nil (n : Nat) : dec n ≠ [] := by
  simp [dec]

private theorem isDigit_digit : ∀ d < 10, isDigit (48 + d).toUInt8 = true := by decide

private theorem digit_value : ∀ d < 10, (48 + d).toUInt8.toNat - 48 = d := by decide

theorem isDigit_of_mem_dec {n : Nat} {b : UInt8} (member : b ∈ dec n) : isDigit b = true := by
  induction n using Nat.strongRecOn with
  | ind n ih =>
    by_cases small : n < 10
    · rw [dec_small small, List.mem_singleton] at member
      rw [member]
      exact isDigit_digit n small
    · rw [dec_large (by omega), List.mem_append, List.mem_singleton] at member
      rcases member with before | rfl
      · exact ih (n / 10) (by omega) before
      · exact isDigit_digit _ (Nat.mod_lt n (by decide))

end Bytes

namespace Text

open Bytes

private theorem digits?_append (bits : Nat) (first second : Bytes) (value : Nat) :
    digits? 10 bits (first ++ second) value =
      (digits? 10 bits first value >>= digits? 10 bits second) := by
  induction first generalizing value with
  | nil => rfl
  | cons b rest ih =>
    simp only [List.cons_append, digits?]
    generalize (if isDigit b then _ else _ : Nat) = digit
    by_cases bad : 10 ≤ digit
    · rw [if_pos bad, if_pos bad]
      rfl
    · rw [if_neg bad, if_neg bad]
      by_cases large : Nat.pow 2 bits ≤ value * 10 + digit
      · rw [if_pos large, if_pos large]
        rfl
      · rw [if_neg large, if_neg large]
        exact ih _

private theorem digits?_digit {bits d value : Nat} (small : d < 10)
    (fits : value * 10 + d < Nat.pow 2 bits) :
    digits? 10 bits [(48 + d).toUInt8] value = .ok (value * 10 + d) := by
  simp only [digits?, isDigit_digit d small, if_true, digit_value d small]
  rw [if_neg (by omega), if_neg (by omega)]

/-- The digits of a number have its value. -/
theorem digits?_dec (bits : Nat) {n : Nat} (fits : n < Nat.pow 2 bits) :
    digits? 10 bits (dec n) 0 = .ok n := by
  induction n using Nat.strongRecOn with
  | ind n ih =>
    by_cases small : n < 10
    · rw [dec_small small, digits?_digit small (by omega)]
      simp
    · have least := Nat.mod_lt n (by decide : 0 < 10)
      rw [dec_large (by omega), digits?_append, ih (n / 10) (by omega) (by omega), ok_bind,
        digits?_digit least (by omega)]
      congr 1
      omega

end Text

/-- Different numbers have different texts. -/
theorem Bytes.dec_inj {n m : Nat} (same : Bytes.dec n = Bytes.dec m) : n = m := by
  have below : ∀ k, k ≤ n + m → k < Nat.pow 2 (n + m) := by
    intro k most
    exact Nat.lt_of_le_of_lt most Nat.lt_two_pow_self
  have first := Text.digits?_dec _ (below n (by omega))
  rw [same, Text.digits?_dec _ (below m (by omega))] at first
  exact (Except.ok.inj first).symm

namespace Text

open Bytes

/-- Digits have no sign. -/
private theorem signed_digits {text : Bytes} (digits : ∀ b ∈ text, isDigit b = true) :
    signed text = (false, text) := by
  unfold signed
  split
  next rest => cases digits 43 List.mem_cons_self
  next rest => cases digits 45 List.mem_cons_self
  next => rfl

private theorem le_digitsFrom (text : Bytes) (value : Nat) :
    value ≤ text.foldl (fun n b => 10 * n + (b.toNat - 48)) value := by
  induction text generalizing value with
  | nil => exact Nat.le_refl _
  | cons b rest ih => exact Nat.le_trans (by omega) (ih (10 * value + (b.toNat - 48)))

theorem digits?_digits {bits : Nat} {text : Bytes} (digits : ∀ b ∈ text, isDigit b = true)
    {value : Nat}
    (fits : text.foldl (fun n b => 10 * n + (b.toNat - 48)) value < Nat.pow 2 bits) :
    digits? 10 bits text value =
      .ok (text.foldl (fun n b => 10 * n + (b.toNat - 48)) value) := by
  induction text generalizing value with
  | nil => rfl
  | cons b rest ih =>
    have digit := digits b List.mem_cons_self
    have less : b.toNat - 48 < 10 := by
      simp only [isDigit, Bool.and_eq_true, decide_eq_true_eq, UInt8.le_iff_toNat_le] at digit
      have high : b.toNat ≤ 57 := digit.2
      omega
    rw [List.foldl_cons, Nat.mul_comm] at fits ⊢
    have below := le_digitsFrom rest (value * 10 + (b.toNat - 48))
    simp only [digits?, digit, if_true]
    rw [if_neg (by omega), if_neg (by omega)]
    exact ih (fun c member => digits c (List.mem_cons_of_mem b member)) fits

/-- Digits are read as their value, if it is not too large. -/
theorem int32?_digits {text : Bytes} (some_ : text ≠ []) (digits : ∀ b ∈ text, isDigit b = true)
    (small : digitsValue text ≤ 2147483647) :
    int32? text = .ok (Int32.ofNat (digitsValue text)) := by
  have read : digits? 10 32 text 0 = .ok (digitsValue text) :=
    digits?_digits digits (Nat.lt_of_le_of_lt small (by decide))
  have whole : integer? 10 32 text = .ok (digitsValue text : Int) := by
    rw [integer?, signed_digits digits]
    simp only [read]
    rw [if_neg (by simpa using some_), if_neg (by simp)]
    exact if_neg (Nat.not_le.mpr (Nat.lt_of_le_of_lt small (by decide)))
  rw [int32?, whole]
  rfl

private theorem signed_dec (n : Nat) : signed (Bytes.dec n) = (false, Bytes.dec n) :=
  signed_digits fun _ => Bytes.isDigit_of_mem_dec

/-- A 32-bit integer is read back from its text. -/
theorem int32?_int (value : Int32) : int32? (Bytes.int value.toInt) = .ok value := by
  have low := value.le_toInt
  have high := value.toInt_lt
  suffices read : integer? 10 32 (Bytes.int value.toInt) = .ok value.toInt by
    rw [int32?, read]
    simp [Except.map]
  cases whole : value.toInt with
  | ofNat n =>
    rw [whole] at high
    have small : n < 2 ^ 31 := by
      have bound : (n : Int) < 2 ^ 31 := high
      omega
    have digits := Text.digits?_dec 32 (show n < 2 ^ 32 by omega)
    rw [Bytes.int, integer?, signed_dec]
    simp only [digits]
    rw [if_neg (by simp [Bytes.dec_ne_nil]), if_neg (by simp)]
    exact if_neg (Nat.not_le.mpr small)
  | negSucc n =>
    rw [whole] at low
    have small : n + 1 ≤ 2 ^ 31 := by
      have bound : -2 ^ 31 ≤ Int.negSucc n := low
      omega
    have digits := Text.digits?_dec 32 (show n + 1 < 2 ^ 32 by omega)
    have sign : signed (Bytes.code '-' :: Bytes.dec (n + 1)) = (true, Bytes.dec (n + 1)) := rfl
    rw [Bytes.int, integer?, sign]
    simp only [digits]
    rw [if_neg (by simp [Bytes.dec_ne_nil]), if_pos trivial]
    exact if_neg (Nat.not_lt.mpr small)

end Text

end Minilang
