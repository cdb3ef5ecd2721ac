import Mathlib
import Minilang.Source.File

/-! Lines of source files. The starts of the lines ascend, so the search for an offset ends at the
last start that is not behind it, and the number of that line counts the line feeds before the
offset. -/

namespace Minilang.SourceFile

/-- The starts of the lines that follow line feeds, for a content that begins at an offset. -/
def startsBehind (offset : Nat) : Bytes → List Nat
  | [] => []
  | b :: rest =>
      if b = 10 then (offset + 1) :: startsBehind (offset + 1) rest
      else startsBehind (offset + 1) rest

theorem startsLoop_toList (content : Bytes) (offset : UInt32) (starts : Array UInt32)
    (short : offset.toNat + content.length < 2 ^ 32) :
    (startsLoop content offset starts).toList.map UInt32.toNat =
      starts.toList.map UInt32.toNat ++ startsBehind offset.toNat content := by
  induction content generalizing offset starts with
  | nil => simp [startsLoop, startsBehind]
  | cons b rest ih =>
    rw [List.length_cons] at short
    have next : (offset + 1).toNat = offset.toNat + 1 := by
      rw [UInt32.toNat_add, UInt32.toNat_one, Nat.mod_eq_of_lt (by omega)]
    rw [startsLoop, ih _ _ (by omega), next, startsBehind]
    split
    · simp [next]
    · rfl

theorem lineStarts_toList {content : Bytes} (short : content.length < 2 ^ 32) :
    (lineStarts content).toList.map UInt32.toNat = 0 :: startsBehind 0 content := by
  rw [lineStarts, startsLoop_toList content 0 _ (by simpa using short)]
  rfl

theorem startsBehind_ascending (offset : Nat) (content : Bytes) :
    (startsBehind offset content).Pairwise (· < ·) ∧
      ∀ start ∈ startsBehind offset content, offset < start := by
  induction content generalizing offset with
  | nil => exact ⟨.nil, fun _ member => nomatch member⟩
  | cons b rest ih =>
    obtain ⟨ascending, above⟩ := ih (offset + 1)
    rw [startsBehind]
    split
    · refine ⟨ascending.cons above, List.forall_mem_cons.mpr ⟨Nat.lt_succ_self _, ?_⟩⟩
      exact fun start member => Nat.lt_of_succ_lt (above start member)
    · exact ⟨ascending, fun start member => Nat.lt_of_succ_lt (above start member)⟩

theorem countP_startsBehind (offset taken : Nat) (content : Bytes) :
    (startsBehind offset content).countP (· ≤ offset + taken) = (content.take taken).count 10 := by
  induction content generalizing offset taken with
  | nil => simp [startsBehind]
  | cons b rest ih =>
    cases taken with
    | zero =>
      rw [List.take_zero, List.count_nil, List.countP_eq_zero]
      intro start member
      have above := (startsBehind_ascending offset (b :: rest)).2 start member
      simpa using above
    | succ taken =>
      have later := ih (offset + 1) taken
      rw [show offset + 1 + taken = offset + (taken + 1) by omega] at later
      rw [startsBehind, List.take_succ_cons, List.count_cons, ← later]
      split
      next feed => simp [feed]
      next other => simp [other]

theorem length_startsBehind (offset : Nat) (content : Bytes) :
    (startsBehind offset content).length = content.count 10 := by
  induction content generalizing offset with
  | nil => rfl
  | cons b rest ih =>
    rw [startsBehind, List.count_cons]
    split
    next feed => simp [feed, ih]
    next other => simp [other, ih]

/-- The search ends at a start that is not behind the offset, and the next one is. -/
theorem lineIndex_between {starts : Array UInt32} {offset : UInt32} {fuel low high : Nat}
    (enough : high - low ≤ 2 ^ fuel) (room : low < high) (inside : high ≤ starts.size)
    (before : starts.getD low 0 ≤ offset)
    (behind : high < starts.size → offset < starts.getD high 0) :
    let index := lineIndex starts offset fuel low high
    index < starts.size ∧ starts.getD index 0 ≤ offset ∧
      (index + 1 < starts.size → offset < starts.getD (index + 1) 0) := by
  induction fuel generalizing low high with
  | zero =>
    have next : low + 1 = high := by
      rw [Nat.pow_zero] at enough
      omega
    exact ⟨Nat.lt_of_lt_of_le room inside, before, fun more => next ▸ behind (next ▸ more)⟩
  | succ fuel ih =>
    rw [Nat.pow_succ] at enough
    rw [lineIndex]
    split
    · dsimp only
      split
      next early => exact ih (by omega) (by omega) inside early behind
      next late => exact ih (by omega) (by omega) (by omega) before fun _ => UInt32.not_le.mp late
    next near =>
      have next : low + 1 = high := by omega
      exact ⟨by omega, before, fun more => next ▸ behind (next ▸ more)⟩

private theorem countP_of_between {numbers : List Nat} (ascending : numbers.Pairwise (· < ·))
    {bound i value : Nat} (here : numbers[i]? = some value) (before : value ≤ bound)
    (behind : ∀ next, numbers[i + 1]? = some next → bound < next) :
    numbers.countP (· ≤ bound) = i + 1 := by
  obtain ⟨inside, rfl⟩ := List.getElem?_eq_some_iff.mp here
  have ordered := List.pairwise_iff_getElem.mp ascending
  have low : (numbers.take (i + 1)).countP (· ≤ bound) = (numbers.take (i + 1)).length := by
    rw [List.countP_eq_length]
    intro number member
    obtain ⟨j, small, rfl⟩ := List.mem_take_iff_getElem.mp member
    rcases Nat.lt_or_ge j i with less | ge
    · have := ordered j i (by omega) inside less
      simp
      omega
    · obtain rfl : j = i := by omega
      simpa using before
  have high : (numbers.drop (i + 1)).countP (· ≤ bound) = 0 := by
    rw [List.countP_eq_zero]
    intro number member
    obtain ⟨j, small, rfl⟩ := List.mem_drop_iff_getElem.mp member
    have first := behind _ (List.getElem?_eq_getElem (by omega))
    rcases Nat.eq_zero_or_pos j with rfl | some_
    · simpa using first
    · have := ordered (i + 1) (i + 1 + j) (by omega) (by omega) (by omega)
      simp
      omega
  rw [← List.take_append_drop (i + 1) numbers, List.countP_append, low, high, List.length_take]
  omega

/-- The number of the line on which an offset lies: one more than there are line feeds before it. -/
def lineNumber (file : SourceFile) (offset : UInt32) : Nat :=
  (file.content.take offset.toNat).count 10 + 1

theorem lineCount_eq {file : SourceFile} (made : file.starts = lineStarts file.content)
    (short : file.content.length < 2 ^ 32) : file.lineCount = file.content.count 10 + 1 := by
  have starts := congrArg List.length (lineStarts_toList short)
  rw [List.length_map, List.length_cons, length_startsBehind, ← made, Array.length_toList] at starts
  exact starts

theorem starts_at {file : SourceFile} (made : file.starts = lineStarts file.content)
    (short : file.content.length < 2 ^ 32) {i : Nat} (inside : i < file.starts.size) :
    (0 :: startsBehind 0 file.content)[i]? = some (file.starts.getD i 0).toNat := by
  have listed := lineStarts_toList short
  rw [← made] at listed
  rw [← listed, List.getElem?_map, Array.getElem?_toList, Array.getElem?_eq_getElem inside,
    Array.getD_eq_getD_getElem?, Array.getElem?_eq_getElem inside]
  rfl

/-- The search for an offset finds the last start that is not behind it. -/
theorem lineIndex_last {file : SourceFile} (made : file.starts = lineStarts file.content)
    (short : file.content.length < 2 ^ 32) (offset : UInt32) :
    let index := lineIndex file.starts offset 64 0 file.starts.size
    index < file.starts.size ∧ (file.starts.getD index 0).toNat ≤ offset.toNat ∧
      ∀ next, (0 :: startsBehind 0 file.content)[index + 1]? = some next → offset.toNat < next := by
  have size : file.starts.size = file.content.count 10 + 1 := lineCount_eq made short
  have first : file.starts.getD 0 0 ≤ offset := by
    have zero := starts_at made short (show 0 < file.starts.size by omega)
    rw [List.getElem?_cons_zero, Option.some.injEq] at zero
    rw [UInt32.le_iff_toNat_le, ← zero]
    exact Nat.zero_le _
  have few : file.content.count 10 ≤ file.content.length := List.count_le_length
  obtain ⟨inside, before, behind⟩ := @lineIndex_between file.starts offset 64 0 file.starts.size
    (by omega) (by omega) (Nat.le_refl _) first fun beyond => absurd beyond (Nat.lt_irrefl _)
  refine ⟨inside, UInt32.le_iff_toNat_le.mp before, ?_⟩
  intro next found
  have more : lineIndex file.starts offset 64 0 file.starts.size + 1 < file.starts.size := by
    have bound := (List.getElem?_eq_some_iff.mp found).1
    rwa [List.length_cons, length_startsBehind, ← size] at bound
  rw [starts_at made short more, Option.some.injEq] at found
  exact found ▸ UInt32.lt_iff_toNat_lt.mp (behind more)

theorem position_line {file : SourceFile} (made : file.starts = lineStarts file.content)
    (short : file.content.length < 2 ^ 32) (offset : UInt32) :
    (file.position offset).line = (file.lineNumber offset).toUInt32 := by
  obtain ⟨inside, before, behind⟩ := lineIndex_last made short offset
  obtain ⟨ascending, above⟩ := startsBehind_ascending 0 file.content
  have counted := countP_of_between (ascending.cons above) (starts_at made short inside) before behind
  rw [List.countP_cons_of_pos (by simp), ← Nat.zero_add offset.toNat, countP_startsBehind] at counted
  rw [position, lineNumber, ← counted]

theorem lineNumber_le {file : SourceFile} (made : file.starts = lineStarts file.content)
    (short : file.content.length < 2 ^ 32) (offset : UInt32) :
    file.lineNumber offset ≤ file.lineCount := by
  have fewer : (file.content.take offset.toNat).count 10 ≤ file.content.count 10 :=
    (List.take_sublist _ _).count_le 10
  rw [lineCount_eq made short, lineNumber]
  omega

theorem position_line_toNat {file : SourceFile} (made : file.starts = lineStarts file.content)
    (short : file.content.length < 2 ^ 32) (few : file.lineCount < 2 ^ 32) (offset : UInt32) :
    (file.position offset).line.toNat = file.lineNumber offset := by
  have small := lineNumber_le made short offset
  rw [position_line made short, Nat.toUInt32_eq,
    UInt32.toNat_ofNat_of_lt' (by rw [UInt32.size]; omega)]

end Minilang.SourceFile
