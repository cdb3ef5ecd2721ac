import Minilang.Proofs.LinePositions

/-! Resolving is exact and can be undone. The line of an offset counts the line feeds before it, its
column counts from the start of that line, and the text of the line begins there. Later offsets have
later positions, and the lines, put together with line feeds, are the content. -/

namespace Minilang

namespace SourceFile

/-- The line of an offset begins at `start`, with no line feed in between. -/
structure OnLine (content : Bytes) (start offset : Nat) : Prop where
  begins : start = 0 ∨ content[start - 1]? = some 10
  before : start ≤ offset
  unbroken : ∀ i, start ≤ i → i < offset → content[i]? ≠ some 10

theorem OnLine.unique {content : Bytes} {first second offset : Nat}
    (here : OnLine content first offset) (there : OnLine content second offset) :
    first = second := by
  have behind : ∀ {low high : Nat}, OnLine content low offset → OnLine content high offset →
      high ≤ low := by
    intro low high lower higher
    by_contra less
    rcases higher.begins with zero | feed
    · omega
    · have := higher.before
      exact lower.unbroken (high - 1) (by omega) (by omega) feed
  exact Nat.le_antisymm (behind there here) (behind here there)

theorem mem_startsBehind {offset start : Nat} {content : Bytes} :
    start ∈ startsBehind offset content ↔ ∃ i, content[i]? = some 10 ∧ start = offset + i + 1 := by
  induction content generalizing offset with
  | nil => simp [startsBehind]
  | cons b rest ih =>
    have later : (∃ i, rest[i]? = some 10 ∧ start = offset + 1 + i + 1) ↔
        ∃ i, (b :: rest)[i + 1]? = some 10 ∧ start = offset + (i + 1) + 1 := by
      simp only [List.getElem?_cons_succ]
      exact exists_congr fun i => and_congr_right fun _ => by omega
    rw [startsBehind]
    split
    next feed =>
      rw [List.mem_cons, ih, later]
      constructor
      · rintro (rfl | ⟨i, found, rfl⟩)
        · exact ⟨0, by simp [feed], rfl⟩
        · exact ⟨i + 1, found, rfl⟩
      · rintro ⟨_ | i, found, rfl⟩
        · exact .inl rfl
        · exact .inr ⟨i, found, rfl⟩
    next other =>
      rw [ih, later]
      constructor
      · rintro ⟨i, found, rfl⟩
        exact ⟨i + 1, found, rfl⟩
      · rintro ⟨_ | i, found, rfl⟩
        · exact absurd (Option.some.inj found) other
        · exact ⟨i, found, rfl⟩

section Lines

variable {file : SourceFile} (made : file.starts = lineStarts file.content)
  (sized : file.size = file.content.length) (short : file.content.length < 2 ^ 32)

private theorem starts_lt {content : Bytes} {i j s t : Nat} (less : i < j)
    (here : (0 :: startsBehind 0 content)[i]? = some s)
    (there : (0 :: startsBehind 0 content)[j]? = some t) : s < t := by
  obtain ⟨ascending, above⟩ := startsBehind_ascending 0 content
  obtain ⟨inside, rfl⟩ := List.getElem?_eq_some_iff.mp here
  obtain ⟨within, rfl⟩ := List.getElem?_eq_some_iff.mp there
  exact List.pairwise_iff_getElem.mp (ascending.cons above) i j inside within less

/-- Behind the first start there is a line feed before every other. -/
private theorem feed_before {content : Bytes} {i t : Nat}
    (next : (0 :: startsBehind 0 content)[i + 1]? = some t) : 0 < t ∧ content[t - 1]? = some 10 := by
  rw [List.getElem?_cons_succ] at next
  obtain ⟨place, found, rfl⟩ := mem_startsBehind.mp (List.mem_of_getElem? next)
  refine ⟨by omega, ?_⟩
  rwa [show 0 + place + 1 - 1 = place by omega]

private theorem next_start {content : Bytes} {i s j : Nat}
    (here : (0 :: startsBehind 0 content)[i]? = some s) (behind : s ≤ j)
    (feed : content[j]? = some 10) :
    ∃ t, (0 :: startsBehind 0 content)[i + 1]? = some t ∧ t ≤ j + 1 := by
  have listed : j + 1 ∈ 0 :: startsBehind 0 content :=
    List.mem_cons_of_mem _ (mem_startsBehind.mpr ⟨j, feed, by omega⟩)
  obtain ⟨k, found⟩ := List.mem_iff_getElem?.mp listed
  have above : i < k := by
    by_contra le
    rcases Nat.lt_or_eq_of_le (Nat.not_lt.mp le) with less | rfl
    · have := starts_lt less found here
      omega
    · rw [here, Option.some.injEq] at found
      omega
  obtain ⟨inside, -⟩ := List.getElem?_eq_some_iff.mp found
  refine ⟨_, List.getElem?_eq_getElem (show i + 1 < _ by omega), ?_⟩
  rcases Nat.lt_or_eq_of_le above with less | rfl
  · exact (starts_lt less (List.getElem?_eq_getElem _) found).le
  · rw [List.getElem?_eq_getElem inside, Option.some.injEq] at found
    exact found.le

/-- The offsets from a start up to the next one lie on its line. -/
private theorem onLine_of_starts {content : Bytes} {i s offset : Nat}
    (here : (0 :: startsBehind 0 content)[i]? = some s) (before : s ≤ offset)
    (behind : ∀ t, (0 :: startsBehind 0 content)[i + 1]? = some t → offset < t) :
    OnLine content s offset where
  begins := by
    cases i with
    | zero => exact .inl (Option.some.inj here).symm
    | succ i => exact .inr (feed_before here).2
  before := before
  unbroken := by
    intro place from_ less feed
    obtain ⟨t, next, near⟩ := next_start here from_ feed
    have := behind t next
    omega

include made short in
private theorem line_cut {i s t : Nat} (here : (0 :: startsBehind 0 file.content)[i]? = some s)
    (next : (0 :: startsBehind 0 file.content)[i + 1]? = some t) :
    file.content.drop s = file.line (i + 1) ++ 10 :: file.content.drop t := by
  have size : file.lineCount = (0 :: startsBehind 0 file.content).length := by
    rw [lineCount_eq made short, List.length_cons, length_startsBehind]
  obtain ⟨inside, -⟩ := List.getElem?_eq_some_iff.mp next
  rw [← size, lineCount] at inside
  have start := starts_at made short (show i < file.starts.size by omega)
  rw [here, Option.some.injEq] at start
  have stop := starts_at made short inside
  rw [next, Option.some.injEq] at stop
  have less := starts_lt (Nat.lt_succ_self i) here next
  obtain ⟨positive, feed⟩ := feed_before next
  have text : file.line (i + 1) = (file.content.drop s).take (t - 1 - s) := by
    rw [line, lineCount, if_neg (by simp; omega), if_pos inside, Nat.add_sub_cancel, ← start, ← stop]
  have tail : (file.content.drop s).drop (t - 1 - s) = 10 :: file.content.drop t := by
    obtain ⟨within, found⟩ := List.getElem?_eq_some_iff.mp feed
    rw [List.drop_drop, show s + (t - 1 - s) = t - 1 by omega, List.drop_eq_getElem_cons within,
      found, Nat.sub_add_cancel positive]
  rw [text, ← tail, List.take_append_drop]

include made sized short in
private theorem line_last {i s : Nat} (here : (0 :: startsBehind 0 file.content)[i]? = some s)
    (last : (0 :: startsBehind 0 file.content)[i + 1]? = none) :
    file.line (i + 1) = file.content.drop s := by
  have size : file.starts.size = (0 :: startsBehind 0 file.content).length := by
    rw [← lineCount, lineCount_eq made short, List.length_cons, length_startsBehind]
  obtain ⟨inside, -⟩ := List.getElem?_eq_some_iff.mp here
  rw [← size] at inside
  have start := starts_at made short inside
  rw [here, Option.some.injEq] at start
  have beyond := List.getElem?_eq_none_iff.mp last
  rw [← size] at beyond
  rw [line, lineCount, if_neg (by simp; omega), if_neg (by omega), Nat.add_sub_cancel, ← start, sized]
  exact List.take_of_length_le (by rw [List.length_drop])

include made sized short in
/-- A line reaches from its start to the next line feed. -/
private theorem line_text {i s : Nat} (here : (0 :: startsBehind 0 file.content)[i]? = some s) :
    file.line (i + 1) = (file.content.drop s).takeWhile (· ≠ 10) := by
  have plain : ∀ {n : Nat}, (∀ j, s ≤ j → j < s + n → file.content[j]? ≠ some 10) →
      ∀ b ∈ (file.content.drop s).take n, decide (b ≠ 10) = true := by
    intro n clear b member
    obtain ⟨place, found⟩ := List.mem_iff_getElem?.mp member
    rw [List.getElem?_take] at found
    split at found
    next small =>
      rw [List.getElem?_drop] at found
      have := clear (s + place) (by omega) (by omega)
      rw [found] at this
      simpa using this
    · cases found
  cases next : (0 :: startsBehind 0 file.content)[i + 1]? with
  | some t =>
    have cut := line_cut made short here next
    have clear : ∀ b ∈ file.line (i + 1), decide (b ≠ 10) = true := by
      have whole : file.line (i + 1) = (file.content.drop s).take (file.line (i + 1)).length := by
        rw [cut, List.take_left]
      rw [whole]
      apply plain
      intro j from_ less feed
      obtain ⟨u, again, near⟩ := next_start here from_ feed
      rw [next, Option.some.injEq] at again
      have sizes := congrArg List.length cut
      rw [List.length_drop, List.length_append, List.length_cons, List.length_drop] at sizes
      have inside := (List.getElem?_eq_some_iff.mp (feed_before next).2).1
      omega
    rw [cut, List.takeWhile_append_of_pos clear]
    simp
  | none =>
    rw [line_last made sized short here next, eq_comm, List.takeWhile_eq_self_iff]
    have all := plain (n := (file.content.drop s).length) ?_
    · rwa [List.take_length] at all
    · intro j from_ less feed
      obtain ⟨t, found, -⟩ := next_start here from_ feed
      rw [next] at found
      cases found

include made sized short in
private theorem join_from (more i s : Nat) (here : (0 :: startsBehind 0 file.content)[i]? = some s)
    (count : i + more + 1 = file.lineCount) :
    Bytes.join [10] ((List.range' i (more + 1)).map fun j => file.line (j + 1)) =
      file.content.drop s := by
  have size : file.lineCount = (0 :: startsBehind 0 file.content).length := by
    rw [lineCount_eq made short, List.length_cons, length_startsBehind]
  induction more generalizing i s with
  | zero =>
    have last : (0 :: startsBehind 0 file.content)[i + 1]? = none :=
      List.getElem?_eq_none (by omega)
    rw [← line_last made sized short here last]
    simp [Bytes.join]
  | succ more ih =>
    have inside : i + 1 < (0 :: startsBehind 0 file.content).length := by omega
    have next := List.getElem?_eq_getElem inside
    have rest := ih (i + 1) _ next (by omega)
    rw [List.range'_succ, List.map_cons] at rest ⊢
    rw [line_cut made short here next, ← rest]
    simp [Bytes.join, List.range'_succ]

include made sized short in
theorem join_lines : Bytes.join [10] ((List.range file.lineCount).map fun i => file.line (i + 1)) =
    file.content := by
  have whole := join_from made sized short (file.lineCount - 1) 0 0 rfl
    (by rw [lineCount_eq made short]; omega)
  rw [show file.lineCount - 1 + 1 = file.lineCount by rw [lineCount_eq made short]; omega] at whole
  rwa [List.range_eq_range']

end Lines

/-- What the position of an offset says: how many line feeds come before it, how far it is from the
start of its line, and which text begins there. -/
structure Resolves (file : SourceFile) (offset : Nat) (place : LineCol) : Prop where
  line : place.line.toNat = 1 + (file.content.take offset).count 10
  column : ∃ start, OnLine file.content start offset ∧ place.column.toNat = offset - start + 1
  text : file.line place.line.toNat =
    (file.content.drop (offset - (place.column.toNat - 1))).takeWhile (· ≠ 10)

theorem lineCount_lt {file : SourceFile} (made : file.starts = lineStarts file.content)
    (short : file.content.length < 2 ^ 32 - 1) : file.lineCount < 2 ^ 32 := by
  have feeds : file.content.count 10 ≤ file.content.length := List.count_le_length
  rw [lineCount_eq made (by omega)]
  omega

theorem position_resolves {file : SourceFile} (made : file.starts = lineStarts file.content)
    (sized : file.size = file.content.length) (short : file.content.length < 2 ^ 32 - 1)
    {offset : UInt32} (inside : offset.toNat ≤ file.content.length) :
    file.Resolves offset.toNat (file.position offset) := by
  have brief : file.content.length < 2 ^ 32 := by omega
  have few := lineCount_lt made short
  obtain ⟨within, before, behind⟩ := lineIndex_last made brief offset
  have here := starts_at made brief within
  generalize found : lineIndex file.starts offset 64 0 file.starts.size = index at *
  have place : file.position offset =
      { line := (index + 1).toUInt32, column := offset - file.starts.getD index 0 + 1 } := by
    rw [position, found]
  have line : (file.position offset).line.toNat = index + 1 := by
    rw [place, Nat.toUInt32_eq]
    exact UInt32.toNat_ofNat_of_lt' (by rw [lineCount] at few; rw [UInt32.size]; omega)
  have column : (file.position offset).column.toNat =
      offset.toNat - (file.starts.getD index 0).toNat + 1 := by
    rw [place, UInt32.toNat_add, UInt32.toNat_sub_of_le _ _ (UInt32.le_iff_toNat_le.mpr before),
      UInt32.toNat_one]
    omega
  refine ⟨?_, ⟨_, onLine_of_starts here before behind, column⟩, ?_⟩
  · rw [position_line_toNat made brief few, lineNumber, Nat.add_comm]
  · rw [line, column, line_text made sized brief here]
    congr 2
    omega

end SourceFile

def LineCol.Before (first second : LineCol) : Prop :=
  first.line < second.line ∨ first.line = second.line ∧ first.column < second.column

theorem LineCol.Before.ne {first second : LineCol} (before : first.Before second) :
    first ≠ second := by
  rintro rfl
  rcases before with less | ⟨-, less⟩ <;> exact absurd less (UInt32.lt_irrefl _)

namespace SourceFile

theorem Resolves.before {file : SourceFile} {first second : Nat} {early late : LineCol}
    (here : file.Resolves first early) (there : file.Resolves second late) (less : first < second) :
    early.Before late := by
  have split : (file.content.take second).count 10 = (file.content.take first).count 10 +
      ((file.content.drop first).take (second - first)).count 10 := by
    rw [← List.count_append, ← List.take_add, Nat.add_sub_cancel' less.le]
  have before := here.line
  have behind := there.line
  by_cases feeds : ((file.content.drop first).take (second - first)).count 10 = 0
  · -- No line feed lies between them, so they are on one line.
    obtain ⟨start, onLine, column⟩ := here.column
    obtain ⟨other, onOther, otherColumn⟩ := there.column
    have same : OnLine file.content start second := by
      refine ⟨onLine.begins, onLine.before.trans less.le, ?_⟩
      intro i from_ to_ feed
      rcases Nat.lt_or_ge i first with early | late
      · exact onLine.unbroken i from_ early feed
      · apply List.count_eq_zero.mp feeds
        apply List.mem_of_getElem? (i := i - first)
        rw [List.getElem?_take, if_pos (by omega), List.getElem?_drop, Nat.add_sub_cancel' late, feed]
    have one := same.unique onOther
    have low := onLine.before
    refine .inr ⟨UInt32.toNat_inj.mp (by omega), UInt32.lt_iff_toNat_lt.mpr (by omega)⟩
  · exact .inl (UInt32.lt_iff_toNat_lt.mpr (by omega))

end SourceFile

namespace SourceSet

/-- The set of the files that are added one after another. -/
def addAll (set : SourceSet) (added : List (Bytes × Bytes × FileFlags)) : SourceSet :=
  added.foldl (fun set (path, content, flags) => (set.add path content flags).1) set

/-- What is added later changes no file. -/
theorem addAll_kept (added : List (Bytes × Bytes × FileFlags)) (set : SourceSet) {i : Nat}
    (inside : i < set.files.size) : (set.addAll added).files[i]? = set.files[i]? := by
  induction added generalizing set with
  | nil => rfl
  | cons file rest ih =>
    obtain ⟨path, content, flags⟩ := file
    have grown := ih (set.add path content flags).1 (by simp [add]; omega)
    refine grown.trans ?_
    simp [add, Array.getElem?_push, inside.ne]

theorem addAll_file (added : List (Bytes × Bytes × FileFlags)) (set : SourceSet) {i : Nat}
    {path content : Bytes} {flags : FileFlags} (there : added[i]? = some (path, content, flags)) :
    (set.addAll added).files[set.files.size + i]? =
      some (.make (set.files.size + i).toUInt32 path content flags) := by
  induction added generalizing set i with
  | nil => cases there
  | cons file rest ih =>
    cases i with
    | zero =>
      obtain rfl := Option.some.inj there
      refine (addAll_kept rest (set.add path content flags).1 (by simp [add])).trans ?_
      simp [add]
    | succ i =>
      obtain ⟨first, body, marks⟩ := file
      have later := ih (set.add first body marks).1 there
      rw [show (set.add first body marks).1.files.size + i = set.files.size + (i + 1) by
        simp [add]; omega] at later
      exact later

/-- Resolving is exact and can be undone. In a set of files that were added one after another, both
ends of a span of a file have the positions that its content says: the line counts the line feeds
before the offset, the column its distance from the start of the line, and the text of that line
begins there. Later offsets have later positions, so no two have the same, and the lines of the file
joined with line feeds are its content. -/
theorem positions_exact (added : List (Bytes × Bytes × FileFlags)) (few : added.length ≤ 2 ^ 32)
    {i : Nat} {path content : Bytes} {flags : FileFlags}
    (there : added[i]? = some (path, content, flags)) (short : content.length < 2 ^ 32 - 1) :
    ∃ file, (addAll {} added).get? i.toUInt32 = some file ∧ file.content = content ∧
      file.lineCount < 2 ^ 32 ∧
      (∀ start stop : UInt32, start.toNat ≤ content.length → stop.toNat ≤ content.length →
        ∃ early late, (addAll {} added).resolve? ⟨i.toUInt32, start, stop⟩ = some (early, late) ∧
          file.Resolves start.toNat early ∧ file.Resolves stop.toNat late ∧
          (start < stop → early.Before late) ∧ (early = late → start = stop)) ∧
      Bytes.join [10] ((List.range file.lineCount).map fun n => file.line (n + 1)) = content := by
  have inside := (List.getElem?_eq_some_iff.mp there).1
  have number : i.toUInt32.toNat = i := by
    rw [Nat.toUInt32_eq]
    exact UInt32.toNat_ofNat_of_lt' (by rw [UInt32.size]; omega)
  have found := addAll_file added {} there
  rw [show (({} : SourceSet).files.size + i) = i by simp] at found
  have file : (addAll {} added).get? i.toUInt32 = some (.make i.toUInt32 path content flags) := by
    rw [get?, number, found]
  refine ⟨_, file, rfl, SourceFile.lineCount_lt rfl short, ?_,
    SourceFile.join_lines rfl rfl (show content.length < _ by omega)⟩
  intro start stop first last
  have early : (SourceFile.make i.toUInt32 path content flags).Resolves start.toNat _ :=
    SourceFile.position_resolves rfl rfl short first
  have late : (SourceFile.make i.toUInt32 path content flags).Resolves stop.toNat _ :=
    SourceFile.position_resolves rfl rfl short last
  refine ⟨_, _, by rw [resolve?, file]; rfl, early, late, ?_, ?_⟩
  · intro less
    exact early.before late (UInt32.lt_iff_toNat_lt.mp less)
  · intro same
    rcases Nat.lt_trichotomy start.toNat stop.toNat with less | equal | greater
    · exact absurd same (early.before late less).ne
    · exact UInt32.toNat_inj.mp equal
    · exact absurd same.symm (late.before early greater).ne

def twoFiles : List (Bytes × Bytes × FileFlags) :=
  [("a.mini", "x;\n", {}), ("b.mini", "one\ntwo\nthree", { isVirtual := true })]

theorem twoFiles_positions :
    twoFiles.length ≤ 2 ^ 32 ∧ ("one\ntwo\nthree" : Bytes).length < 2 ^ 32 - 1 ∧
    ∃ file, (addAll {} twoFiles).get? 1 = some file ∧
      (∃ early late, (addAll {} twoFiles).resolve? ⟨1, 3, 4⟩ = some (early, late) ∧
        early.line.toNat = 1 ∧ late.line.toNat = 2 ∧ early.Before late) ∧
      Bytes.join [10] ((List.range file.lineCount).map fun n => file.line (n + 1)) =
        "one\ntwo\nthree" := by
  have few : twoFiles.length ≤ 2 ^ 32 := by decide
  have short : ("one\ntwo\nthree" : Bytes).length < 2 ^ 32 - 1 := by decide
  obtain ⟨file, found, content, -, resolved, joined⟩ :=
    positions_exact twoFiles few (i := 1) rfl short
  obtain ⟨early, late, both, first, second, order, -⟩ :=
    resolved 3 4 (by decide) (by decide)
  refine ⟨few, short, file, found, ⟨early, late, both, ?_, ?_, order (by decide)⟩, joined⟩
  · rw [first.line, content]
    decide
  · rw [second.line, content]
    decide

end SourceSet

end Minilang
