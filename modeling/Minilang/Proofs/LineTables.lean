import Minilang.Proofs.LoadedClass

/-! Line tables. Repeated lines are left out of a table and a line that is announced twice at one
offset replaces the first; all the same, an instruction is found under the line that was announced
last before it. -/

namespace Minilang.ClassFile

/-- The line that entries give an offset: that of the last entry before the first one behind it. -/
def lineIn (lines : List LineEntry) (pc : Nat) : Nat :=
  ((lines.takeWhile fun entry => entry.pc ≤ pc).getLast?.map LineEntry.line).getD 0

theorem CodeInfo.lineAt_eq (code : CodeInfo) (pc : Nat) : code.lineAt pc = lineIn code.lines pc := by
  simp only [lineAt, lineIn, Int.ofNat_le]

theorem lineIn_concat {lines : List LineEntry} {entry : LineEntry} {pc : Nat}
    (behind : pc < entry.pc) : lineIn (lines ++ [entry]) pc = lineIn lines pc := by
  have stops : ¬entry.pc ≤ pc := Nat.not_le_of_lt behind
  rw [lineIn, List.takeWhile_append]
  split
  next all =>
    have whole := (List.takeWhile_prefix fun entry : LineEntry => decide (entry.pc ≤ pc)).eq_of_length all
    simp [lineIn, stops, whole]
  next => rfl

namespace Step

def line? : Step → Option Int
  | .line number => some number
  | _ => none

def Numbered (s : Step) : Prop := ∀ number ∈ s.line?, 0 < number ∧ number ≤ 65535

end Step

/-- The line announced last in some steps, or before them. -/
def lineBehind (current : Int) (steps : List Step) : Int :=
  steps.foldl (fun line s => s.line?.getD line) current

namespace Method

/-- The next instruction of a method belongs to a line. -/
structure ShowsLine (method : Method) (line : Int) : Prop where
  last : method.lastLine = line
  shown : (((method.lines.toList.getLast?.map LineEntry.line).getD 0 : Nat) : Int) = line
  early : ∀ entry ∈ method.lines.toList, entry.pc ≤ method.offset

theorem ShowsLine.lineIn {method : Method} {line : Int} (shows : method.ShowsLine line) {pc : Nat}
    (behind : method.offset ≤ pc) : (lineIn method.lines.toList pc : Int) = line := by
  have all : ∀ entry ∈ method.lines.toList, decide (entry.pc ≤ pc) = true :=
    fun entry member => decide_eq_true ((shows.early entry member).trans behind)
  rw [ClassFile.lineIn, List.takeWhile_eq_self_iff.mpr all]
  exact shows.shown

/-- A line that can be stored is the current one already, or it gets an entry at the offset, in the
place of one that stands there. -/
theorem addLine_cases (method : Method) {number : Int} (fits : 0 < number ∧ number ≤ 65535)
    (inside : method.offset ≤ 65535) :
    number = method.lastLine ∧ method.addLine number = method ∨
    (method.addLine number).lastLine = number ∧ (method.addLine number).offset = method.offset ∧
      ∃ kept, (method.addLine number).lines.toList = kept ++ [⟨method.offset, number.toNat⟩] ∧
        (method.lines.toList = kept ∨
          ∃ old, method.lines.toList = kept ++ [old] ∧ old.pc = method.offset) := by
  unfold addLine
  by_cases again : number = method.lastLine
  · exact .inl ⟨again, if_pos (.inr (.inr again))⟩
  · refine .inr ?_
    rw [if_neg (by omega)]
    dsimp only
    rw [if_neg (by dsimp only [offset] at *; omega)]
    split
    next same =>
      obtain ⟨old, ends, there⟩ := Option.map_eq_some_iff.mp same
      refine ⟨rfl, rfl, method.lines.toList.dropLast, by simp [offset], .inr ⟨old, ?_, there⟩⟩
      rw [← Array.getLast?_toList] at ends
      exact (List.dropLast_append_getLast? old ends).symm
    next => exact ⟨rfl, rfl, method.lines.toList, by simp [offset], .inl rfl⟩

theorem ShowsLine.addLine {method : Method} {line number : Int} (shows : method.ShowsLine line)
    (fits : 0 < number ∧ number ≤ 65535) (inside : method.offset ≤ 65535) :
    (method.addLine number).ShowsLine number ∧ (method.addLine number).offset = method.offset ∧
      ∀ pc < method.offset, ClassFile.lineIn (method.addLine number).lines.toList pc =
        ClassFile.lineIn method.lines.toList pc := by
  rcases method.addLine_cases fits inside with ⟨again, same⟩ | ⟨last, offset, kept, lines, old⟩
  · rw [same]
    obtain rfl : line = number := shows.last.symm.trans again.symm
    exact ⟨shows, rfl, fun _ _ => rfl⟩
  · refine ⟨⟨last, ?_, ?_⟩, offset, ?_⟩
    · rw [lines, List.getLast?_concat, Option.map_some, Option.getD_some]
      exact Int.toNat_of_nonneg (by omega)
    · intro entry member
      rw [offset]
      rw [lines, List.mem_append, List.mem_singleton] at member
      rcases member with before | rfl
      · rcases old with whole | ⟨entry', whole, -⟩
        · exact shows.early entry (whole ▸ before)
        · exact shows.early entry (whole ▸ List.mem_append_left _ before)
      · exact Nat.le_refl _
    · intro pc less
      rw [lines, lineIn_concat less]
      rcases old with whole | ⟨entry, whole, there⟩
      · rw [whole]
      · rw [whole, lineIn_concat (there.symm ▸ less)]

/-- A step sets the line that it announces, and keeps what is known of earlier offsets. -/
theorem ShowsLine.step {method after : Method} {line : Int} (shows : method.ShowsLine line)
    {s : Step} (numbered : s.Numbered) {pool next : Pool}
    (stepped : method.step pool s = .ok (after, next)) (inside : after.offset ≤ 65535) :
    after.ShowsLine (s.line?.getD line) ∧ method.offset ≤ after.offset ∧
      ∀ pc < method.offset, ClassFile.lineIn after.lines.toList pc =
        ClassFile.lineIn method.lines.toList pc := by
  have longer : method.offset ≤ after.offset := by
    rw [step_longer stepped]
    exact Nat.le_add_right _ _
  rcases step_lines stepped with ⟨silent, lines, last⟩ | ⟨number, rfl, rfl⟩
  · have none : s.line? = none := by
      cases s with
      | line number => exact absurd rfl (silent number)
      | insn | nops | push | classOperand | fieldOperand | methodOperand | localVar | jump | mark => rfl
    rw [lines, none]
    refine ⟨⟨last ▸ shows.last, lines ▸ shows.shown, fun entry member => ?_⟩, longer, fun _ _ => rfl⟩
    exact (shows.early entry (lines ▸ member)).trans longer
  · obtain ⟨shown, offset, old⟩ := shows.addLine (numbered number rfl) (longer.trans inside)
    exact ⟨shown, longer, old⟩

theorem steps_longer {method after : Method} {steps : List Step} {pool next : Pool}
    (assembled : method.steps pool steps = .ok (after, next)) : method.offset ≤ after.offset := by
  induction steps generalizing method pool with
  | nil =>
    cases assembled
    exact Nat.le_refl _
  | cons s rest ih =>
    simp only [Method.steps] at assembled
    split at assembled
    · cases assembled
    next middle grown stepped =>
      have longer := step_longer stepped
      exact Nat.le_trans (by omega) (ih assembled)

theorem ShowsLine.steps {method after : Method} {line : Int} (shows : method.ShowsLine line)
    {steps : List Step} (numbered : ∀ s ∈ steps, s.Numbered) {pool next : Pool}
    (assembled : method.steps pool steps = .ok (after, next)) (inside : after.offset ≤ 65535) :
    after.ShowsLine (lineBehind line steps) ∧
      ∀ pc < method.offset, ClassFile.lineIn after.lines.toList pc =
        ClassFile.lineIn method.lines.toList pc := by
  induction steps generalizing method pool line with
  | nil =>
    cases assembled
    exact ⟨shows, fun _ _ => rfl⟩
  | cons s rest ih =>
    obtain ⟨here, later⟩ := List.forall_mem_cons.mp numbered
    simp only [Method.steps] at assembled
    split at assembled
    · cases assembled
    next middle grown stepped =>
      obtain ⟨shown, grows, old⟩ := shows.step here stepped ((steps_longer assembled).trans inside)
      obtain ⟨last, older⟩ := ih shown later assembled
      refine ⟨last, fun pc less => ?_⟩
      rw [older pc (Nat.lt_of_lt_of_le less grows), old pc less]

/-- An instruction is found under the line that was announced last before it. -/
theorem ShowsLine.lineIn_steps {start method : Method} {line : Int} (shows : start.ShowsLine line)
    {first rest : List Step} {s : Step} (numbered : ∀ t ∈ first ++ s :: rest, t.Numbered)
    (usual : s.Usual) (one : s.size = 1) {pool next : Pool}
    (assembled : start.steps pool (first ++ s :: rest) = .ok (method, next))
    (short : method.offset ≤ 65535) :
    ∃ middle grown, start.steps pool first = .ok (middle, grown) ∧
      (ClassFile.lineIn method.lines.toList middle.offset : Int) = lineBehind line first := by
  rw [steps_append] at assembled
  cases front : start.steps pool first with
  | error fault =>
    rw [front] at assembled
    cases assembled
  | ok result =>
    obtain ⟨middle, grown⟩ := result
    refine ⟨middle, grown, rfl, ?_⟩
    rw [front] at assembled
    simp only [Method.steps] at assembled
    split at assembled
    · cases assembled
    next after larger stepped =>
      obtain ⟨before, behind⟩ := List.forall_mem_append.mp numbered
      obtain ⟨here, later⟩ := List.forall_mem_cons.mp behind
      have near : after.offset ≤ 65535 := (steps_longer assembled).trans short
      have longer : middle.offset < after.offset := by
        have some_ := width_le_codeBytes grown (List.forall_mem_singleton.mpr usual)
        rw [width_cons, one, codeBytes_cons, List.length_append] at some_
        rw [step_longer stepped]
        simp only [codeBytes_nil, List.length_nil] at some_
        omega
      obtain ⟨shown, -⟩ := shows.steps before front (by omega)
      -- The instruction itself adds no entry, and later entries stand behind it.
      obtain ⟨next, -⟩ := shown.step here stepped near
      obtain ⟨-, older⟩ := next.steps later assembled short
      rw [older _ longer]
      rcases step_lines stepped with ⟨-, lines, -⟩ | ⟨number, rfl, -⟩
      · rw [lines]
        exact shown.lineIn (Nat.le_refl _)
      · cases one

end Method

end Minilang.ClassFile
