import Minilang.ClassFile.Decode

/-! Decoded instructions tile the code: each starts where the one before it ends. -/

namespace Minilang.ClassFile

/-- Instructions that cover the offsets from `first` to `last` without gap or overlap. -/
inductive Tiles : (first : Nat) → List Insn → (last : Nat) → Prop where
  | nil {offset : Nat} : Tiles offset [] offset
  | cons {insn : Insn} {rest : List Insn} {last : Nat} (positive : 0 < insn.length)
      (tail : Tiles (insn.offset + insn.length) rest last) : Tiles insn.offset (insn :: rest) last

/-- A decoded instruction stands at its offset and takes at least its opcode. -/
theorem decodeNext_tiles {offset : Nat} {first : UInt8} {rest : Bytes} {insn : Insn}
    {tail : { tail : Bytes // tail.length ≤ rest.length }}
    (decoded : decodeNext offset first rest = .ok (insn, tail)) :
    insn.offset = offset ∧ 0 < insn.length ∧ insn.length + tail.val.length = rest.length + 1 := by
  by_cases wide : (⟨first⟩ : Opcode) = .wide
  · simp only [decodeNext, wide, if_true] at decoded
    split at decoded
    · split at decoded
      · cases decoded
        refine ⟨rfl, Nat.zero_lt_succ 3, ?_⟩
        simp only [List.length_cons]
        omega
      · cases decoded
    · cases decoded
  · simp only [decodeNext, wide, if_false] at decoded
    split at decoded
    · cases decoded
    next name operands _ =>
      split at decoded
      · cases decoded
      next enough =>
        cases decoded
        refine ⟨rfl, Nat.lt_of_lt_of_le Nat.zero_lt_one (Nat.le_add_right 1 operands), ?_⟩
        simp only [List.length_take, List.length_drop] at enough ⊢
        omega

theorem decodeLoop_tiles {offset : Nat} {code : Bytes} {done insns : Array Insn}
    (decoded : decodeLoop offset code done = .ok insns) :
    ∃ list, insns.toList = done.toList ++ list ∧ Tiles offset list (offset + code.length) := by
  fun_induction decodeLoop offset code done with
  | case1 => cases decoded; exact ⟨[], by simp, .nil⟩
  | case2 => cases decoded
  | case3 offset done first rest insn tail shorter next ih =>
    obtain ⟨list, whole, tiles⟩ := ih decoded
    obtain ⟨rfl, positive, length⟩ := decodeNext_tiles next
    refine ⟨insn :: list, by simp [whole], .cons positive ?_⟩
    simp only at length
    have total : insn.offset + (first :: rest).length = insn.offset + insn.length + tail.length := by
      rw [List.length_cons]
      omega
    rw [total]
    exact tiles

theorem decode_tiles {code : Bytes} {insns : Array Insn} (decoded : decode code = .ok insns) :
    Tiles 0 insns.toList code.length := by
  obtain ⟨list, whole, tiles⟩ := decodeLoop_tiles decoded
  rw [Nat.zero_add] at tiles
  simpa [whole] using tiles

theorem Tiles.offset_ge {first last : Nat} {insns : List Insn} (tiles : Tiles first insns last) :
    ∀ insn ∈ insns, first ≤ insn.offset := by
  induction tiles with
  | nil => exact fun _ member => (List.not_mem_nil member).elim
  | cons positive tail ih =>
    intro other member
    rcases List.mem_cons.mp member with rfl | later
    · exact Nat.le_refl _
    · have := ih other later
      omega

/-- No two instructions start at the same offset. -/
theorem Tiles.offsets_nodup {first last : Nat} {insns : List Insn} (tiles : Tiles first insns last) :
    (insns.map Insn.offset).Nodup := by
  induction tiles with
  | nil => exact List.nodup_nil
  | @cons insn rest last positive tail ih =>
    refine List.nodup_cons.mpr ⟨?_, ih⟩
    intro member
    obtain ⟨other, later, same⟩ := List.mem_map.mp member
    have behind := tail.offset_ge other later
    omega

end Minilang.ClassFile
