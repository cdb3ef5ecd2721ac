import Minilang.Proofs.CodeLayout

/-! Decoded bodies that do what a list of steps says. Positions count instructions, so marks and
lines take no room; a jump goes to the position of its mark. -/

namespace Minilang.ClassFile

/-- The code stands in a list of steps with `p` instructions before it. -/
def CodeAt (main : List Step) (p : Nat) (code : List Step) : Prop :=
  ∃ first rest, main = first ++ code ++ rest ∧ width first = p

namespace CodeAt

variable {main code more : List Step} {p : Nat} {s : Step}

theorem left (at_ : CodeAt main p (code ++ more)) : CodeAt main p code := by
  obtain ⟨first, rest, rfl, rfl⟩ := at_
  exact ⟨first, more ++ rest, by simp, rfl⟩

theorem right (at_ : CodeAt main p (code ++ more)) : CodeAt main (p + width code) more := by
  obtain ⟨first, rest, rfl, rfl⟩ := at_
  exact ⟨first ++ code, rest, by simp, by simp⟩

theorem head (at_ : CodeAt main p (s :: code)) : CodeAt main p [s] := by
  obtain ⟨first, rest, rfl, rfl⟩ := at_
  exact ⟨first, code ++ rest, by simp, rfl⟩

theorem tail (at_ : CodeAt main p (s :: code)) : CodeAt main (p + s.size) code := by
  obtain ⟨first, rest, rfl, rfl⟩ := at_
  exact ⟨first ++ [s], rest, by simp, by simp⟩

theorem bound (at_ : CodeAt main p code) : p + width code ≤ width main := by
  obtain ⟨first, rest, rfl, rfl⟩ := at_
  simp only [width_append]
  omega

end CodeAt

theorem CodeAt.exists {main : List Step} (usual : ∀ s ∈ main, s.Usual) {p : Nat}
    (inside : p < width main) : ∃ s, CodeAt main p [s] ∧ s.size = 1 ∧ s ∈ main := by
  induction main generalizing p with
  | nil => cases inside
  | cons s rest ih =>
    obtain ⟨here, later⟩ := List.forall_mem_cons.mp usual
    have behind : ∀ {q}, q < width rest → p = s.size + q →
        ∃ t, CodeAt (s :: rest) p [t] ∧ t.size = 1 ∧ t ∈ s :: rest := by
      intro q more same
      obtain ⟨t, ⟨first, last, code, wide⟩, one, member⟩ := ih later more
      exact ⟨t, ⟨s :: first, last, by simp [code], by simp [wide, same]⟩, one,
        List.mem_cons_of_mem s member⟩
    rw [width_cons] at inside
    rcases here.size {} with one | ⟨none, -⟩
    · cases p with
      | zero => exact ⟨s, ⟨[], rest, rfl, rfl⟩, one, List.mem_cons_self⟩
      | succ p => exact behind (q := p) (by omega) (by omega)
    · exact behind (q := p) (by omega) (by omega)

/-- Only jumps have a target, which is that of their label. -/
theorem Step.Means.target {s : Step} (usual : s.Usual) {pool : Pool} {target : Nat → Option Nat}
    {action : Action} (means : s.Means pool target action) {aim : Int}
    (jumps : action.target? = some aim) :
    ∃ op label place, s = .jump op label ∧ target label = some place ∧ aim = (place : Nat) := by
  cases s with
  | jump op label =>
    obtain ⟨place, bound, rfl⟩ := means
    refine ⟨op, label, place, rfl, bound, ?_⟩
    have does : ∀ op ∈ jumpOpcodes, ∀ place : Int, (op.does place).target? = some place := by
      intro op member place
      simp only [jumpOpcodes, Cond.all, List.map_cons, List.map_nil, List.cons_append,
        List.nil_append, List.mem_cons, List.not_mem_nil, or_false] at member
      rcases member with rfl | rfl | rfl | rfl | rfl | rfl | rfl | rfl | rfl | rfl | rfl | rfl | rfl <;>
        rfl
    rw [does op usual] at jumps
    exact (Option.some.inj jumps).symm
  | insn op =>
    have does : ∀ op ∈ plainOpcodes, (op.does 0).target? = none := by decide
    rw [show action = _ from means, does op usual] at jumps
    cases jumps
  | push value =>
    rcases means with rfl | ⟨i, rfl, -⟩ <;> cases jumps
  | localVar op slot =>
    rw [show action = _ from means] at jumps
    rcases Opcode.isLocal_iff.mp usual.1 with rfl | rfl | rfl | rfl <;> cases jumps
  | classOperand op name =>
    obtain ⟨i, rfl, -⟩ := means
    cases usual
    cases jumps
  | fieldOperand op ref =>
    obtain ⟨i, rfl, -⟩ := means
    cases usual
    cases jumps
  | methodOperand op ref =>
    obtain ⟨i, rfl, -⟩ := means
    rcases usual with rfl | rfl <;> cases jumps
  | mark | line | nops => exact means.elim

/-- A body and its pool that realise the steps before a return; `target` gives the offsets of the
labels. -/
structure Realizes (main : List Step) (body : Body) (pool : Pool) (target : Nat → Option Nat) :
    Prop where
  size : body.insns.size = width main + 1
  indexed : body.Indexed
  step : ∀ p s, CodeAt main p [s] → s.size = 1 →
    ∃ insn, body.insns[p]? = some insn ∧ s.Means pool target insn.action
  mark : ∀ p label, CodeAt main p [.mark label] →
    ∃ place : Nat, target label = some place ∧ body.indexOf? place = some p
  last : ∃ insn, body.insns[width main]? = some insn ∧ insn.action = .ret

theorem Decoded.start {pool : Pool} {target : Nat → Option Nat} {offset : Nat}
    {first rest : List Step} {insns : List Insn}
    (decoded : Decoded pool target offset (first ++ rest) insns) (some_ : 0 < width rest)
    (usual : ∀ s ∈ rest, s.Usual) :
    ∃ insn, insns[width first]? = some insn ∧
      insn.offset = offset + (codeBytes pool first).length := by
  induction rest generalizing first with
  | nil => cases some_
  | cons s rest ih =>
    obtain ⟨here, later⟩ := List.forall_mem_cons.mp usual
    rcases here.size pool with one | ⟨none, empty⟩
    · obtain ⟨insn, found, start, -⟩ := decoded.at one
      exact ⟨insn, found, start⟩
    · have again : Decoded pool target offset ((first ++ [s]) ++ rest) insns := by simpa using decoded
      rw [width_cons, none, Nat.zero_add] at some_
      obtain ⟨insn, found, start⟩ := ih again some_ later
      simp only [width_append, width_cons, none, width_nil, Nat.add_zero] at found
      simp only [codeBytes_append, codeBytes_cons, empty, codeBytes_nil, List.append_nil] at start
      exact ⟨insn, found, start⟩

/-- Decoded steps with a return behind them are realised. -/
theorem Decoded.realizes {pool : Pool} {target : Nat → Option Nat} {main : List Step}
    {insns : Array Insn} {code : Bytes} (decodes : decode code = .ok insns)
    (decoded : Decoded pool target 0 (main ++ [Step.insn .ret]) insns.toList)
    (usual : ∀ s ∈ main, s.Usual)
    (marks : ∀ first label rest, main = first ++ .mark label :: rest →
      target label = some (codeBytes pool first).length) :
    Realizes main (Body.ofInsns insns) pool target := by
  have all : ∀ s ∈ main ++ [Step.insn .ret], s.Usual := by
    intro s member
    rcases List.mem_append.mp member with inside | last
    · exact usual s inside
    · rw [List.mem_singleton.mp last]
      simp [Step.Usual, plainOpcodes]
  have body : (Body.ofInsns insns).insns = insns := rfl
  refine ⟨?_, Body.ofInsns_indexed insns, ?_, ?_, ?_⟩
  · rw [body, ← Array.length_toList, decoded.length]
    simp [Step.size]
  · rintro p s ⟨first, rest, rfl, rfl⟩ one
    have here : Decoded pool target 0 (first ++ s :: (rest ++ [Step.insn .ret])) insns.toList := by
      simpa using decoded
    obtain ⟨insn, found, -, means⟩ := here.at one
    exact ⟨insn, by rw [body, ← Array.getElem?_toList, found], means⟩
  · rintro p label ⟨first, rest, rfl, rfl⟩
    have place := marks first label rest (by simp)
    refine ⟨_, place, ?_⟩
    have here : Decoded pool target 0 (first ++ (Step.mark label :: rest ++ [.insn .ret]))
        insns.toList := by simpa using decoded
    have usualHere : ∀ s ∈ Step.mark label :: rest ++ [.insn .ret], s.Usual :=
      fun s member => all s (by simpa using .inr (by simpa using member))
    obtain ⟨insn, found, start⟩ := here.start (by simp [Step.size]) usualHere
    have distinct := (decode_tiles decodes).offsets_nodup
    rw [Nat.zero_add] at start
    rw [← start]
    exact Body.ofInsns_indexOf?_at distinct (by rw [← Array.getElem?_toList, found])
  · obtain ⟨insn, found, -, means⟩ := decoded.at rfl
    exact ⟨insn, by rw [body, ← Array.getElem?_toList, found], means⟩

theorem Method.DidAll.decoded {pool : Pool} {steps : List Step} {start method : Method}
    (did : DidAll pool steps start method) (code : start.code = #[]) (jumps : start.jumps = #[])
    (sound : pool.Sound) (fits : pool.overflowed = false) (usual : ∀ s ∈ steps, s.Usual)
    (kept : ∀ s ∈ steps, s.poolAfter pool = pool) {bytes : Bytes}
    (resolved : method.resolve = .ok bytes) :
    ∃ insns, decode bytes = .ok insns ∧
      Decoded pool (method.labels[·]?) 0 steps insns.toList := by
  obtain ⟨-, reach, rfl⟩ := (resolve_eq_ok did code jumps).mp resolved
  obtain ⟨insns, loop, decoded⟩ := decodeLoop_layout sound fits usual kept reach #[]
  refine ⟨insns.toArray, ?_, decoded⟩
  rw [decode, loop]
  simp

/-- The finished code of assembled steps realises them. -/
theorem Method.DidAll.realizes {pool : Pool} {main : List Step} {start method : Method}
    (did : DidAll pool (main ++ [Step.insn .ret]) start method) (empty : start.code = #[])
    {bytes : Bytes} {insns : Array Insn} (decodes : decode bytes = .ok insns)
    (decoded : Decoded pool (method.labels[·]?) 0 (main ++ [Step.insn .ret]) insns.toList)
    (usual : ∀ s ∈ main, s.Usual) :
    Realizes main (Body.ofInsns insns) pool (method.labels[·]?) := by
  refine decoded.realizes decodes usual fun first label rest same => ?_
  have marked := did.marks first label (rest ++ [.insn .ret]) (by simp [same])
  rwa [Method.offset, empty, List.size_toArray, List.length_nil, Nat.zero_add] at marked

end Minilang.ClassFile
