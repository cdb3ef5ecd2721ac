import Minilang.Ir.Machine
import Minilang.Proofs.IrText

/-! Intermediate code that was read is a closed graph of blocks: names are defined once, what is
used is defined, and control stays inside. The reader keeps two facts line by line, that a label
stands before an instruction unless its block is still open, and that no label stands behind an
instruction that goes on to the next one; the check of the whole code adds the rest. A branch to
the empty label escapes that check and goes to the first instruction. -/

namespace Minilang.Ir

open Machine (Console Run)

/-- A block begins at the instruction. -/
def Code.Opens (code : Code) (i : Nat) : Prop := ∃ label : Bytes, code.labels[label]? = some i

namespace Reading

/-- Labels stand before instructions, and none behind an instruction that does not end its block.
Only the last block may lack its terminator. -/
structure Blocks (state : Reading) : Prop where
  starts : ∀ (label : Bytes) i, state.code.labels[label]? = some i →
    i < state.code.insns.size ∨ i = state.code.insns.size ∧ state.closed = false
  goes_on : ∀ (i : Nat) placed, state.code.insns[i]? = some placed →
    placed.insn.action.isTerminator = false → ¬ state.code.Opens (i + 1) ∧
      (i + 1 < state.code.insns.size ∨ i + 1 = state.code.insns.size ∧ state.closed = false)
  outside : state.inMain = false → state.closed = true

theorem blocks_start : ({} : Reading).Blocks where
  starts := by
    intro label i found
    simp at found
  goes_on := by
    intro i placed present
    simp at present
  outside := fun _ => rfl

/-- A line outside the function leaves instructions and labels as they are. -/
theorem topLevel_blocks {state next : Reading} {line : Bytes} (blocks : state.Blocks)
    (outside : state.inMain = false) (taken : state.topLevel line = .ok next) : next.Blocks := by
  have closed := blocks.outside outside
  unfold topLevel at taken
  split at taken
  · cases taken
    exact blocks
  · split at taken
    · simp only [bind_eq_ok] at taken
      obtain ⟨⟨name, text⟩, -, done⟩ := taken
      cases done
      exact ⟨blocks.starts, blocks.goes_on, blocks.outside⟩
    · split at taken
      · split at taken <;> cases taken
        · exact blocks
        · exact ⟨blocks.starts, blocks.goes_on, blocks.outside⟩
      · split at taken
        · split at taken <;> cases taken
          exact ⟨blocks.starts, blocks.goes_on, fun _ => closed⟩
        · cases taken

theorem openBlock_blocks {state next : Reading} {label : Bytes} (blocks : state.Blocks)
    (inside : state.inMain = true) (taken : state.openBlock label = .ok next) : next.Blocks := by
  unfold openBlock at taken
  split at taken
  · cases taken
  · split at taken
    · cases taken
    next stillClosed =>
      have closed : state.closed = true := by simpa using stillClosed
      cases taken
      refine ⟨?_, ?_, fun outside => ?_⟩
      · intro other i found
        rw [Std.HashMap.getElem?_insert] at found
        split at found
        · cases found
          exact .inr ⟨rfl, rfl⟩
        · rcases blocks.starts other i found with before | ⟨-, isOpen⟩
          · exact .inl before
          · rw [closed] at isOpen
            cases isOpen
      · intro i placed present plain
        obtain ⟨unopened, follows⟩ := blocks.goes_on i placed present plain
        rcases follows with before | ⟨-, isOpen⟩
        · refine ⟨?_, .inl before⟩
          rintro ⟨other, found⟩
          rw [Std.HashMap.getElem?_insert] at found
          split at found
          · have last := Option.some.inj found
            omega
          · exact unopened ⟨other, found⟩
        · rw [closed] at isOpen
          cases isOpen
      · rw [inside] at outside
        cases outside

/-- What an instruction's line adds. -/
theorem addInsn_eq_ok {state next : Reading} {number : Nat} {line : Bytes}
    (taken : state.addInsn number line = .ok next) :
    ∃ insn, readInsn line = .ok insn ∧
      (state.closed = true → state.code.insns.isEmpty = true) ∧
      next = { state with
        code := { state.code with insns := state.code.insns.push ⟨insn, number⟩ }
        closed := insn.action.isTerminator } := by
  unfold addInsn at taken
  simp only [throw_eq_error, error_bind] at taken
  split at taken
  · cases taken
  next free =>
    simp only [pure_eq_ok, bind_eq_ok] at taken
    obtain ⟨insn, read, taken⟩ := taken
    refine ⟨insn, read, fun closed => by simpa [closed] using free, ?_⟩
    split at taken
    · obtain ⟨-, -, done⟩ := bind_eq_ok.mp taken
      exact (Except.ok.inj done).symm
    · obtain ⟨-, -, done⟩ := bind_eq_ok.mp taken
      exact (Except.ok.inj done).symm
    · exact (Except.ok.inj taken).symm

theorem addInsn_blocks {state next : Reading} {number : Nat} {line : Bytes} (blocks : state.Blocks)
    (inside : state.inMain = true) (taken : state.addInsn number line = .ok next) :
    next.Blocks := by
  obtain ⟨insn, -, -, rfl⟩ := addInsn_eq_ok taken
  refine ⟨?_, ?_, fun outside => ?_⟩
  · intro label i found
    have bound := blocks.starts label i found
    simp only [Array.size_push]
    omega
  · intro i placed present plain
    simp only [Array.getElem?_push, Array.size_push] at present ⊢
    split at present
    next last =>
      cases present
      refine ⟨?_, .inr ⟨by omega, plain⟩⟩
      rintro ⟨label, found⟩
      have bound := blocks.starts label (i + 1) found
      omega
    next =>
      obtain ⟨unopened, follows⟩ := blocks.goes_on i placed present plain
      exact ⟨unopened, .inl (by omega)⟩
  · rw [inside] at outside
    cases outside

theorem addLine_blocks {state next : Reading} {number : Nat} {raw : Bytes} (blocks : state.Blocks)
    (taken : state.addLine number raw = .ok next) : next.Blocks := by
  unfold addLine at taken
  simp only at taken
  split at taken
  · cases taken
    exact blocks
  · split at taken
    next within =>
      unfold Reading.inside at taken
      split at taken
      · split at taken <;> cases taken
        next closed => exact ⟨blocks.starts, blocks.goes_on, fun _ => closed⟩
      · split at taken
        · split at taken
          · exact addInsn_blocks blocks within taken
          · exact openBlock_blocks blocks within taken
        · exact addInsn_blocks blocks within taken
    next outside => exact topLevel_blocks blocks (by simpa using outside) taken

theorem addLines_blocks {state last : Reading} {number : Nat} {lines : List Bytes}
    (blocks : state.Blocks) (taken : state.addLines number lines = .ok last) : last.Blocks := by
  induction lines generalizing state number with
  | nil =>
    cases taken
    exact blocks
  | cons line rest ih =>
    unfold addLines at taken
    split at taken
    · cases taken
    next next added => exact ih (addLine_blocks blocks added) taken

end Reading

namespace Code

/-- A pass over instructions collects the names they define: none of them was known before, and
none is a label. -/
theorem definitions_eq_ok {code : Code} {insns : List Placed} {before after : Std.HashMap Bytes Nat}
    (collected : code.definitions insns before = .ok after) :
    insns.Pairwise (fun first second =>
      ∀ name, first.insn.result = some name → second.insn.result ≠ some name) ∧
    (∀ placed ∈ insns, ∀ name, placed.insn.result = some name →
      before[name]? = none ∧ code.labels[name]? = none) ∧
    ∀ name, name ∈ after → name ∈ before ∨ ∃ placed ∈ insns, placed.insn.result = some name := by
  induction insns generalizing before with
  | nil =>
    cases collected
    refine ⟨.nil, ?_, fun name member => .inl member⟩
    intro placed member
    cases member
  | cons placed rest ih =>
    obtain ⟨insn, line⟩ := placed
    unfold definitions at collected
    split at collected
    next unnamed =>
      obtain ⟨distinct, fresh, origin⟩ := ih collected
      refine ⟨List.pairwise_cons.mpr ⟨?_, distinct⟩, ?_, ?_⟩
      · intro other _ name named
        rw [unnamed] at named
        cases named
      · intro other member name named
        rcases List.mem_cons.mp member with rfl | later
        · rw [unnamed] at named
          cases named
        · exact fresh other later name named
      · intro name member
        rcases origin name member with known | ⟨other, later, named⟩
        · exact .inl known
        · exact .inr ⟨other, List.mem_cons_of_mem _ later, named⟩
    next result named =>
      split at collected
      · cases collected
      next unknown =>
        split at collected
        · cases collected
        next notLabel =>
          obtain ⟨distinct, fresh, origin⟩ := ih collected
          have apart : code.labels[result]? = none := by
            simpa using notLabel
          refine ⟨List.pairwise_cons.mpr ⟨?_, distinct⟩, ?_, ?_⟩
          · intro other later name same again
            rw [named] at same
            cases same
            have missing := (fresh other later result again).1
            simp at missing
          · intro other member name same
            rcases List.mem_cons.mp member with rfl | later
            · rw [named] at same
              cases same
              exact ⟨unknown, apart⟩
            · obtain ⟨missing, label⟩ := fresh other later name same
              rw [Std.HashMap.getElem?_insert] at missing
              split at missing
              · cases missing
              · exact ⟨missing, label⟩
          · intro name member
            rcases origin name member with known | ⟨other, later, same⟩
            · rcases Std.HashMap.mem_insert.mp known with here | known
              · exact .inr ⟨_, List.mem_cons_self, by rw [named, eq_of_beq here]⟩
              · exact .inl known
            · exact .inr ⟨other, List.mem_cons_of_mem _ later, same⟩

theorem checkUses_eq_ok {code : Code} {defined : Std.HashMap Bytes Nat} {insns : List Placed}
    (checked : code.checkUses defined insns = .ok ()) :
    ∀ placed ∈ insns, (∀ name ∈ placed.insn.action.uses, name ∈ defined) ∧
      ∀ label ∈ placed.insn.action.targets, label ≠ [] → label ∈ code.labels := by
  induction insns with
  | nil =>
    intro placed member
    cases member
  | cons placed rest ih =>
    obtain ⟨insn, line⟩ := placed
    unfold checkUses at checked
    split at checked
    · cases checked
    next used =>
      split at checked
      · cases checked
      next branches =>
        intro other member
        rcases List.mem_cons.mp member with rfl | later
        · refine ⟨fun name use => ?_, fun label target named => ?_⟩
          · have known := List.find?_eq_none.mp used name use
            simpa using known
          · have known := List.find?_eq_none.mp branches label target
            simpa [named] using known
        · exact ih checked other later

/-- A closed graph of blocks. Each name has one definition and is no label, what is used is
defined, a branch goes to a label, and a block ends inside the code. -/
structure Closed (code : Code) : Prop where
  defined_once : ∀ (i j : Nat) (first second : Placed) (name : Bytes),
    code.insns[i]? = some first → code.insns[j]? = some second →
    first.insn.result = some name → second.insn.result = some name → i = j
  no_label : ∀ placed ∈ code.insns, ∀ name, placed.insn.result = some name →
    code.labels[name]? = none
  uses : ∀ placed ∈ code.insns, ∀ name ∈ placed.insn.action.uses,
    ∃ definition ∈ code.insns, definition.insn.result = some name
  targets : ∀ placed ∈ code.insns, ∀ label ∈ placed.insn.action.targets, label ≠ [] →
    ∃ i, code.labels[label]? = some i
  starts : ∀ (label : Bytes) i, code.labels[label]? = some i → i < code.insns.size
  goes_on : ∀ (i : Nat) placed, code.insns[i]? = some placed →
    placed.insn.action.isTerminator = false → i + 1 < code.insns.size ∧ ¬ code.Opens (i + 1)

theorem closed_of_read {text : Bytes} {code : Code} (accepted : read text = .ok code) :
    code.Closed := by
  unfold read at accepted
  simp only [throw_eq_error, error_bind, bind_eq_ok] at accepted
  obtain ⟨state, taken, accepted⟩ := accepted
  have blocks := Reading.addLines_blocks Reading.blocks_start taken
  split at accepted
  · cases accepted
  · split at accepted
    · cases accepted
    next outside =>
      simp only [pure_eq_ok, bind_eq_ok] at accepted
      obtain ⟨_, checked, done⟩ := accepted
      cases done
      simp only [check, bind_eq_ok] at checked
      obtain ⟨defined, collected, checked⟩ := checked
      obtain ⟨distinct, fresh, origin⟩ := definitions_eq_ok collected
      have uses := checkUses_eq_ok checked
      have closed : state.closed = true := blocks.outside (by simpa using outside)
      refine ⟨?_, ?_, ?_, ?_, ?_, ?_⟩
      · intro i j first second name here there one two
        have apart : ∀ {i j : Nat} {first second : Placed}, state.code.insns[i]? = some first →
            state.code.insns[j]? = some second → first.insn.result = some name →
            second.insn.result = some name → ¬ i < j := by
          intro i j first second here there one two before
          obtain ⟨inside, rfl⟩ := Array.getElem?_eq_some_iff.mp here
          obtain ⟨within, rfl⟩ := Array.getElem?_eq_some_iff.mp there
          exact List.pairwise_iff_getElem.mp distinct i j (by simpa using inside)
            (by simpa using within) before name (by simpa using one) (by simpa using two)
        have notBefore := apart here there one two
        have notBehind := apart there here two one
        omega
      · intro placed member name named
        exact (fresh placed (Array.mem_toList_iff.mpr member) name named).2
      · intro placed member name use
        rcases origin name ((uses placed (Array.mem_toList_iff.mpr member)).1 name use) with
          known | ⟨definition, listed, named⟩
        · simp at known
        · exact ⟨definition, Array.mem_toList_iff.mp listed, named⟩
      · intro placed member label target named
        have known := (uses placed (Array.mem_toList_iff.mpr member)).2 label target named
        exact ⟨_, Std.HashMap.getElem?_eq_some_getElem known⟩
      · intro label i found
        rcases blocks.starts label i found with before | ⟨-, isOpen⟩
        · exact before
        · rw [closed] at isOpen
          cases isOpen
      · intro i placed present plain
        obtain ⟨unopened, follows⟩ := blocks.goes_on i placed present plain
        rcases follows with before | ⟨-, isOpen⟩
        · exact ⟨before, unopened⟩
        · rw [closed] at isOpen
          cases isOpen

/-- Where control may go from an instruction. The empty label, when no block has it, stands for
the first instruction. -/
inductive Moves (code : Code) (i : Nat) (action : Action) : Nat → Prop where
  | next (plain : action.isTerminator = false) (sameBlock : ¬ code.Opens (i + 1)) :
      Moves code i action (i + 1)
  | branch {label : Bytes} {j : Nat} (named : label ∈ action.targets)
      (found : code.labels[label]? = some j) : Moves code i action j
  | unnamed (named : [] ∈ action.targets) (missing : code.labels[([] : Bytes)]? = none) :
      Moves code i action 0

/-- The states that running code can come to. Between any two steps the host may replace the
console, so reads and writes have any outcome at all. -/
inductive Reaches (code : Code) : MachineState → Prop where
  | start (console : Console) : code.Reaches { console }
  | host {state : MachineState} (reached : code.Reaches state) (console : Console) :
      code.Reaches { state with console }
  | step {state next : MachineState} {placed : Placed} (reached : code.Reaches state)
      (present : code.insns[state.pc]? = some placed)
      (stepped : Ir.step code placed state = .next next) : code.Reaches next

end Code

@[simp] theorem MachineState.define_pc (state : MachineState) (result : Option Bytes)
    (value : Int32) : (state.define result value).pc = state.pc := by
  cases result <;> rfl

@[simp] theorem MachineState.setCell_pc (state : MachineState) (name : Bytes) (value : Int32) :
    (state.setCell name value).pc = state.pc := rfl

/-- An instruction that does not branch leaves the program counter alone, and a branch goes to one
of its targets. -/
theorem MachineState.execute_pc {state next : MachineState} {code : Code} {insn : Insn}
    (executed : state.execute code insn = .ok next) :
    insn.action.targets = [] ∧ next.pc = state.pc ∨
      ∃ label ∈ insn.action.targets, next.pc = code.labels.getD label 0 := by
  obtain ⟨result, action⟩ := insn
  cases action <;> simp only [execute, bind_eq_ok, pure_eq_ok, throw_eq_error] at executed
  case alloca => cases executed; exact .inl ⟨rfl, rfl⟩
  case store =>
    obtain ⟨_, -, _, -, executed⟩ := executed
    cases executed
    exact .inl ⟨rfl, rfl⟩
  case load =>
    obtain ⟨_, -, executed⟩ := executed
    cases executed
    exact .inl ⟨rfl, by simp⟩
  case compute =>
    obtain ⟨_, -, _, -, executed⟩ := executed
    split at executed <;> cases executed
    exact .inl ⟨rfl, by simp⟩
  case compare =>
    obtain ⟨_, -, _, -, executed⟩ := executed
    cases executed
    exact .inl ⟨rfl, by simp⟩
  case widen =>
    obtain ⟨_, -, executed⟩ := executed
    cases executed
    exact .inl ⟨rfl, by simp⟩
  case jump label =>
    cases executed
    exact .inr ⟨label, by simp [Action.targets], rfl⟩
  case branch flag yes no =>
    obtain ⟨value, -, executed⟩ := executed
    cases executed
    refine .inr ⟨_, ?_, rfl⟩
    split <;> simp [Action.targets]
  case print =>
    split at executed
    · cases executed
    · obtain ⟨_, -, executed⟩ := bind_eq_ok.mp executed
      split at executed <;> cases executed
      exact .inl ⟨rfl, by simp⟩
  case scan =>
    split at executed
    · cases executed
    · obtain ⟨_, -, executed⟩ := bind_eq_ok.mp executed
      split at executed <;> cases executed <;> exact .inl ⟨rfl, by simp⟩
  case ret =>
    obtain ⟨_, -, executed⟩ := executed
    cases executed
    exact .inl ⟨rfl, rfl⟩

theorem step_eq_next {code : Code} {placed : Placed} {state next : MachineState}
    (stepped : step code placed state = .next next) :
    ({ state with pc := state.pc + 1 } : MachineState).execute code placed.insn = .ok next ∧
      ∀ value, placed.insn.action ≠ .ret value := by
  unfold step at stepped
  simp only at stepped
  split at stepped
  · cases stepped
  · cases stepped
  next executed =>
    split at stepped
    · cases stepped
    next notRet =>
      cases stepped
      exact ⟨executed, notRet⟩

namespace Code

theorem Closed.moves {code : Code} (closed : code.Closed) {state next : MachineState}
    {placed : Placed} (present : code.insns[state.pc]? = some placed)
    (stepped : Ir.step code placed state = .next next) :
    code.Moves state.pc placed.insn.action next.pc := by
  obtain ⟨executed, notRet⟩ := step_eq_next stepped
  rcases MachineState.execute_pc executed with ⟨straight, same⟩ | ⟨label, named, goes⟩
  · have plain : placed.insn.action.isTerminator = false := by
      cases action : placed.insn.action with
      | ret value => exact (notRet value action).elim
      | jump | branch => simp [action, Action.targets] at straight
      | _ => rfl
    rw [same]
    exact .next plain (closed.goes_on state.pc placed present plain).2
  · rw [goes, Std.HashMap.getD_eq_getD_getElem?]
    cases found : code.labels[label]? with
    | some j => exact .branch named found
    | none =>
      by_cases empty : label = []
      · subst empty
        exact .unnamed named found
      · obtain ⟨j, known⟩ := closed.targets placed (Array.mem_of_getElem? present) label named empty
        rw [found] at known
        cases known

/-- A move stays inside of the code. -/
theorem Closed.inside {code : Code} (closed : code.Closed) {i j : Nat} {placed : Placed}
    (present : code.insns[i]? = some placed) (moves : code.Moves i placed.insn.action j) :
    j < code.insns.size := by
  cases moves with
  | next plain => exact (closed.goes_on i placed present plain).1
  | branch _ found => exact closed.starts _ _ found
  | unnamed =>
    have inside := (Array.getElem?_eq_some_iff.mp present).1
    omega

theorem step_ending_ne {code : Code} {placed : Placed} {state : MachineState} {result : Run}
    (ended : Ir.step code placed state = .ended result) : result.ending ≠ .fault Flaw.fellOff.fault := by
  unfold Ir.step at ended
  simp only at ended
  split at ended
  · cases ended
    simp [Flaw.faultAt, Flaw.fault]
  · cases ended
    simp [Flaw.fault]
  · split at ended <;> cases ended
    exact nofun

theorem Closed.runFrom_inside {code : Code} (closed : code.Closed) {limit fuel spent : Nat}
    {state : MachineState} {result : Run} (inside : state.pc < code.insns.size)
    (ran : runFrom code limit fuel spent state = some result) :
    result.ending ≠ .fault Flaw.fellOff.fault := by
  induction fuel generalizing spent state with
  | zero => cases ran
  | succ fuel ih =>
    have present := Array.getElem?_eq_getElem inside
    unfold runFrom at ran
    rw [present] at ran
    simp only at ran
    split at ran
    · cases ran
      simp [Flaw.fault]
    · split at ran
      next next stepped =>
        exact ih (closed.inside present (closed.moves present stepped)) ran
      next ended =>
        cases ran
        exact step_ending_ne ended

theorem Closed.reached_inside {code : Code} (closed : code.Closed) (some_ : 0 < code.insns.size)
    {state : MachineState} (reached : code.Reaches state) : state.pc < code.insns.size := by
  induction reached with
  | start console => exact some_
  | host reached console ih => exact ih
  | step reached present stepped ih => exact closed.inside present (closed.moves present stepped)

/-- Code that was read is a closed graph of blocks, and control stays on it: whatever state a run
of any length comes to, there is a next instruction unless there are none at all, and its step
goes on in the same block or to the block that the branch names. -/
theorem read_code_is_closed {text : Bytes} {code : Code} (accepted : read text = .ok code) :
    code.Closed ∧
    (∀ state, code.Reaches state → code.insns.size ≠ 0 →
      ∃ placed, code.insns[state.pc]? = some placed ∧
        ∀ next, Ir.step code placed state = .next next →
          code.Moves state.pc placed.insn.action next.pc) ∧
    (∀ limit fuel console result, run text limit fuel console = some result →
      result.ending = .fault Flaw.fellOff.fault → code.insns.size = 0) := by
  have closed := closed_of_read accepted
  refine ⟨closed, ?_, ?_⟩
  · intro state reached some_
    have inside := closed.reached_inside (Nat.pos_of_ne_zero some_) reached
    have present := Array.getElem?_eq_getElem inside
    exact ⟨_, present, fun next stepped => closed.moves present stepped⟩
  · intro limit fuel console result ran ended
    unfold run at ran
    rw [accepted] at ran
    rcases Nat.eq_zero_or_pos code.insns.size with none | some_
    · exact none
    · exact (closed.runFrom_inside some_ ran ended).elim

end Code

/-- A loop that counts a cell down to zero. -/
def countdown : List Item :=
  [.insn { result := some "n", action := .alloca },
    .insn { action := .store (.imm 3) "n" },
    .insn { action := .jump "again" },
    .label "again",
    .insn { result := some "old", action := .load "n" },
    .insn { result := some "new", action := .compute .sub (.reg "old") (.imm 1) },
    .insn { action := .store (.reg "new") "n" },
    .insn { result := some "more", action := .compare .sgt (.reg "new") (.imm 0) },
    .insn { action := .branch (.reg "more") "again" "done" },
    .label "done",
    .insn { action := .ret (.imm 0) }]

theorem countdown_readable : Readable countdown where
  written := by
    simp +decide [countdown, Item.Written, Insn.written_iff, Action.Written, Action.yields,
      Operand.Written]
  blocked := by decide
  names := by decide
  targets := by simp +decide [countdown, Action.targets]
  uses := by simp +decide [countdown, Action.uses, Operand.name?]

theorem countdown_is_closed :
    ∃ text code, Code.read text = .ok code ∧ code.Holds countdown ∧ code.Closed ∧
      (∀ state, code.Reaches state → code.insns.size ≠ 0 →
        ∃ placed, code.insns[state.pc]? = some placed ∧
          ∀ next, step code placed state = .next next →
            code.Moves state.pc placed.insn.action next.pc) ∧
      (∀ limit fuel console result, run text limit fuel console = some result →
        result.ending = .fault Flaw.fellOff.fault → code.insns.size = 0) := by
  have accepted := @Readable.read .opaquePointers "loop.ll" countdown countdown_readable (by decide)
  exact ⟨_, _, accepted, countdown_readable.holds, Code.read_code_is_closed accepted⟩

end Minilang.Ir
