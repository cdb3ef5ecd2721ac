import Minilang.Proofs.StackShapes

/-! Generated code is typed by its shapes: the types at every instruction follow from the tree, they
agree wherever control joins, and control can come to every instruction. -/

namespace Minilang

namespace ClassFile

/-- The scanner in slot 0, and integers in the slots of the variables. -/
structure Ready (count : Nat) (locals : Array VType) : Prop where
  size : locals.size = count + 1
  scanner : locals[0]? = some scannerType
  ints : ∀ slot, 0 < slot → slot ≤ count → locals[slot]? = some .int

/-- What a step that neither jumps nor returns does to the stack, with `count` variables. -/
inductive Moves (count : Nat) : Step → List VType → List VType → Prop where
  | push {value σ} : Moves count (.push value) σ (.int :: σ)
  | load {slot : Nat} {σ} (low : 0 < slot) (high : slot ≤ count) :
      Moves count (.localVar .iload slot) σ (.int :: σ)
  | store {slot : Nat} {σ} (low : 0 < slot) (high : slot ≤ count) :
      Moves count (.localVar .istore slot) (.int :: σ) σ
  | scanner {σ} : Moves count (.localVar .aload 0) σ (scannerType :: σ)
  | readInt {σ} :
      Moves count (.methodOperand .invokeVirtual nextInt) (scannerType :: σ) (.int :: σ)
  | stream {σ} : Moves count (.fieldOperand .getStatic systemOut) σ (streamType :: σ)
  | printInt {σ} :
      Moves count (.methodOperand .invokeVirtual println) (.int :: streamType :: σ) σ
  | negate {σ} : Moves count (.insn .ineg) (.int :: σ) (.int :: σ)
  | arithmetic {op code σ} (found : arithmetic? op = some code) :
      Moves count (.insn code) (.int :: .int :: σ) (.int :: σ)
  | dup {σ} : Moves count (.insn .dup) (.int :: σ) (.int :: .int :: σ)
  | pop {σ} : Moves count (.insn .pop) (.int :: σ) σ
  | pop2 {σ} : Moves count (.insn .pop2) (.int :: .int :: σ) σ
  | swap {σ} : Moves count (.insn .swap) (.int :: .int :: σ) (.int :: .int :: σ)
  | dupX1 {σ} : Moves count (.insn .dupX1) (.int :: .int :: σ) (.int :: .int :: .int :: σ)
  | dup2X1 {σ} : Moves count (.insn .dup2X1) (.int :: .int :: .int :: σ)
      (.int :: .int :: .int :: .int :: .int :: σ)

private theorem does_index {op : Opcode} {make : UInt16 → Action} (i : UInt16)
    (does : ∀ arg : Int, op.does arg = make arg.toNat.toUInt16) : op.does i.toNat = make i := by
  rw [does]
  simp

theorem does_invokeVirtual (i : UInt16) :
    Opcode.invokeVirtual.does i.toNat = .invoke .virtualCall i := does_index i fun _ => rfl

theorem does_invokeSpecial (i : UInt16) :
    Opcode.invokeSpecial.does i.toNat = .invoke .specialCall i := does_index i fun _ => rfl

theorem does_getStatic (i : UInt16) : Opcode.getStatic.does i.toNat = .getStatic i :=
  does_index i fun _ => rfl

theorem does_new (i : UInt16) : Opcode.new.does i.toNat = .new i := does_index i fun _ => rfl

theorem does_ifZero (cond : Cond) (place : Int) :
    (Opcode.ifZero cond).does place = .branchZero cond place := by
  cases cond <;> simp [Opcode.does, Insn.action, Opcode.ifZero, Cond.index, condOf, Cond.all]

theorem does_ifInts (cond : Cond) (place : Int) :
    (Opcode.ifInts cond).does place = .branchInts cond place := by
  cases cond <;> simp [Opcode.does, Insn.action, Opcode.ifInts, Cond.index, condOf, Cond.all]

theorem does_arithmetic {op : Op} {code : Opcode} (found : arithmetic? op = some code) :
    ∃ op, code.does 0 = .compute op := by
  cases op <;> cases found <;> exact ⟨_, rfl⟩

private theorem rule_nextInt {pool : Pool} {offset : Nat} {locals : Array VType}
    {σ : List VType} {i : UInt16} (found : pool.member i = .ok nextInt) :
    Rule pool offset ⟨locals, scannerType :: σ⟩ (.invoke .virtualCall i) ⟨locals, .int :: σ⟩ := by
  have described : methodType nextInt.descriptor = .ok ([], some .int) := rfl
  exact .call found described .nil (by decide) (by decide) rfl

private theorem rule_println {pool : Pool} {offset : Nat} {locals : Array VType}
    {σ : List VType} {i : UInt16} (found : pool.member i = .ok println) :
    Rule pool offset ⟨locals, .int :: streamType :: σ⟩ (.invoke .virtualCall i) ⟨locals, σ⟩ := by
  have described : methodType println.descriptor = .ok ([.int], none) := rfl
  have fits : Fits [.int] [.int] := .cons rfl .nil
  exact .call found described fits (by decide) (by decide) rfl

/-- The moves of a step follow the typing rules of its instruction. -/
theorem Moves.rule {count : Nat} {s : Step} {σ τ : List VType} (moves : Moves count s σ τ)
    {locals : Array VType} (ready : Ready count locals) {pool : Pool} {target : Nat → Option Nat}
    {action : Action} (means : s.Means pool target action) (offset : Nat) :
    Rule pool offset ⟨locals, σ⟩ action ⟨locals, τ⟩ ∧ action.target? = none ∧
      action.fallsThrough = true := by
  cases moves with
  | push =>
    rcases means with rfl | ⟨i, rfl, found⟩
    · exact ⟨.push, rfl, rfl⟩
    · exact ⟨.integer found, rfl, rfl⟩
  | load low high =>
    cases means
    exact ⟨.intLoad (ready.ints _ low high), rfl, rfl⟩
  | @store slot _ low high =>
    cases means
    have inside : slot < locals.size := by
      have size := ready.size
      omega
    have same : locals.setIfInBounds slot .int = locals := by
      refine Array.ext_getElem? fun i => ?_
      rw [Array.getElem?_setIfInBounds]
      split
      next here =>
        subst here
        rw [ready.ints _ low high]
      next => rfl
    have rule : Rule pool offset ⟨locals, .int :: τ⟩ (.intStore slot)
        ⟨locals.setIfInBounds slot .int, τ⟩ := .intStore inside
    rw [same] at rule
    exact ⟨rule, rfl, rfl⟩
  | scanner =>
    cases means
    exact ⟨.refLoad ready.scanner, rfl, rfl⟩
  | readInt =>
    obtain ⟨i, rfl, names⟩ := means
    rw [does_invokeVirtual]
    exact ⟨rule_nextInt names.member, rfl, rfl⟩
  | stream =>
    obtain ⟨i, rfl, names⟩ := means
    rw [does_getStatic]
    exact ⟨.getStatic names.member rfl, rfl, rfl⟩
  | printInt =>
    obtain ⟨i, rfl, names⟩ := means
    rw [does_invokeVirtual]
    exact ⟨rule_println names.member, rfl, rfl⟩
  | negate =>
    cases means
    exact ⟨.negate, rfl, rfl⟩
  | arithmetic found =>
    cases means
    obtain ⟨_, does⟩ := does_arithmetic found
    rw [does]
    exact ⟨.compute, rfl, rfl⟩
  | dup | pop | pop2 | swap | dupX1 | dup2X1 =>
    cases means
    exact ⟨.shuffle rfl, rfl, rfl⟩

/-- A typing of a body that realises steps, with the locals that the prologue leaves. -/
structure Shaped (main : List Step) (body : Body) (pool : Pool) (target : Nat → Option Nat)
    (typing : Nat → TypeState) (depth count : Nat) (locals : Array VType) : Prop where
  real : Realizes main body pool target
  shallow : ∀ i, (typing i).stack.length ≤ depth
  ready : Ready count locals

/-- The stacks from a position on are those of a list. -/
def Follows (typing : Nat → TypeState) (locals : Array VType) (p : Nat)
    (shapes : List (List VType)) : Prop :=
  ∀ i shape, shapes[i]? = some shape → typing (p + i) = ⟨locals, shape⟩

/-- A stretch of code that is typed and whose positions can all be entered. -/
structure Segment (body : Body) (pool : Pool) (typing : Nat → TypeState) (depth p q : Nat) :
    Prop where
  le : p ≤ q
  typed : ∀ i, p ≤ i → i < q → TypedAt body pool typing depth i
  entered : ∀ j, p < j → j ≤ q → ∃ i < j, body.Leads i j

namespace Follows

variable {typing : Nat → TypeState} {locals : Array VType} {p : Nat}
  {first second : List (List VType)} {σ : List VType}

theorem left (follows : Follows typing locals p (first ++ second)) :
    Follows typing locals p first := by
  intro i shape found
  refine follows i shape ?_
  rw [List.getElem?_append_left (List.getElem?_eq_some_iff.mp found).1, found]

theorem right (follows : Follows typing locals p (first ++ second)) :
    Follows typing locals (p + first.length) second := by
  intro i shape found
  rw [Nat.add_assoc]
  refine follows (first.length + i) shape ?_
  rw [List.getElem?_append_right (Nat.le_add_right ..), Nat.add_sub_cancel_left, found]

theorem head (follows : Follows typing locals p (σ :: second)) : typing p = ⟨locals, σ⟩ :=
  follows 0 σ rfl

theorem tail (follows : Follows typing locals p (σ :: second)) :
    Follows typing locals (p + 1) second := by
  have split : Follows typing locals p ([σ] ++ second) := follows
  exact split.right

/-- The list may be cut behind the first of the shapes that follow. -/
theorem upTo (follows : Follows typing locals p (first ++ σ :: second)) :
    Follows typing locals p (first ++ [σ]) := by
  intro i shape found
  refine follows i shape ?_
  rw [List.getElem?_append] at found ⊢
  split at found
  next inside => rw [if_pos inside, found]
  next outside =>
    rw [if_neg outside]
    obtain ⟨at_, rfl⟩ := List.getElem?_eq_some_iff.mp found
    have zero : i - first.length = 0 := by simpa using at_
    simp [zero]

end Follows

theorem CodeAt.skip {main code : List Step} {p : Nat} {lineOf : Option (Span → Nat)} {site : Site}
    (at_ : CodeAt main p (lineCode lineOf site ++ code)) : CodeAt main p code := by
  have later := at_.right
  rwa [width_lineCode] at later

namespace Segment

variable {main : List Step} {body : Body} {pool : Pool} {target : Nat → Option Nat}
  {typing : Nat → TypeState} {depth count p q r : Nat} {locals : Array VType} {σ τ : List VType}

theorem nil (body : Body) (pool : Pool) (typing : Nat → TypeState) (depth p : Nat) :
    Segment body pool typing depth p p :=
  ⟨le_refl p, fun _ low high => by omega, fun _ low high => by omega⟩

theorem trans (first : Segment body pool typing depth p q)
    (second : Segment body pool typing depth q r) : Segment body pool typing depth p r where
  le := first.le.trans second.le
  typed := by
    intro i low high
    by_cases inside : i < q
    · exact first.typed i low inside
    · exact second.typed i (by omega) high
  entered := by
    intro j low high
    by_cases inside : j ≤ q
    · exact first.entered j low inside
    · exact second.entered j (by omega) high

/-- A single instruction, with a way to the position behind it. -/
theorem single (typed : TypedAt body pool typing depth p) (enters : ∃ i < p + 1, body.Leads i (p + 1)) :
    Segment body pool typing depth p (p + 1) := by
  refine ⟨Nat.le_succ p, fun i low high => ?_, fun j low high => ?_⟩
  · have same : i = p := by omega
    rw [same]
    exact typed
  · have same : j = p + 1 := by omega
    rw [same]
    exact enters

/-- A step whose instruction is typed and goes on to the next. -/
theorem straight (real : Realizes main body pool target)
    (shallow : ∀ i, (typing i).stack.length ≤ depth) {s : Step} (at_ : CodeAt main p [s])
    (one : s.size = 1)
    (rule : ∀ insn, body.insns[p]? = some insn → s.Means pool target insn.action →
      Rule pool insn.offset (typing p) insn.action (typing (p + 1)) ∧
        insn.action.target? = none ∧ insn.action.fallsThrough = true) :
    Segment body pool typing depth p (p + 1) := by
  obtain ⟨insn, present, means⟩ := real.step p s at_ one
  obtain ⟨rule, ahead, falls⟩ := rule insn present means
  have room : p + 1 < body.insns.size := by
    have bound := at_.bound
    have size := real.size
    simp only [width_cons, one, width_nil] at bound
    omega
  have follow : body.successors p insn = .ok [p + 1] := by
    simp [Body.successors, ahead, falls, room]
  refine single ⟨insn, _, _, present, rule, follow, shallow p, shallow (p + 1), ?_, ?_⟩
    ⟨p, Nat.lt_succ_self p, insn, _, present, follow, by simp⟩
  · intro j member
    rw [List.mem_singleton.mp member]
    exact .refl _
  · intro place found
    rw [ahead] at found
    cases found

variable (shaped : Shaped main body pool target typing depth count locals)
include shaped

theorem move {s : Step} (at_ : CodeAt main p [s]) (moves : Moves count s σ τ)
    (here : typing p = ⟨locals, σ⟩) (next : typing (p + 1) = ⟨locals, τ⟩) :
    Segment body pool typing depth p (p + 1) := by
  refine straight shaped.real shaped.shallow at_ (by cases moves <;> rfl) fun insn _ means => ?_
  rw [here, next]
  exact moves.rule shaped.ready means insn.offset

/-- A jump to a mark: the types behind the jump are those at the mark, and control can go there
and, after a branch, on to the next position. -/
private theorem jump {op : Opcode} {label : Nat} (at_ : CodeAt main p [.jump op label])
    (mark : CodeAt main q [.mark label]) (here : typing p = ⟨locals, σ⟩)
    (there : typing q = ⟨locals, τ⟩) (falls : Bool)
    (acts : ∀ place : Int, (op.does place).target? = some place ∧
      (op.does place).fallsThrough = falls ∧
      ∀ offset, Rule pool offset ⟨locals, σ⟩ (op.does place) ⟨locals, τ⟩)
    (next : falls = true → typing (p + 1) = ⟨locals, τ⟩) :
    TypedAt body pool typing depth p ∧ body.Leads p q ∧ (falls = true → body.Leads p (p + 1)) := by
  obtain ⟨insn, present, place, bound, does⟩ := shaped.real.step p _ at_ rfl
  obtain ⟨other, marked, found⟩ := shaped.real.mark q label mark
  rw [bound] at marked
  cases marked
  obtain ⟨targets, falling, rules⟩ := acts place
  rw [← does] at targets falling rules
  have room : p + 1 < body.insns.size := by
    have limit := at_.bound
    have size := shaped.real.size
    simp only [width_cons, Step.size, width_nil] at limit
    omega
  have follow : body.successors p insn = .ok (q :: if falls then [p + 1] else []) := by
    simp only [Body.successors, targets, falling, Option.bind_some, found, Option.toList_some]
    cases falls <;> simp [room]
  have peak := shaped.shallow q
  rw [there] at peak
  have rule := rules insn.offset
  rw [← here] at rule
  refine ⟨⟨insn, _, _, present, rule, follow, shaped.shallow p, peak, ?_, ?_⟩,
    ⟨insn, _, present, follow, by simp⟩, fun yes => ⟨insn, _, present, follow, by simp [yes]⟩⟩
  · intro j member
    rcases List.mem_cons.mp member with rfl | later
    · rw [there]
      exact .refl _
    · cases falls with
      | true =>
        rw [List.mem_singleton.mp later, next rfl]
        exact .refl _
      | false => cases later
  · intro other same
    rw [targets] at same
    cases same
    exact ⟨q, found⟩

theorem goto {label : Nat} (at_ : CodeAt main p [.jump .goto label])
    (mark : CodeAt main q [.mark label]) (here : typing p = ⟨locals, σ⟩)
    (there : typing q = ⟨locals, σ⟩) :
    TypedAt body pool typing depth p ∧ body.Leads p q := by
  obtain ⟨typed, leads, -⟩ := jump shaped at_ mark here there false
    (fun place => ⟨rfl, rfl, fun _ => .goto⟩) nofun
  exact ⟨typed, leads⟩

theorem branchZero {cond : Cond} {label : Nat} (at_ : CodeAt main p [.jump (.ifZero cond) label])
    (mark : CodeAt main q [.mark label]) (here : typing p = ⟨locals, .int :: τ⟩)
    (next : typing (p + 1) = ⟨locals, τ⟩) (there : typing q = ⟨locals, τ⟩) :
    Segment body pool typing depth p (p + 1) ∧ body.Leads p q := by
  obtain ⟨typed, leads, falls⟩ := jump shaped at_ mark here there true
    (fun place => by rw [does_ifZero]; exact ⟨rfl, rfl, fun _ => .branchZero⟩) fun _ => next
  exact ⟨single typed ⟨p, Nat.lt_succ_self p, falls rfl⟩, leads⟩

theorem branchInts {cond : Cond} {label : Nat} (at_ : CodeAt main p [.jump (.ifInts cond) label])
    (mark : CodeAt main q [.mark label]) (here : typing p = ⟨locals, .int :: .int :: τ⟩)
    (next : typing (p + 1) = ⟨locals, τ⟩) (there : typing q = ⟨locals, τ⟩) :
    Segment body pool typing depth p (p + 1) ∧ body.Leads p q := by
  obtain ⟨typed, leads, falls⟩ := jump shaped at_ mark here there true
    (fun place => by rw [does_ifInts]; exact ⟨rfl, rfl, fun _ => .branchInts⟩) fun _ => next
  exact ⟨single typed ⟨p, Nat.lt_succ_self p, falls rfl⟩, leads⟩

/-- The code of a truth value, whose branch is given. -/
private theorem truth {op : Opcode} {n : Nat} {operands : List VType}
    (at_ : CodeAt main p (truthCode op n))
    (follows : Follows typing locals p (truthShapes operands σ ++ [.int :: σ]))
    (branch : CodeAt main (p + 3) [.mark n] → typing (p + 1) = ⟨locals, σ⟩ →
      typing (p + 3) = ⟨locals, σ⟩ →
        Segment body pool typing depth p (p + 1) ∧ body.Leads p (p + 3)) :
    Segment body pool typing depth p (p + 4) := by
  have no : CodeAt main (p + 1) [.push 0] := at_.tail.head
  have skip : CodeAt main (p + 2) [.jump .goto (n + 1)] := at_.tail.tail.head
  have yes : CodeAt main (p + 3) [.mark n] := at_.tail.tail.tail.head
  have one : CodeAt main (p + 3) [.push 1] := at_.tail.tail.tail.tail.head
  have done : CodeAt main (p + 4) [.mark (n + 1)] := at_.tail.tail.tail.tail.tail.head
  have afterNo := follows.tail.head
  have atSkip := follows.tail.tail.head
  have atYes := follows.tail.tail.tail.head
  have atDone := follows.tail.tail.tail.tail.head
  obtain ⟨first, toYes⟩ := branch yes afterNo atYes
  obtain ⟨typed, -⟩ := goto shaped skip done atSkip atDone
  exact ((first.trans (move shaped no .push afterNo atSkip)).trans
    (single typed ⟨p, by omega, toYes⟩)).trans (move shaped one .push atYes atDone)

/-- The start, the limit and the step of a counting loop are turned round once. -/
theorem turn {rest : List Step} {more : List (List VType)}
    (at_ : CodeAt main p (.insn .swap :: .insn .dup2X1 :: .insn .pop2 :: rest))
    (follows : Follows typing locals p
      ((.int :: .int :: .int :: σ) :: (.int :: .int :: .int :: σ) ::
        (.int :: .int :: .int :: .int :: .int :: σ) :: (.int :: .int :: .int :: σ) :: more)) :
    Segment body pool typing depth p (p + 3) := by
  have swap := move shaped at_.head .swap follows.head follows.tail.head
  have spread := move shaped at_.tail.head .dup2X1 follows.tail.head follows.tail.tail.head
  have drop := move shaped at_.tail.tail.head .pop2 follows.tail.tail.head
    follows.tail.tail.tail.head
  exact (swap.trans spread).trans drop

/-- The test of a counting loop leaves its step and its limit. -/
theorem countTest {rest : List Step} {more : List (List VType)} {label : Nat}
    (at_ : CodeAt main p (.insn .swap :: .insn .dupX1 :: .jump (.ifInts .gt) label :: rest))
    (mark : CodeAt main q [.mark label])
    (follows : Follows typing locals p
      ((.int :: .int :: .int :: σ) :: (.int :: .int :: .int :: σ) ::
        (.int :: .int :: .int :: .int :: σ) :: more))
    (next : typing (p + 3) = ⟨locals, .int :: .int :: σ⟩)
    (there : typing q = ⟨locals, .int :: .int :: σ⟩) :
    Segment body pool typing depth p (p + 3) ∧ body.Leads (p + 2) q := by
  have swap := move shaped at_.head .swap follows.head follows.tail.head
  have copy := move shaped at_.tail.head .dupX1 follows.tail.head follows.tail.tail.head
  obtain ⟨branch, leads⟩ := branchInts shaped at_.tail.tail.head mark follows.tail.tail.head next
    there
  exact ⟨(swap.trans copy).trans branch, leads⟩

/-- Behind the body the counter is advanced by its step and tested again; the exit, which the test
leads to, drops the step and the limit. -/
theorem advance {slot again done : Nat} (low : 0 < slot) (high : slot ≤ count)
    (at_ : CodeAt main p [.insn .swap, .insn .dupX1, .localVar .iload slot, .insn .iadd, .insn .dup,
      .localVar .istore slot, .jump .goto again, .mark done, .insn .pop2])
    (top : CodeAt main q [.mark again])
    (follows : Follows typing locals p
      [.int :: .int :: σ, .int :: .int :: σ, .int :: .int :: .int :: σ,
        .int :: .int :: .int :: .int :: σ, .int :: .int :: .int :: σ,
        .int :: .int :: .int :: .int :: σ, .int :: .int :: .int :: σ, .int :: .int :: σ, σ])
    (there : typing q = ⟨locals, .int :: .int :: .int :: σ⟩) (exits : body.Leads r (p + 7))
    (before : r < p + 7) : Segment body pool typing depth p (p + 8) := by
  have found : arithmetic? .add = some .iadd := rfl
  have loadCode : CodeAt main (p + 2) _ := at_.tail.tail
  have keepCode : CodeAt main (p + 4) _ := loadCode.tail.tail
  have gotoCode : CodeAt main (p + 6) _ := keepCode.tail.tail
  have shapes := follows.tail.tail
  have kept := shapes.tail.tail
  have last := kept.tail.tail
  have swap := move shaped at_.head .swap follows.head follows.tail.head
  have copy := move shaped at_.tail.head .dupX1 follows.tail.head shapes.head
  have load := move shaped loadCode.head (.load low high) shapes.head shapes.tail.head
  have add := move shaped loadCode.tail.head (.arithmetic found) shapes.tail.head kept.head
  have keep := move shaped keepCode.head .dup kept.head kept.tail.head
  have save := move shaped keepCode.tail.head (.store low high) kept.tail.head last.head
  obtain ⟨leaves, -⟩ := goto shaped gotoCode.head top last.head there
  have drop : CodeAt main (p + 7) [.insn .pop2] := gotoCode.tail.tail
  have clear := move shaped drop .pop2 last.tail.head last.tail.tail.head
  exact ((((swap.trans copy).trans (load.trans add)).trans keep).trans save).trans
    ((single leaves ⟨r, before, exits⟩).trans clear)

end Segment

end ClassFile

open ClassFile

/-- The stack at the start of an expression. -/
theorem Expr.follows_start {isName : Bytes → Prop} {e : Expr} (proper : e.Proper isName)
    {typing : Nat → TypeState} {locals : Array VType} {p : Nat} {σ : List VType}
    {more : List (List VType)} (follows : Follows typing locals p (e.shapes σ ++ more)) :
    typing p = ⟨locals, σ⟩ := by
  obtain ⟨rest, starts⟩ := e.shapes_head proper σ
  rw [starts] at follows
  exact follows.head

/-- The stack at the start of statements that are followed on the same stack. -/
theorem Stmt.follows_start {isName : Bytes → Prop} {list : List Stmt}
    (proper : Stmt.AllProper isName list) {typing : Nat → TypeState} {locals : Array VType}
    {p : Nat} {σ : List VType} {more : List (List VType)}
    (follows : Follows typing locals p (Stmt.allShapes σ list ++ σ :: more)) :
    typing p = ⟨locals, σ⟩ := by
  obtain ⟨rest, starts⟩ := Stmt.allShapes_head list proper σ more
  rw [starts] at follows
  exact follows.head

section

variable {main : List Step} {body : Body} {pool : Pool} {target : Nat → Option Nat}
  {typing : Nat → TypeState} {depth : Nat} {locals : Array VType} {vars : Variables}
  (sound : vars.Sound) (shaped : ClassFile.Shaped main body pool target typing depth vars.size locals)
include sound shaped

omit sound shaped

variable (main body pool typing depth locals vars) in
/-- The code of an expression is typed by its shapes, and leaves one more integer. -/
private def Expr.Typed (e : Expr) : Prop :=
  ∀ ⦃n p : Nat⦄ ⦃σ : List VType⦄, CodeAt main p (e.code vars n) →
    Follows typing locals p (e.shapes σ ++ [.int :: σ]) →
    Segment body pool typing depth p (p + width (e.code vars n))

include sound shaped in
private theorem Expr.varRef_typed (site : Site) (name : Bytes) :
    (Expr.varRef site name).Typed main body pool typing depth locals vars := by
  intro n p σ at_ follows
  rw [Expr.code] at at_ ⊢
  split at at_
  next known =>
    obtain ⟨low, high⟩ := slotOf_bounds sound known
    rw [if_pos known]
    exact .move shaped at_ (.load low high) follows.head follows.tail.head
  next unknown =>
    rw [if_neg unknown]
    exact .move shaped at_ .push follows.head follows.tail.head

include shaped

private theorem Expr.unary_typed {isName : Bytes → Prop} (site : Site) {op : Op}
    (usual : op = .plus ∨ op = .neg ∨ op = .not) {operand : Expr} (proper : operand.Proper isName)
    (typed : operand.Typed main body pool typing depth locals vars) :
    (Expr.unary site op operand).Typed main body pool typing depth locals vars := by
  intro n p σ at_ follows
  have length := operand.length_shapes vars proper n σ
  rcases usual with rfl | rfl | rfl
  · simp only [Expr.code, Expr.shapes, List.append_nil] at at_ follows ⊢
    exact typed at_ follows
  · simp only [Expr.code, Expr.shapes, List.append_assoc, List.cons_append,
      List.nil_append] at at_ follows ⊢
    have rest := follows.right
    rw [length] at rest
    rw [width_append, ← Nat.add_assoc]
    exact (typed at_.left follows.upTo).trans
      (.move shaped at_.right .negate rest.head rest.tail.head)
  · simp only [Expr.code, Expr.shapes, List.append_assoc] at at_ follows ⊢
    have rest := follows.right
    rw [length] at rest
    rw [width_append, ← Nat.add_assoc, width_truthCode]
    refine (typed at_.left follows.upTo).trans (.truth shaped at_.right rest ?_)
    exact fun yes next there => Segment.branchZero shaped at_.right.head yes rest.head next there

section

variable {isName : Bytes → Prop} {left right : Expr} (one : left.Proper isName)
  (two : right.Proper isName) (first : left.Typed main body pool typing depth locals vars)
  (second : right.Typed main body pool typing depth locals vars)
include one two first second

omit shaped in
/-- The operands of arithmetic and of comparisons, whatever comes behind them. -/
private theorem Expr.operands_typed {n m p : Nat} {σ : List VType} {rest : List Step}
    {more : List (List VType)}
    (at_ : CodeAt main p (left.code vars n ++ (right.code vars m ++ rest)))
    (follows : Follows typing locals p
      (left.shapes σ ++ (right.shapes (.int :: σ) ++ (.int :: .int :: σ) :: more))) :
    Segment body pool typing depth p
        (p + width (left.code vars n) + width (right.code vars m)) ∧
      CodeAt main (p + width (left.code vars n) + width (right.code vars m)) rest ∧
      Follows typing locals (p + width (left.code vars n) + width (right.code vars m))
        ((.int :: .int :: σ) :: more) := by
  have middle := follows.right
  rw [left.length_shapes vars one n] at middle
  have later := middle.right
  rw [right.length_shapes vars two m] at later
  obtain ⟨others, starts⟩ := right.shapes_head two (.int :: σ)
  rw [starts] at follows
  exact ⟨(first at_.left follows.upTo).trans (second at_.right.left middle.upTo),
    at_.right.right, later⟩

private theorem Expr.arithmetic_typed (site : Site) {form : BinaryForm} {op : Op}
    (admits : form.Admits op) (calculates : form = .additive ∨ form = .multiplicative) :
    (Expr.binary site form op left right).Typed main body pool typing depth locals vars := by
  intro n p σ at_ follows
  obtain ⟨code, found⟩ := arithmetic?_isSome admits calculates
  rcases calculates with rfl | rfl
  all_goals
    simp only [Expr.code, Expr.shapes, found, Option.map_some, Option.toList_some,
      List.append_assoc, List.cons_append, List.nil_append] at at_ follows ⊢
    obtain ⟨operands, last, later⟩ := Expr.operands_typed one two first second at_ follows
    rw [width_append, width_append, ← Nat.add_assoc, ← Nat.add_assoc]
    exact operands.trans (.move shaped last (.arithmetic found) later.head later.tail.head)

private theorem Expr.comparison_typed (site : Site) {op : Op}
    (admits : BinaryForm.comparison.Admits op) :
    (Expr.binary site .comparison op left right).Typed main body pool typing depth locals
      vars := by
  intro n p σ at_ follows
  obtain ⟨cond, found⟩ := condition?_isSome admits
  simp only [Expr.code, Expr.shapes, found, List.append_assoc] at at_ follows ⊢
  obtain ⟨operands, last, later⟩ := Expr.operands_typed one two first second at_ follows
  rw [width_append, width_append, ← Nat.add_assoc, ← Nat.add_assoc, width_truthCode]
  refine operands.trans (.truth shaped last later ?_)
  exact fun yes next there => Segment.branchInts shaped last.head yes later.head next there

private theorem Expr.circuit_typed (site : Site) {form : BinaryForm} (op : Op)
    (logical : form = .logicalAnd ∨ form = .logicalOr) :
    (Expr.binary site form op left right).Typed main body pool typing depth locals vars := by
  intro n p σ at_ follows
  rcases logical with rfl | rfl
  all_goals
    simp only [Expr.code, Expr.shapes, List.append_assoc, List.cons_append,
      List.nil_append] at at_ follows ⊢
    obtain ⟨others, starts⟩ := right.shapes_head two σ
    have middle := follows.right
    rw [left.length_shapes vars one (n + 1)] at middle
    have later := middle.tail.tail.tail
    have done := later.right
    rw [right.length_shapes vars two (n + 1 + left.labels)] at done
    have atRight := at_.right.tail.tail.tail
    obtain ⟨branch, -⟩ := Segment.branchZero shaped at_.right.tail.head atRight.right
      middle.tail.head middle.tail.tail.head done.head
    have start := first at_.left follows.upTo
    have dup := Segment.move shaped at_.right.head .dup middle.head middle.tail.head
    have last := second atRight.left later
    rw [starts] at later
    have pop := Segment.move shaped at_.right.tail.tail.head .pop middle.tail.tail.head later.head
    have whole := (((start.trans dup).trans branch).trans pop).trans last
    simpa [Step.size, Nat.add_assoc, Nat.add_comm, Nat.add_left_comm] using whole

end

include sound

theorem Expr.segment {isName : Bytes → Prop} (e : Expr) (proper : e.Proper isName) {n p : Nat}
    {σ : List VType} (at_ : CodeAt main p (e.code vars n))
    (follows : Follows typing locals p (e.shapes σ ++ [.int :: σ])) :
    Segment body pool typing depth p (p + width (e.code vars n)) := by
  suffices typed : e.Typed main body pool typing depth locals vars from typed at_ follows
  clear at_ follows
  induction e with
  | absent | hollow | unknown => exact proper.elim
  | intLit site text value =>
    intro n p σ at_ follows
    exact .move shaped at_ .push follows.head follows.tail.head
  | varRef site name => exact Expr.varRef_typed sound shaped site name
  | read site =>
    intro n p σ at_ follows
    exact (Segment.move shaped at_.head .scanner follows.head follows.tail.head).trans
      (.move shaped at_.tail.head .readInt follows.tail.head follows.tail.tail.head)
  | paren site inner ih => exact ih proper
  | unary site op operand ih =>
    exact Expr.unary_typed shaped site proper.1 proper.2 (ih proper.2)
  | binary site form op left right leftIh rightIh =>
    obtain ⟨admits, one, two⟩ := proper
    have first := leftIh one
    have second := rightIh two
    cases form with
    | additive => exact Expr.arithmetic_typed shaped one two first second site admits (.inl rfl)
    | multiplicative =>
      exact Expr.arithmetic_typed shaped one two first second site admits (.inr rfl)
    | comparison => exact Expr.comparison_typed shaped one two first second site admits
    | logicalAnd => exact Expr.circuit_typed shaped one two first second site op (.inl rfl)
    | logicalOr => exact Expr.circuit_typed shaped one two first second site op (.inr rfl)

/-- The code of the step of a counting loop. -/
private theorem Expr.stepSegment {isName : Bytes → Prop} {step : Expr}
    (proper : step.isAbsent = false → step.Proper isName) {n p : Nat} {σ : List VType}
    (at_ : CodeAt main p (step.stepCode vars n))
    (follows : Follows typing locals p (step.stepShapes σ ++ [.int :: σ])) :
    Segment body pool typing depth p (p + width (step.stepCode vars n)) := by
  rw [Expr.stepCode] at at_ ⊢
  rw [Expr.stepShapes] at follows
  cases absent : step.isAbsent with
  | true =>
    simp only [absent, if_true] at at_ follows ⊢
    exact .move shaped at_ .push follows.head follows.tail.head
  | false =>
    simp only [absent, Bool.false_eq_true, if_false] at at_ follows ⊢
    exact step.segment sound shaped (proper absent) at_ follows

/-- The code that comes before the first test of a counting loop. -/
private theorem Expr.countSegment {isName : Bytes → Prop} {start stop step : Expr}
    (first : start.Proper isName) (last : stop.Proper isName)
    (increment : step.isAbsent = false → step.Proper isName) {slot : Nat} (low : 0 < slot)
    (high : slot ≤ vars.size) {n m k p : Nat} {σ : List VType} {rest : List Step}
    {more : List (List VType)}
    (at_ : CodeAt main p (start.code vars n ++ (.insn .dup :: .localVar .istore slot ::
      (stop.code vars m ++ (step.stepCode vars k ++ rest)))))
    (follows : Follows typing locals p (start.shapes σ ++ ((.int :: σ) :: (.int :: .int :: σ) ::
      (stop.shapes (.int :: σ) ++ (step.stepShapes (.int :: .int :: σ) ++
        (.int :: .int :: .int :: σ) :: more))))) :
    ∃ q, q = p + width (start.code vars n) + 2 + width (stop.code vars m) +
        width (step.stepCode vars k) ∧
      Segment body pool typing depth p q ∧ CodeAt main q rest ∧
      Follows typing locals q ((.int :: .int :: .int :: σ) :: more) := by
  have stored := follows.right
  rw [start.length_shapes vars first n] at stored
  have stopShapes := stored.tail.tail
  have stepShapes := stopShapes.right
  rw [stop.length_shapes vars last m] at stepShapes
  have turned := stepShapes.right
  rw [Expr.length_stepShapes vars increment k] at turned
  have storeCode := at_.right
  have stopCode : CodeAt main (p + width (start.code vars n) + 2) _ := storeCode.tail.tail
  have start_ := start.segment sound shaped first at_.left follows.upTo
  have dup := Segment.move shaped storeCode.head .dup stored.head stored.tail.head
  have store := Segment.move shaped storeCode.tail.head (.store low high) stored.tail.head
    (Expr.follows_start last stopShapes)
  have step_ := Expr.stepSegment sound shaped increment stopCode.right.left stepShapes.upTo
  obtain ⟨others, starts⟩ := Expr.stepShapes_head increment (.int :: .int :: σ)
  rw [starts] at stopShapes
  have stop_ := stop.segment sound shaped last stopCode.left stopShapes.upTo
  exact ⟨_, rfl, (((start_.trans dup).trans store).trans stop_).trans step_, stopCode.right.right,
    turned⟩

omit sound shaped

section

variable (main body pool typing depth locals vars) (lineOf : Option (Span → Nat))

/-- The code of a statement is typed by its shapes, and leaves the stack as it found it. -/
private def Stmt.Typed (s : Stmt) : Prop :=
  ∀ ⦃n p : Nat⦄ ⦃σ : List VType⦄, CodeAt main p (s.code vars lineOf n) →
    Follows typing locals p (s.shapes σ ++ [σ]) →
    Segment body pool typing depth p (p + width (s.code vars lineOf n))

private def Stmt.AllTyped (list : List Stmt) : Prop :=
  ∀ ⦃n p : Nat⦄ ⦃σ : List VType⦄, CodeAt main p (Stmt.allCode vars lineOf n list) →
    Follows typing locals p (Stmt.allShapes σ list ++ [σ]) →
    Segment body pool typing depth p (p + width (Stmt.allCode vars lineOf n list))

end

section

variable {isName : Bytes → Prop} {lineOf : Option (Span → Nat)} (site : Site)

include sound shaped

private theorem Stmt.assign_typed (span : Span) {name : Bytes} {value : Expr}
    (proper : value.Proper isName) (known : vars.has name = true) :
    (Stmt.assign site name span value).Typed main body pool typing depth locals vars lineOf := by
  intro n p σ at_ follows
  simp only [Stmt.code, Stmt.shapes, List.append_assoc, List.cons_append,
    List.nil_append] at at_ follows ⊢
  have code := at_.skip
  have rest := follows.right
  rw [value.length_shapes vars proper n] at rest
  obtain ⟨low, high⟩ := slotOf_bounds sound known
  have first := value.segment sound shaped proper code.left follows.upTo
  have store := Segment.move shaped code.right (.store low high) rest.head rest.tail.head
  simpa [Step.size, Nat.add_assoc] using first.trans store

private theorem Stmt.read_typed (span : Span) {name : Bytes} (known : vars.has name = true) :
    (Stmt.read site name span).Typed main body pool typing depth locals vars lineOf := by
  intro n p σ at_ follows
  simp only [Stmt.code, Stmt.shapes, List.append_assoc, readCode, List.cons_append,
    List.nil_append] at at_ follows ⊢
  have code := at_.skip
  obtain ⟨low, high⟩ := slotOf_bounds sound known
  have scanner := Segment.move shaped code.head .scanner follows.head follows.tail.head
  have read := Segment.move shaped code.tail.head .readInt follows.tail.head
    follows.tail.tail.head
  have store := Segment.move shaped code.tail.tail.head (.store low high) follows.tail.tail.head
    follows.tail.tail.tail.head
  simpa [Step.size, Nat.add_assoc] using (scanner.trans read).trans store

private theorem Stmt.print_typed {value : Expr} (proper : value.Proper isName) :
    (Stmt.print site value).Typed main body pool typing depth locals vars lineOf := by
  intro n p σ at_ follows
  simp only [Stmt.code, Stmt.shapes, List.append_assoc, List.cons_append,
    List.nil_append] at at_ follows ⊢
  have code := at_.skip
  have inner := follows.tail
  have rest := inner.right
  rw [value.length_shapes vars proper n] at rest
  obtain ⟨others, starts⟩ := value.shapes_head proper (streamType :: σ)
  have first := value.segment sound shaped proper code.tail.left inner.upTo
  have print := Segment.move shaped code.tail.right .printInt rest.head rest.tail.head
  rw [starts] at inner
  have stream := Segment.move shaped code.head .stream follows.head inner.head
  simpa [Step.size, Nat.add_assoc, Nat.add_comm, Nat.add_left_comm] using
    (stream.trans first).trans print

variable {cond : Expr} {thenBody elseBody inner : List Stmt} (test : cond.Proper isName)

section

variable (yes : Stmt.AllProper isName thenBody)
  (inThen : Stmt.AllTyped main body pool typing depth locals vars lineOf thenBody)
include test yes inThen

private theorem Stmt.ifElse_typed (no : Stmt.AllProper isName elseBody)
    (inElse : Stmt.AllTyped main body pool typing depth locals vars lineOf elseBody) :
    (Stmt.ifElse site cond thenBody elseBody true).Typed main body pool typing depth locals vars
      lineOf := by
  intro n p σ at_ follows
  simp only [Stmt.code, Stmt.shapes, if_true, List.append_assoc, List.cons_append,
    List.nil_append] at at_ follows ⊢
  have code := at_.skip
  have branchShapes := follows.right
  rw [cond.length_shapes vars test (n + 2)] at branchShapes
  have gotoShapes := branchShapes.tail.right
  rw [Stmt.length_allShapes vars lineOf thenBody yes (n + 2 + cond.labels)] at gotoShapes
  have doneShapes := gotoShapes.tail.right
  rw [Stmt.length_allShapes vars lineOf elseBody no
    (n + 2 + cond.labels + Stmt.allLabels thenBody)] at doneShapes
  have thenCode := code.right.tail
  have elseCode := thenCode.right.tail.tail
  have first := cond.segment sound shaped test code.left follows.upTo
  obtain ⟨branch, toElse⟩ := Segment.branchZero shaped code.right.head thenCode.right.tail.head
    branchShapes.head (Stmt.follows_start yes branchShapes.tail)
    (Stmt.follows_start no gotoShapes.tail)
  have then_ := inThen thenCode.left branchShapes.tail.upTo
  obtain ⟨leaves, -⟩ := Segment.goto shaped thenCode.right.head elseCode.right gotoShapes.head
    doneShapes.head
  have else_ := inElse elseCode.left gotoShapes.tail
  have skip := Segment.single leaves ⟨_, by simp only [Step.size]; omega, toElse⟩
  have whole := (((first.trans branch).trans then_).trans skip).trans else_
  simpa [Step.size, Nat.add_assoc, Nat.add_comm, Nat.add_left_comm] using whole

private theorem Stmt.if_typed : (Stmt.ifElse site cond thenBody elseBody false).Typed main body
    pool typing depth locals vars lineOf := by
  intro n p σ at_ follows
  simp only [Stmt.code, Stmt.shapes, Bool.false_eq_true, if_false, List.append_assoc,
    List.cons_append, List.nil_append] at at_ follows ⊢
  have code := at_.skip
  have branchShapes := follows.right
  rw [cond.length_shapes vars test (n + 1)] at branchShapes
  have doneShapes := branchShapes.tail.right
  rw [Stmt.length_allShapes vars lineOf thenBody yes (n + 1 + cond.labels)] at doneShapes
  have thenCode := code.right.tail
  have first := cond.segment sound shaped test code.left follows.upTo
  obtain ⟨branch, -⟩ := Segment.branchZero shaped code.right.head thenCode.right
    branchShapes.head (Stmt.follows_start yes branchShapes.tail) doneShapes.head
  have then_ := inThen thenCode.left branchShapes.tail
  have whole := (first.trans branch).trans then_
  simpa [Step.size, Nat.add_assoc, Nat.add_comm, Nat.add_left_comm] using whole

end

variable (inside : Stmt.AllProper isName inner)
  (round : Stmt.AllTyped main body pool typing depth locals vars lineOf inner)
include inside round

include test in
private theorem Stmt.while_typed : (Stmt.whileLoop site cond inner).Typed main body pool typing
    depth locals vars lineOf := by
  intro n p σ at_ follows
  simp only [Stmt.code, Stmt.shapes, List.append_assoc, List.cons_append,
    List.nil_append] at at_ follows ⊢
  have code := at_.skip.tail
  have branchShapes := follows.right
  rw [cond.length_shapes vars test (n + 2)] at branchShapes
  have gotoShapes := branchShapes.tail.right
  rw [Stmt.length_allShapes vars lineOf inner inside (n + 2 + cond.labels)] at gotoShapes
  have innerCode := code.right.tail
  have first := cond.segment sound shaped test code.left follows.upTo
  obtain ⟨branch, toDone⟩ := Segment.branchZero shaped code.right.head innerCode.right.tail.head
    branchShapes.head (Stmt.follows_start inside branchShapes.tail) gotoShapes.tail.head
  have inner_ := round innerCode.left branchShapes.tail.upTo
  obtain ⟨leaves, -⟩ := Segment.goto shaped innerCode.right.head at_.skip.head gotoShapes.head
    (Expr.follows_start test follows)
  have back := Segment.single leaves ⟨_, by simp only [Step.size]; omega, toDone⟩
  have whole := ((first.trans branch).trans inner_).trans back
  simpa [Step.size, Nat.add_assoc, Nat.add_comm, Nat.add_left_comm] using whole

private theorem Stmt.for_typed (span : Span) {name : Bytes} (known : vars.has name = true)
    {start stop step : Expr} (first : start.Proper isName) (last : stop.Proper isName)
    (increment : step.isAbsent = false → step.Proper isName) :
    (Stmt.forLoop site name span start stop step inner).Typed main body pool typing depth locals
      vars lineOf := by
  intro n p σ at_ follows
  obtain ⟨low, high⟩ := slotOf_bounds sound known
  simp only [Stmt.code, Stmt.shapes, List.append_assoc, List.cons_append,
    List.nil_append] at at_ follows ⊢
  obtain ⟨q, here, prepare, turnCode, turned⟩ := Expr.countSegment sound shaped first last increment
    low high at_.skip follows
  have againCode : CodeAt main (q + 3) _ := turnCode.tail.tail.tail
  have againShapes := turned.tail.tail.tail
  have testCode : CodeAt main (q + 3) _ := againCode.tail
  have innerCode : CodeAt main (q + 6) _ := testCode.tail.tail.tail
  have innerShapes := againShapes.tail.tail.tail
  have afterCode := innerCode.right
  have afterShapes := innerShapes.right
  rw [Stmt.length_allShapes vars lineOf inner inside
    (n + 2 + start.labels + stop.labels + step.labels)] at afterShapes
  have inner_ := round innerCode.left innerShapes.upTo
  have turn := Segment.turn shaped turnCode turned
  generalize same : q + 6 + width (Stmt.allCode vars lineOf
    (n + 2 + start.labels + stop.labels + step.labels) inner) = r at *
  have done : CodeAt main (r + 7) [.mark (n + 1)] :=
    afterCode.tail.tail.tail.tail.tail.tail.tail.head
  obtain ⟨test, toDone⟩ := Segment.countTest shaped testCode done againShapes
    (Stmt.follows_start inside innerShapes)
    afterShapes.tail.tail.tail.tail.tail.tail.tail.head
  have le := inner_.le
  have after := Segment.advance shaped low high afterCode againCode.head afterShapes
    againShapes.head toDone (by omega)
  have whole := ((prepare.trans (turn.trans test)).trans inner_).trans after
  convert whole using 1
  simp [Step.size]
  omega

end

mutual

theorem Stmt.segment {isName : Bytes → Prop} (sound : vars.Sound)
    (shaped : ClassFile.Shaped main body pool target typing depth vars.size locals)
    (lineOf : Option (Span → Nat)) : (s : Stmt) →
    s.Proper isName → s.AssignsOnly (fun name => vars.has name = true) → {n p : Nat} →
    {σ : List VType} → CodeAt main p (s.code vars lineOf n) →
    Follows typing locals p (s.shapes σ ++ [σ]) →
      Segment body pool typing depth p (p + width (s.code vars lineOf n))
  | .absent, proper, _, _, _, _, _, _ | .hollow .., proper, _, _, _, _, _, _
  | .unknown _, proper, _, _, _, _, _, _ => proper.elim
  | .assign site _ span _, proper, known, _, _, _, at_, follows =>
    Stmt.assign_typed sound shaped site span proper.2 known at_ follows
  | .read site _ span, _, known, _, _, _, at_, follows =>
    Stmt.read_typed sound shaped site span known at_ follows
  | .print site _, proper, _, _, _, _, at_, follows =>
    Stmt.print_typed sound shaped site proper at_ follows
  | .ifElse site _ thenBody elseBody true, proper, known, _, _, _, at_, follows =>
    Stmt.ifElse_typed sound shaped site proper.1 proper.2.1
      (fun _ _ _ => Stmt.allSegment sound shaped lineOf thenBody proper.2.1 known.1) proper.2.2.1
      (fun _ _ _ => Stmt.allSegment sound shaped lineOf elseBody proper.2.2.1 known.2) at_ follows
  | .ifElse site _ thenBody _ false, proper, known, _, _, _, at_, follows =>
    Stmt.if_typed sound shaped site proper.1 proper.2.1
      (fun _ _ _ => Stmt.allSegment sound shaped lineOf thenBody proper.2.1 known.1) at_ follows
  | .whileLoop site _ inner, proper, known, _, _, _, at_, follows =>
    Stmt.while_typed sound shaped site proper.1 proper.2
      (fun _ _ _ => Stmt.allSegment sound shaped lineOf inner proper.2 known) at_ follows
  | .forLoop site _ span _ _ _ inner, proper, known, _, _, _, at_, follows =>
    Stmt.for_typed sound shaped site proper.2.2.2.2
      (fun _ _ _ => Stmt.allSegment sound shaped lineOf inner proper.2.2.2.2 known.2) span known.1
      proper.2.1 proper.2.2.1 proper.2.2.2.1 at_ follows

theorem Stmt.allSegment {isName : Bytes → Prop} (sound : vars.Sound)
    (shaped : ClassFile.Shaped main body pool target typing depth vars.size locals)
    (lineOf : Option (Span → Nat)) :
    (list : List Stmt) → Stmt.AllProper isName list →
    Stmt.AllAssignOnly (fun name => vars.has name = true) list → {n p : Nat} → {σ : List VType} →
    CodeAt main p (Stmt.allCode vars lineOf n list) →
    Follows typing locals p (Stmt.allShapes σ list ++ [σ]) →
      Segment body pool typing depth p (p + width (Stmt.allCode vars lineOf n list))
  | [], _, _, n, p, σ, at_, follows => .nil ..
  | s :: rest, proper, known, n, p, σ, at_, follows => by
    simp only [Stmt.allCode, Stmt.allShapes, List.append_assoc] at at_ follows ⊢
    have later := follows.right
    rw [s.length_shapes vars lineOf proper.1 n] at later
    obtain ⟨others, starts⟩ := Stmt.allShapes_head rest proper.2 σ []
    rw [starts] at follows
    have first := s.segment sound shaped lineOf proper.1 known.1 at_.left follows.upTo
    have second := Stmt.allSegment sound shaped lineOf rest proper.2 known.2 at_.right later
    simpa [Nat.add_assoc] using first.trans second

end

end

end Minilang
