import Minilang.Proofs.StackDiscipline

/-! The types at every instruction of a generated main method. The prologue makes the scanner and
gives each variable its zero; the statements then run on locals that no longer change their types.
The typing is consistent, so the analysis accepts the method and finds these very stacks. -/

namespace Minilang

namespace ClassFile

/-- The locals when the first `done` of `count` variables have been set. -/
def localsAfter (count done : Nat) : Array VType :=
  (scannerType :: (List.replicate done .int ++ List.replicate (count - done) .top)).toArray

theorem localsAfter_size {count done : Nat} (le : done ≤ count) :
    (localsAfter count done).size = count + 1 := by
  simp [localsAfter]
  omega

theorem localsAfter_ready (count : Nat) : Ready count (localsAfter count count) := by
  refine ⟨localsAfter_size (le_refl count), rfl, fun slot low high => ?_⟩
  obtain ⟨i, rfl⟩ : ∃ i, slot = i + 1 := ⟨slot - 1, by omega⟩
  simp [localsAfter, List.getElem?_replicate]
  omega

/-- Setting the next variable. -/
theorem localsAfter_succ {count done : Nat} (more : done < count) :
    (localsAfter count done).setIfInBounds (done + 1) .int = localsAfter count (done + 1) := by
  have split : count - done = (count - (done + 1)) + 1 := by omega
  have last : List.replicate (done + 1) VType.int = List.replicate done .int ++ [.int] :=
    List.replicate_succ'
  rw [localsAfter, localsAfter, last, split, List.replicate_succ]
  simp

/-- Setting slot 0, where the argument of the method was. -/
theorem localsAfter_zero (count : Nat) :
    ((entryTypes [mainArgument] (count + 1)).locals).setIfInBounds 0 scannerType =
      localsAfter count 0 := by
  simp [localsAfter, entryTypes]

/-- The types at the instructions of a method of `count` variables whose scanner is made at offset
`raw` and whose statements have the given stacks. -/
def mainTyping (count raw : Nat) (shapes : List (List VType)) (i : Nat) : TypeState :=
  match i with
  | 0 => entryTypes [mainArgument] (count + 1)
  | 1 => ⟨(entryTypes [mainArgument] (count + 1)).locals, [.uninit raw]⟩
  | 2 => ⟨(entryTypes [mainArgument] (count + 1)).locals, [.uninit raw, .uninit raw]⟩
  | 3 => ⟨(entryTypes [mainArgument] (count + 1)).locals,
      [.object "java/io/InputStream", .uninit raw, .uninit raw]⟩
  | 4 => ⟨(entryTypes [mainArgument] (count + 1)).locals, [scannerType]⟩
  | i + 5 =>
      if i < 2 * count then ⟨localsAfter count (i / 2), if i % 2 = 0 then [] else [.int]⟩
      else ⟨localsAfter count count, (shapes[i - 2 * count]?).getD []⟩

theorem mainTyping_clear (raw : Nat) {count done : Nat} {shapes : List (List VType)} (le : done ≤ count)
    (starts : shapes[0]?.getD [] = []) :
    mainTyping count raw shapes (5 + 2 * done) = ⟨localsAfter count done, []⟩ := by
  rw [Nat.add_comm 5, mainTyping]
  split
  next =>
    have half : 2 * done / 2 = done := by omega
    have even : 2 * done % 2 = 0 := by omega
    rw [half, if_pos even]
  next full =>
    have same : done = count := by omega
    rw [same, Nat.sub_self, starts]

theorem mainTyping_pushed (raw : Nat) (shapes : List (List VType)) {count done : Nat}
    (more : done < count) :
    mainTyping count raw shapes (5 + 2 * done + 1) = ⟨localsAfter count done, [.int]⟩ := by
  have place : 5 + 2 * done + 1 = (2 * done + 1) + 5 := by omega
  have half : (2 * done + 1) / 2 = done := by omega
  have odd : ¬ (2 * done + 1) % 2 = 0 := by omega
  rw [place, mainTyping, if_pos (by omega), half, if_neg odd]

theorem mainTyping_follows (count raw : Nat) (shapes : List (List VType)) :
    Follows (mainTyping count raw shapes) (localsAfter count count) (5 + 2 * count) shapes := by
  intro i shape found
  have place : 5 + 2 * count + i = (2 * count + i) + 5 := by omega
  have rest : 2 * count + i - 2 * count = i := by omega
  rw [place, mainTyping, if_neg (by omega), rest, found]
  rfl

theorem mainTyping_shallow (count raw : Nat) {shapes : List (List VType)} (climbs : Climbs 0 shapes)
    (i : Nat) : (mainTyping count raw shapes i).stack.length ≤ shapes.length + 3 := by
  unfold mainTyping
  split
  · exact Nat.zero_le _
  · show 1 ≤ shapes.length + 3
    omega
  · show 2 ≤ shapes.length + 3
    omega
  · show 3 ≤ shapes.length + 3
    omega
  · show 1 ≤ shapes.length + 3
    omega
  · split
    · show (if _ then _ else _ : List VType).length ≤ shapes.length + 3
      split
      · exact Nat.zero_le _
      · show 1 ≤ shapes.length + 3
        omega
    next j _ =>
      show ((shapes[j - 2 * count]?).getD []).length ≤ shapes.length + 3
      cases found : shapes[j - 2 * count]? with
      | none => exact Nat.zero_le _
      | some shape =>
        have bound := climbs _ shape found
        have inside := (List.getElem?_eq_some_iff.mp found).1
        simp only [Option.getD_some]
        omega

theorem width_clears (n : Nat) :
    width ((List.range n).flatMap fun (i : Nat) => [.push 0, .localVar .istore (i + 1)]) = 2 * n := by
  induction n with
  | zero => rfl
  | succ n ih =>
    rw [List.range_succ, List.flatMap_append, width_append, ih]
    rfl

@[simp] theorem width_prologueCode (vars : Variables) :
    width (prologueCode vars) = 5 + 2 * vars.size := by
  rw [prologueCode, width_append, width_clears]
  rfl

/-- The code that sets the variable with index `i`. -/
theorem CodeAt.clears {main : List Step} {p n i : Nat} (inside : i < n)
    (at_ : CodeAt main p ((List.range n).flatMap fun (i : Nat) =>
      [.push 0, .localVar .istore (i + 1)])) :
    CodeAt main (p + 2 * i) [.push 0, .localVar .istore (i + 1)] := by
  induction n with
  | zero => cases inside
  | succ n ih =>
    rw [List.range_succ, List.flatMap_append] at at_
    by_cases last : i = n
    · have here := at_.right
      rw [width_clears, ← last] at here
      simpa using here
    · exact ih (by omega) at_.left

section

variable {main : List Step} {body : Body} {pool : Pool} {target : Nat → Option Nat}
  {depth count raw : Nat} {shapes : List (List VType)}

/-- The scanner is made and stored. -/
private theorem scannerSegment (real : Realizes main body pool target)
    (shallow : ∀ i, (mainTyping count raw shapes i).stack.length ≤ depth)
    (at_ : CodeAt main 0 [.classOperand .new scannerClass, .insn .dup,
      .fieldOperand .getStatic systemIn, .methodOperand .invokeSpecial scannerInit,
      .localVar .astore 0])
    (offset : ∀ insn : Insn, body.insns[0]? = some insn → insn.offset = raw)
    (next : mainTyping count raw shapes 5 = ⟨localsAfter count 0, []⟩) :
    Segment body pool (mainTyping count raw shapes) depth 0 5 := by
  have makes : Segment body pool (mainTyping count raw shapes) depth 0 1 := by
    refine .straight real shallow at_.head rfl fun insn present means => ?_
    obtain ⟨i, same, names⟩ := means
    rw [same, does_new, offset insn present]
    exact ⟨.new names.className, rfl, rfl⟩
  have copies : Segment body pool (mainTyping count raw shapes) depth 1 2 := by
    refine .straight real shallow at_.tail.head rfl fun insn present means => ?_
    rw [show insn.action = _ from means]
    exact ⟨.shuffle rfl, rfl, rfl⟩
  have takes : Segment body pool (mainTyping count raw shapes) depth 2 3 := by
    refine .straight real shallow at_.tail.tail.head rfl fun insn present means => ?_
    obtain ⟨i, same, names⟩ := means
    rw [same, does_getStatic]
    exact ⟨.getStatic names.member rfl, rfl, rfl⟩
  have builds : Segment body pool (mainTyping count raw shapes) depth 3 4 := by
    refine .straight real shallow at_.tail.tail.tail.head rfl fun insn present means => ?_
    obtain ⟨i, same, names⟩ := means
    rw [same, does_invokeSpecial]
    have described : methodType scannerInit.descriptor =
        .ok ([.object "java/io/InputStream"], none) := rfl
    have fits : Fits [.object "java/io/InputStream"] [.object "java/io/InputStream"] :=
      .cons rfl .nil
    have known : TypeState.initialise ⟨(entryTypes [mainArgument] (count + 1)).locals, [.uninit raw]⟩
        (.uninit raw) scannerInit.owner =
          ⟨(entryTypes [mainArgument] (count + 1)).locals, [scannerType]⟩ := by
      simp [TypeState.initialise, entryTypes, mainArgument, scannerInit, scannerType]
    have rule : Rule pool insn.offset (mainTyping count raw shapes 3) (.invoke .specialCall i)
        ((TypeState.initialise ⟨(entryTypes [mainArgument] (count + 1)).locals, [.uninit raw]⟩
          (.uninit raw) scannerInit.owner).pushResult none) :=
      .construct names.member described fits rfl
    rw [known] at rule
    exact ⟨rule, rfl, rfl⟩
  have stores : Segment body pool (mainTyping count raw shapes) depth 4 5 := by
    refine .straight real shallow at_.tail.tail.tail.tail.head rfl fun insn present means => ?_
    rw [show insn.action = _ from means, next, ← localsAfter_zero]
    exact ⟨.refStore (by simp [entryTypes]), rfl, rfl⟩
  exact (((makes.trans copies).trans takes).trans builds).trans stores

/-- Each variable is set to zero. -/
private theorem clearSegment (real : Realizes main body pool target)
    (shallow : ∀ i, (mainTyping count raw shapes i).stack.length ≤ depth)
    (at_ : CodeAt main 5 ((List.range count).flatMap fun (i : Nat) =>
      [.push 0, .localVar .istore (i + 1)]))
    (starts : shapes[0]?.getD [] = []) (done : Nat) (le : done ≤ count) :
    Segment body pool (mainTyping count raw shapes) depth 5 (5 + 2 * done) := by
  induction done with
  | zero => exact .nil ..
  | succ done ih =>
    have code := at_.clears (Nat.lt_of_succ_le le)
    have here := mainTyping_clear raw (Nat.le_of_succ_le le) starts
    have pushed := mainTyping_pushed raw shapes (Nat.lt_of_succ_le le)
    have next := mainTyping_clear raw le starts
    have pushes : Segment body pool (mainTyping count raw shapes) depth (5 + 2 * done)
        (5 + 2 * done + 1) := by
      refine .straight real shallow code.head rfl fun insn present means => ?_
      rw [here, pushed]
      rcases means with same | ⟨i, same, found⟩ <;> rw [same]
      · exact ⟨.push, rfl, rfl⟩
      · exact ⟨.integer found, rfl, rfl⟩
    have stores : Segment body pool (mainTyping count raw shapes) depth (5 + 2 * done + 1)
        (5 + 2 * done + 1 + 1) := by
      refine .straight real shallow code.tail.head rfl fun insn present means => ?_
      have place : 5 + 2 * done + 1 + 1 = 5 + 2 * (done + 1) := by omega
      have inside : done + 1 < (localsAfter count done).size := by
        rw [localsAfter_size (by omega)]
        omega
      rw [show insn.action = _ from means, pushed, place, next, ← localsAfter_succ le]
      exact ⟨.intStore inside, rfl, rfl⟩
    exact ((ih (by omega)).trans pushes).trans stores

end

end ClassFile

open ClassFile

/-- The stacks at the statements of a program and at its return. -/
def Program.shapes (program : Program) : List (List VType) :=
  Stmt.allShapes [] program.stmts ++ [[]]

theorem Program.consistent {isName : Bytes → Prop} {program : Program} {vars : Variables}
    {lineOf : Option (Span → Nat)} {body : Body} {pool : Pool} {target : Nat → Option Nat}
    (sound : vars.Sound) (proper : Stmt.AllProper isName program.stmts)
    (known : Stmt.AllAssignOnly (fun name => vars.has name = true) program.stmts)
    (real : Realizes (program.code vars lineOf) body pool target) :
    ∃ raw, Consistent body pool (entryTypes [mainArgument] (vars.size + 1))
      (width (program.code vars lineOf)) (mainTyping vars.size raw program.shapes) := by
  have at_ : CodeAt (program.code vars lineOf) 0
      (prologueCode vars ++ Stmt.allCode vars lineOf 0 program.stmts) :=
    ⟨[], [], by simp [Program.code], rfl⟩
  have length := Stmt.length_allShapes vars lineOf program.stmts proper 0 []
  obtain ⟨others, starts⟩ := Stmt.allShapes_head program.stmts proper [] []
  have first : program.shapes[0]?.getD [] = [] := by
    rw [Program.shapes, starts]
    rfl
  have total : width (program.code vars lineOf) =
      5 + 2 * vars.size + width (Stmt.allCode vars lineOf 0 program.stmts) := by
    rw [Program.code, width_append, width_prologueCode]
  refine ⟨((body.insns[0]?).map Insn.offset).getD 0, ?_⟩
  generalize raw_ : ((body.insns[0]?).map Insn.offset).getD 0 = raw
  have climbs : Climbs 0 program.shapes :=
    (Stmt.allShapes_climb program.stmts proper []).append (.cons (Nat.zero_le _) (climbs_nil _))
  have shallow : ∀ i, (mainTyping vars.size raw program.shapes i).stack.length ≤
      width (program.code vars lineOf) := by
    intro i
    have bound := mainTyping_shallow vars.size raw climbs i
    have count : program.shapes.length = width (Stmt.allCode vars lineOf 0 program.stmts) + 1 := by
      rw [Program.shapes, List.length_append, length, List.length_singleton]
    omega
  have offset : ∀ insn : Insn, body.insns[0]? = some insn → insn.offset = raw := by
    intro insn present
    rw [← raw_, present]
    rfl
  have shaped : Shaped (program.code vars lineOf) body pool target
      (mainTyping vars.size raw program.shapes) (width (program.code vars lineOf)) vars.size
      (localsAfter vars.size vars.size) := ⟨real, shallow, localsAfter_ready vars.size⟩
  have prologue : CodeAt (program.code vars lineOf) 0 (prologueCode vars) := at_.left
  have clears : CodeAt (program.code vars lineOf) 5 _ := prologue.right
  have scanner := scannerSegment real shallow prologue.left offset
    (mainTyping_clear raw (Nat.zero_le _) first)
  have clear := clearSegment real shallow clears first vars.size (le_refl _)
  have start : 0 + width (prologueCode vars) = 5 + 2 * vars.size := by
    rw [width_prologueCode, Nat.zero_add]
  have code := at_.right
  rw [start] at code
  have follows := mainTyping_follows vars.size raw program.shapes
  have statements := Stmt.allSegment sound shaped lineOf program.stmts proper known code follows
  have whole := (scanner.trans clear).trans statements
  rw [← total] at whole
  refine ⟨real.indexed, .refl _, fun i inside => ?_, fun j low inside => ?_⟩
  · rw [real.size] at inside
    rcases Nat.lt_succ_iff_lt_or_eq.mp inside with before | rfl
    · exact whole.typed i (Nat.zero_le i) before
    · obtain ⟨insn, present, returns⟩ := real.last
      refine ⟨insn, mainTyping vars.size raw program.shapes (width (program.code vars lineOf)), [],
        present, ?_, ?_, shallow _, shallow _, List.forall_mem_nil _, ?_⟩
      · rw [returns]
        exact .ret
      · simp [Body.successors, returns, Action.target?, Action.fallsThrough]
      · intro place found
        rw [returns] at found
        cases found
  · rw [real.size] at inside
    exact whole.entered j low (by omega)

end Minilang
