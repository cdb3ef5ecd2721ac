import Minilang.Proofs.ClassCorrectness
import Minilang.Proofs.ConsoleReplay
import Minilang.Proofs.IrCorrectness
import Minilang.Proofs.SameCode

/-! Every artefact can be run. Whatever a compiled program is given, on whatever console and with
whatever limit, its run does not end because the artefact is malformed or outside of what the
machine supports, if the artefact can hold the names that were put into it. -/

namespace Minilang

open Machine (Console)

theorem EvalStop.faultNumber?_ne (stop : EvalStop) : stop.faultNumber? ≠ some 2004 := by
  unfold EvalStop.faultNumber?
  split <;> simp

namespace ClassFile

section

variable {body : Body} {pool : Pool} {state next other : MachineState}

theorem Advances.unique (one : Advances body pool state next)
    (two : Advances body pool state other) : next = other := by
  obtain ⟨insn, present, -, executed, -⟩ := one
  obtain ⟨again, same, -, executes, -⟩ := two
  cases present.symm.trans same
  exact Except.ok.inj (executed.symm.trans executes)

theorem Breaks.halts (broken : Breaks body pool state) : ¬Advances body pool state next := by
  rintro ⟨insn, present, -, executed, inside⟩
  rcases broken with past | ⟨again, same, -, ⟨trouble, fails, -⟩ | ⟨after, executes, outside⟩⟩
  · cases past.symm.trans present
  · cases present.symm.trans same
    cases executed.symm.trans fails
  · cases present.symm.trans same
    cases executed.symm.trans executes
    omega

/-- A return ends a run as it should. -/
theorem returns_unbroken (returns : ∃ insn, body.insns[state.next]? = some insn ∧ insn.action = .ret) :
    ¬Breaks body pool state ∧ ∀ next, ¬Advances body pool state next := by
  obtain ⟨insn, present, ends⟩ := returns
  constructor
  · rintro (past | ⟨again, same, goes, -⟩)
    · cases past.symm.trans present
    · cases present.symm.trans same
      exact goes ends
  · rintro next ⟨again, same, goes, -⟩
    cases present.symm.trans same
    exact goes ends

/-- An evaluation that stops ends a run as it should. -/
theorem Stuck.unbroken {stop : EvalStop} {es : EvalState} (stuck : Stuck body pool stop es state) :
    ¬Breaks body pool state ∧ ∀ next, ¬Advances body pool state next := by
  obtain ⟨cause, causes, ⟨insn, present, -, fails⟩, -⟩ := stuck
  have other : cause.number ≠ 2004 := by
    intro same
    have number := causeOf?_number causes
    rw [same] at number
    exact stop.faultNumber?_ne number
  constructor
  · rintro (past | ⟨again, same, -, ⟨trouble, failed, unsound⟩ | ⟨after, executes, -⟩⟩)
    · cases past.symm.trans present
    · cases present.symm.trans same
      cases fails.symm.trans failed
      exact other unsound
    · cases present.symm.trans same
      cases fails.symm.trans executes
  · rintro next ⟨again, same, -, executed, -⟩
    cases present.symm.trans same
    cases fails.symm.trans executed

end

end ClassFile

open ClassFile in
/-- The class of a program does not break on any console. -/
theorem Program.class_unbroken {program : Program} {vars : Variables}
    {lineOf : Option (Span → Nat)} {body : Body} {pool : Pool} {target : Nat → Option Nat}
    (lowerable : program.Lowerable vars)
    (real : Realizes (program.code vars lineOf) body pool target) {console : Console} {k : Nat}
    {last : ClassFile.MachineState}
    (runs : Runs (Advances body pool) k (startOf (vars.size + 1) console) last) :
    ¬Breaks body pool last := by
  intro broken
  obtain ⟨inputs, again⟩ := (ClassFile.replays body pool).runs runs broken []
  obtain ⟨final, more, ended⟩ := again (startOf (vars.size + 1) (scripted inputs [])) rfl
  have imitates := Program.class_imitates lowerable real inputs (3 * k + 3)
  refine (imitates.owing_less (by omega)).avoids Advances.unique Breaks.halts ?_ Stuck.unbroken more
    ended
  rintro value after last ⟨rfl, -⟩
  exact returns_unbroken real.last

namespace Ir

/-- An item that gives no name to what scanning answers. -/
def Item.scansQuietly : Item → Bool
  | .insn ⟨some _, .scan ..⟩ => false
  | _ => true

section

variable {code : Code} {body : List Item} {state next other : MachineState}

theorem Code.Realizes.scansIntoCells (real : code.Realizes body)
    (quiet : body.all Item.scansQuietly = true) : code.ScansIntoCells := by
  intro p placed present format cell scans
  have listed : placed.insn ∈ insnsOf body := by
    rw [← real.holds.insns]
    exact List.mem_map_of_mem (Array.mem_toList_iff.mpr (Array.mem_of_getElem? present))
  obtain ⟨item, member, found⟩ := List.mem_filterMap.mp listed
  have here := List.all_eq_true.mp quiet item member
  obtain ⟨⟨result, action⟩, line⟩ := placed
  cases scans
  cases item with
  | label => cases found
  | insn insn =>
    cases found
    cases result with
    | none => rfl
    | some => cases here

theorem Advances.unique (one : Advances code state next) (two : Advances code state other) :
    next = other := by
  obtain ⟨placed, present, stepped⟩ := one
  obtain ⟨again, same, steps⟩ := two
  cases present.symm.trans same
  cases stepped.symm.trans steps
  rfl

theorem Ends.halts {run : Machine.Run} (ends : Ends code state run) :
    ¬Advances code state next := by
  obtain ⟨placed, present, ended⟩ := ends
  rintro ⟨again, same, steps⟩
  cases present.symm.trans same
  cases ended.symm.trans steps

theorem Breaks.halts (broken : Breaks code state) : ¬Advances code state next := by
  intro advances
  obtain ⟨placed, present, -, executed⟩ := advances_iff.mp advances
  rcases broken with past | ⟨again, same, trouble, fails, -⟩
  · cases past.symm.trans present
  · cases present.symm.trans same
    cases executed.symm.trans fails

/-- A run that ends as it should has not come to a break. -/
theorem Ends.unbroken {run : Machine.Run} (ends : Ends code state run) (sound : run.Sound) :
    ¬Breaks code state ∧ ∀ next, ¬Advances code state next := by
  refine ⟨?_, fun next => ends.halts⟩
  obtain ⟨placed, present, ended⟩ := ends
  rintro (past | ⟨again, same, trouble, fails, unsound⟩)
  · cases past.symm.trans present
  cases present.symm.trans same
  simp only [step, fails] at ended
  cases trouble with
  | flaw flaw =>
    cases ended
    exact sound.supported _ rfl rfl
  | cause reason =>
    cases ended
    exact sound.supported _ rfl unsound

end

end Ir

open Ir

theorem Expr.items_scanQuietly (e : Expr) (n : Nat) :
    (e.items n).all Item.scansQuietly = true := by
  induction e generalizing n with
  | absent | hollow | unknown | intLit | varRef | read => rfl
  | paren site inner ih => exact ih n
  | unary site op operand ih => cases op <;> simp [Expr.items, ih, Item.scansQuietly, result]
  | binary site form op left right leftIh rightIh =>
    cases form <;> simp [Expr.items, leftIh, rightIh, Item.scansQuietly, result, plain, mark]

mutual

theorem Stmt.items_scanQuietly : (s : Stmt) → (n : Nat) →
    (s.items n).all Item.scansQuietly = true
  | .absent, _ | .hollow .., _ | .unknown _, _ | .read .., _ => rfl
  | .assign _ _ _ value, n => by
    simp [Stmt.items, value.items_scanQuietly, Item.scansQuietly, plain]
  | .print _ value, n => by
    simp [Stmt.items, value.items_scanQuietly, Item.scansQuietly, plain]
  | .ifElse _ cond thenBody elseBody hasElse, n => by
    have yes := Stmt.allItems_scanQuietly thenBody
    have no := Stmt.allItems_scanQuietly elseBody
    cases hasElse <;>
      simp [Stmt.items, cond.items_scanQuietly, yes, no, Item.scansQuietly, result, plain, mark]
  | .whileLoop _ cond body, n => by
    have round := Stmt.allItems_scanQuietly body
    simp [Stmt.items, cond.items_scanQuietly, round, Item.scansQuietly, result, plain, mark]
  | .forLoop _ _ _ start stop step body, n => by
    have round := Stmt.allItems_scanQuietly body
    simp [Stmt.items, Expr.items_scanQuietly, round, Item.scansQuietly, result, plain, mark]

theorem Stmt.allItems_scanQuietly : (list : List Stmt) → (n : Nat) →
    (Stmt.allItems n list).all Item.scansQuietly = true
  | [], _ => rfl
  | s :: rest, n => by
    simp [Stmt.allItems, s.items_scanQuietly, Stmt.allItems_scanQuietly rest]

end

theorem Program.irItems_scanQuietly (program : Program) (vars : Variables) :
    (program.irItems vars).all Item.scansQuietly = true := by
  simp [Program.irItems, Program.entryItems, Stmt.allItems_scanQuietly, scratchCells, variableCell,
    Item.scansQuietly, result, plain]

/-- The intermediate code of a program does not break on any console. -/
theorem Program.ir_unbroken {program : Program} {vars : Variables} {code : Ir.Code}
    (ready : program.Ready vars) (real : code.Realizes (program.irItems vars)) {console : Console}
    {k : Nat} {last : Ir.MachineState}
    (runs : Runs (Ir.Advances code) k { console } last) : ¬Ir.Breaks code last := by
  intro broken
  have quiet := real.scansIntoCells (program.irItems_scanQuietly vars)
  obtain ⟨inputs, again⟩ := (Ir.replays quiet).runs runs broken []
  obtain ⟨final, more, ended⟩ := again { console := scripted inputs [] }
    ⟨rfl, rfl, fun _ => rfl, fun _ => rfl⟩
  have imitates := Program.ir_imitates ready real inputs (3 * k + 3)
  refine (imitates.owing_less (by omega)).avoids Ir.Advances.unique Ir.Breaks.halts ?_ ?_ more ended
  · rintro value after last ⟨-, at_⟩
    exact (real.returns at_).unbroken ⟨by simp, by simp⟩
  · rintro stop after last ⟨-, fault, cause, ends⟩
    refine ends.unbroken ⟨by simp, fun other same => ?_⟩
    cases same
    rw [cause]
    decide

/-- Runs an artefact on the machine for its target. -/
def Target.execute : Target → (code : Bytes) → (limit fuel : Nat) → Console → Option Machine.Run
  | .llvm => Ir.run
  | .jvm => ClassFile.run

/-- Names that an artefact can hold: a comment in intermediate code is one line, and a constant in
a class file has at most 65535 bytes. -/
def Target.CanHold (options : CompileOptions) (file : SourceFile) : Target → Prop
  | .llvm => 10 ∉ Path.base file.path
  | .jvm => (ClassFile.ModifiedUtf8.encode (options.classOptions file).name).length ≤ 65535 ∧
      (ClassFile.ModifiedUtf8.encode (options.classOptions file).sourceFile).length ≤ 65535

/-- Every artefact can be run: a run of the code that was compiled for a file, on any console and
with any limit, does not end because the artefact is malformed or not supported, if it can hold the
names that were put into it. -/
theorem artefacts_are_sound (sources : SourceSet) (file : SourceFile) {options : CompileOptions}
    {target : Target} (chosen : options.target = some target)
    (nonnegative : 0 ≤ options.maxDiagnostics) (named : target.CanHold options file) {code : Bytes}
    (yields : (compile sources file options false).Yields code) {limit fuel : Nat}
    {console : Console} {run : Machine.Run}
    (ran : target.execute code limit fuel console = some run) : run.Sound := by
  obtain ⟨-, emitted⟩ := (compile_yields_iff sources chosen nonnegative code).mp yields
  dsimp only at emitted
  by_contra unsound
  cases target with
  | llvm =>
    rw [Program.emit, file.emitAs_ir _ _ rfl] at emitted
    obtain ⟨text, defined⟩ := Prod.mk.inj emitted
    cases text
    have ready := @SourceFile.program_ready file _ _ _ rfl rfl defined
    have readable := file.ir_readable _ rfl rfl defined
    rw [Target.execute, Ir.run_rendered readable _ named] at ran
    obtain ⟨k, last, runs, broken⟩ := Ir.runFrom_breaks ran unsound
    exact Program.ir_unbroken ready (readable.realizes _ _) runs broken
  | jvm =>
    have lowerable := Program.parse_lowerable { maxErrors := options.maxDiagnostics.toNat } file.tokens
    rw [Program.emit, Program.emitAs_class_iff] at emitted
    obtain ⟨loaded, labels, loads, real, slots⟩ :=
      Program.class_loads lowerable named.1 named.2 (congrArg Prod.fst emitted)
    rw [Target.execute, ClassFile.run_loaded loads, slots] at ran
    obtain ⟨k, last, runs, broken⟩ := ClassFile.runFrom_breaks ran unsound
    exact Program.class_unbroken lowerable real runs broken

/-- A program that divides by an input runs on every console. -/
theorem quotient_is_sound :
    let file := SourceFile.make 0 "quotient.mini" "print 6 / read;" {}
    ∃ code, (compile {} file { target := some .llvm } false).Yields code ∧
      ∀ limit fuel console run, Target.llvm.execute code limit fuel console = some run →
        run.Sound := by
  intro file
  have clean : (Program.parse {} file.tokens).reports = [] := by decide +kernel
  have emitted := file.emitAs_ir {} (Variables.ofProgram (Program.parse {} file.tokens).program)
    rfl { target := some .llvm } (Path.base file.path)
    (some fun span => (file.position span.start).line.toNat)
  rw [Program.undefinedReports_nil (by decide +kernel)] at emitted
  have oneLine : 10 ∉ Path.base file.path := by decide +kernel
  have yields := (@compile_yields_iff {} file { target := some .llvm } .llvm rfl (by decide) _).mpr
    ⟨clean, emitted⟩
  exact ⟨_, yields, fun limit fuel console run ran =>
    @artefacts_are_sound {} file { target := some .llvm } .llvm rfl (by decide) oneLine _ yields limit
      fuel console run ran⟩

end Minilang
