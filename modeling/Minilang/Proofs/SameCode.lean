import Minilang.Proofs.FileNumbers
import Minilang.Proofs.IrLowering
import Minilang.Proofs.SizeLimits

/-! What a file compiles to depends on its content, its base name, the target, the dialect and the
class name, and on nothing else: trees that differ in their file only have the same code, and a
compilation succeeds exactly when neither parsing nor lowering has anything to report. -/

namespace Minilang

section inFile

variable (file : UInt32)

theorem Expr.isAbsent_inFile (e : Expr) : (e.inFile file).isAbsent = e.isAbsent := by
  cases e <;> rfl

@[simp] theorem Expr.made_inFile (e : Expr) : (e.inFile file).made = e.made := by
  induction e with
  | absent | hollow | unknown | intLit | varRef | read => rfl
  | paren site inner ih => exact ih
  | unary site op operand ih => simp only [Expr.inFile, Expr.made, ih]
  | binary site form op left right leftIh rightIh =>
    simp only [Expr.inFile, Expr.made, leftIh, rightIh]

@[simp] theorem Expr.operand_inFile (e : Expr) (n : Nat) :
    (e.inFile file).operand n = e.operand n := by
  induction e with
  | absent | hollow | unknown | intLit | varRef | read => rfl
  | paren site inner ih => exact ih
  | unary site op operand ih =>
    cases op with
    | plus => exact ih
    | _ => simp [Expr.inFile, Expr.operand, Expr.made]
  | binary site form op left right => simp [Expr.inFile, Expr.operand, Expr.made]

@[simp] theorem Expr.stepOperand_inFile (step : Expr) (n : Nat) :
    (step.inFile file).stepOperand n = step.stepOperand n := by
  simp only [Expr.stepOperand, Expr.isAbsent_inFile, Expr.operand_inFile]

@[simp] theorem Expr.cells_inFile (e : Expr) (n : Nat) : (e.inFile file).cells n = e.cells n := by
  induction e generalizing n with
  | absent | hollow | unknown | intLit | varRef | read => rfl
  | paren site inner ih => exact ih n
  | unary site op operand ih => exact ih n
  | binary site form op left right leftIh rightIh =>
    simp only [Expr.inFile, Expr.cells, leftIh, rightIh, Expr.made_inFile]

@[simp] theorem Expr.items_inFile (e : Expr) (n : Nat) : (e.inFile file).items n = e.items n := by
  induction e generalizing n with
  | absent | hollow | unknown | intLit | varRef | read => rfl
  | paren site inner ih => exact ih n
  | unary site op operand ih =>
    simp only [Expr.inFile, Expr.items, ih, Expr.made_inFile, Expr.operand_inFile]
  | binary site form op left right leftIh rightIh =>
    simp only [Expr.inFile, Expr.items, leftIh, rightIh, Expr.made_inFile, Expr.operand_inFile]

mutual

@[simp] theorem Stmt.made_inFile : (s : Stmt) → (s.inFile file).made = s.made
  | .absent | .hollow .. | .unknown _ | .read .. => rfl
  | .assign .. | .print .. => by simp [Stmt.inFile, Stmt.made]
  | .ifElse _ _ thenBody elseBody _ => by
    simp [Stmt.inFile, Stmt.made, Stmt.allMade_inFile thenBody, Stmt.allMade_inFile elseBody]
  | .whileLoop _ _ body => by simp [Stmt.inFile, Stmt.made, Stmt.allMade_inFile body]
  | .forLoop _ _ _ _ _ _ body => by simp [Stmt.inFile, Stmt.made, Stmt.allMade_inFile body]

@[simp] theorem Stmt.allMade_inFile : (body : List Stmt) →
    Stmt.allMade (Stmt.allInFile file body) = Stmt.allMade body
  | [] => rfl
  | s :: rest => by simp [Stmt.allInFile, Stmt.allMade, Stmt.made_inFile s, Stmt.allMade_inFile rest]

end

mutual

theorem Stmt.cells_inFile : (s : Stmt) → (n : Nat) → (s.inFile file).cells n = s.cells n
  | .absent, _ | .hollow .., _ | .unknown _, _ | .read .., _ => rfl
  | .assign .., _ | .print .., _ => by simp [Stmt.inFile, Stmt.cells]
  | .ifElse _ _ thenBody elseBody _, _ => by
    simp [Stmt.inFile, Stmt.cells, Stmt.allCells_inFile thenBody, Stmt.allCells_inFile elseBody]
  | .whileLoop _ _ body, _ => by simp [Stmt.inFile, Stmt.cells, Stmt.allCells_inFile body]
  | .forLoop _ _ _ _ _ _ body, _ => by simp [Stmt.inFile, Stmt.cells, Stmt.allCells_inFile body]

theorem Stmt.allCells_inFile : (body : List Stmt) → (n : Nat) →
    Stmt.allCells n (Stmt.allInFile file body) = Stmt.allCells n body
  | [], _ => rfl
  | s :: rest, n => by
    simp [Stmt.allInFile, Stmt.allCells, Stmt.cells_inFile s, Stmt.allCells_inFile rest]

end

mutual

theorem Stmt.items_inFile : (s : Stmt) → (n : Nat) → (s.inFile file).items n = s.items n
  | .absent, _ | .hollow .., _ | .unknown _, _ | .read .., _ => rfl
  | .assign .., _ | .print .., _ => by simp [Stmt.inFile, Stmt.items]
  | .ifElse _ _ thenBody elseBody _, _ => by
    simp [Stmt.inFile, Stmt.items, Stmt.allItems_inFile thenBody, Stmt.allItems_inFile elseBody]
  | .whileLoop _ _ body, _ => by simp [Stmt.inFile, Stmt.items, Stmt.allItems_inFile body]
  | .forLoop _ _ _ _ _ _ body, _ => by simp [Stmt.inFile, Stmt.items, Stmt.allItems_inFile body]

theorem Stmt.allItems_inFile : (body : List Stmt) → (n : Nat) →
    Stmt.allItems n (Stmt.allInFile file body) = Stmt.allItems n body
  | [], _ => rfl
  | s :: rest, n => by
    simp [Stmt.allInFile, Stmt.allItems, Stmt.items_inFile s, Stmt.allItems_inFile rest]

end

def Node.inFile : Node → Node
  | .expr e => .expr (e.inFile file)
  | .stmt s => .stmt (s.inFile file)

theorem Expr.walk_inFile (e : Expr) : (e.inFile file).walk (fun _ => true) =
    (e.walk fun _ => true).map (Node.inFile file) := by
  induction e with
  | absent | hollow | unknown | intLit | varRef | read => rfl
  | paren site inner ih => simpa [Expr.inFile, Expr.walk, Node.inFile] using ih
  | unary site op operand ih => simpa [Expr.inFile, Expr.walk, Node.inFile] using ih
  | binary site form op left right leftIh rightIh =>
    simp [Expr.inFile, Expr.walk, Node.inFile, leftIh, rightIh]

mutual

theorem Stmt.walk_inFile : (s : Stmt) → (s.inFile file).walk (fun _ => true) =
    (s.walk fun _ => true).map (Node.inFile file)
  | .absent | .hollow .. | .unknown _ | .read .. => rfl
  | .assign .. | .print .. => by simp [Stmt.inFile, Stmt.walk, Node.inFile, Expr.walk_inFile]
  | .ifElse _ _ thenBody elseBody _ => by
    simp [Stmt.inFile, Stmt.walk, Node.inFile, Expr.walk_inFile, Stmt.walkAll_inFile thenBody,
      Stmt.walkAll_inFile elseBody]
  | .whileLoop _ _ body => by
    simp [Stmt.inFile, Stmt.walk, Node.inFile, Expr.walk_inFile, Stmt.walkAll_inFile body]
  | .forLoop _ _ _ _ _ _ body => by
    simp [Stmt.inFile, Stmt.walk, Node.inFile, Expr.walk_inFile, Stmt.walkAll_inFile body]

theorem Stmt.walkAll_inFile : (body : List Stmt) →
    Stmt.walkAll (fun _ => true) (Stmt.allInFile file body) =
      (Stmt.walkAll (fun _ => true) body).map (Node.inFile file)
  | [] => rfl
  | s :: rest => by
    simp [Stmt.allInFile, Stmt.walkAll, Stmt.walk_inFile s, Stmt.walkAll_inFile rest]

end

def Variables.inFile (vars : Variables) : Variables :=
  { vars with spans := vars.spans.map (Span.inFile file) }

theorem Variables.add_inFile (vars : Variables) (name : Bytes) (span : Span) :
    (vars.inFile file).add name (span.inFile file) = (vars.add name span).inFile file := by
  have known : (vars.inFile file).has name = vars.has name := rfl
  rw [Variables.add, Variables.add, known]
  split
  · rfl
  · simp [Variables.inFile]

theorem Variables.addNode_inFile (vars : Variables) (node : Node) :
    (vars.inFile file).addNode (node.inFile file) = (vars.addNode node).inFile file := by
  cases node with
  | expr e => rfl
  | stmt s =>
    cases s with
    | assign | read | forLoop => exact Variables.add_inFile file vars _ _
    | absent | hollow | unknown | print | ifElse | whileLoop => rfl

variable {file} {program mirror : Program} (moved : mirror.stmts = Stmt.allInFile file program.stmts)
include moved

theorem Program.nodes_inFile : mirror.nodes = program.nodes.map (Node.inFile file) := by
  rw [Program.nodes, moved]
  exact Stmt.walkAll_inFile file program.stmts

theorem Variables.ofProgram_inFile :
    Variables.ofProgram mirror = (Variables.ofProgram program).inFile file := by
  have folded : ∀ (nodes : List Node) (vars : Variables),
      (nodes.map (Node.inFile file)).foldl addNode (vars.inFile file) =
        (nodes.foldl addNode vars).inFile file := by
    intro nodes
    induction nodes with
    | nil => exact fun _ => rfl
    | cons node rest ih =>
      intro vars
      rw [List.map_cons, List.foldl_cons, List.foldl_cons, Variables.addNode_inFile, ih]
  have empty : ({} : Variables).inFile file = {} := by simp [Variables.inFile]
  have all := folded program.nodes {}
  rw [empty] at all
  rw [Variables.ofProgram, Program.nodes_inFile moved, all]
  rfl

theorem Program.irItems_inFile (vars : Variables) :
    mirror.irItems (vars.inFile file) = program.irItems vars := by
  rw [Program.irItems, Program.irItems, Program.entryItems, Program.entryItems, moved,
    Stmt.allCells_inFile, Stmt.allItems_inFile]
  rfl

theorem Program.undefinedReports_inFile (vars : Variables) :
    mirror.undefinedReports (vars.inFile file) = [] ↔ program.undefinedReports vars = [] := by
  have same : ∀ node : Node, (node.inFile file).undefined? (vars.inFile file) = none ↔
      node.undefined? vars = none := by
    intro node
    cases node with
    | stmt s => rfl
    | expr e =>
      cases e with
      | varRef site name =>
        have known : (vars.inFile file).has name = vars.has name := rfl
        simp [Node.inFile, Expr.inFile, Node.undefined?, known]
      | _ => rfl
  rw [Program.undefinedReports_eq, Program.undefinedReports_eq, Program.nodes_inFile moved,
    List.filterMap_eq_nil_iff, List.filterMap_eq_nil_iff, List.forall_mem_map]
  simp only [same]

end inFile

def Diagnostic.inFile (file : UInt32) (d : Diagnostic) : Diagnostic :=
  { d with span := d.span.inFile file }

namespace ClassFile

def LowerState.inFile (file : UInt32) (state : LowerState) : LowerState :=
  { state with reports := state.reports.map (Diagnostic.inFile file) }

namespace Lower

variable {file : UInt32} {α β : Type}

/-- A lowering that does the same as another, but for the file of its reports. -/
def Mirrors (file : UInt32) (lowering copy : Lower α) : Prop :=
  ∀ state : LowerState, copy.run.run (state.inFile file) =
    ((lowering.run.run state).1, (lowering.run.run state).2.inFile file)

theorem mirrors_pure (value : α) : Mirrors file (pure value) (pure value) := fun _ => rfl

theorem mirrors_throw (fault : LoweringFault) :
    Mirrors file (throw fault : Lower α) (throw fault) := fun _ => rfl

theorem mirrors_emit (step : Step) : Mirrors file (emit step) (emit step) := fun _ => rfl

theorem mirrors_fresh : Mirrors file fresh fresh := fun _ => rfl

theorem mirrors_report (d : Diagnostic) :
    Mirrors file (report d) (report (d.inFile file)) := by
  intro state
  change (Except.ok (), { state.inFile file with
    reports := (state.inFile file).reports.push (d.inFile file) }) =
    (Except.ok (), LowerState.inFile file { state with reports := state.reports.push d })
  simp [LowerState.inFile]

theorem Mirrors.bind {lowering copy : Lower α} {next following : α → Lower β}
    (first : Mirrors file lowering copy) (rest : ∀ value, Mirrors file (next value) (following value)) :
    Mirrors file (lowering >>= next) (copy >>= following) := by
  intro state
  rw [run_bind, run_bind, first state]
  rcases lowering.run.run state with ⟨_ | value, after⟩
  · rfl
  · exact rest value after

theorem mirrors_slot (vars : Variables) (name : Bytes) :
    Mirrors file (slot vars name) (slot (vars.inFile file) name) := by
  have same : (vars.inFile file).index? name = vars.index? name := rfl
  rw [slot, slot, same]
  split
  · exact mirrors_pure _
  · exact mirrors_throw _

theorem mirrors_read : Mirrors file read read := (mirrors_emit _).bind fun _ => mirrors_emit _

theorem mirrors_truth (branch : Opcode) : Mirrors file (truth branch) (truth branch) :=
  mirrors_fresh.bind fun _ => mirrors_fresh.bind fun _ => (mirrors_emit _).bind fun _ =>
    (mirrors_emit _).bind fun _ => (mirrors_emit _).bind fun _ => (mirrors_emit _).bind fun _ =>
    (mirrors_emit _).bind fun _ => mirrors_emit _

end Lower

end ClassFile

open ClassFile Lower

variable {file : UInt32}

theorem Expr.toSteps_mirrors (vars : Variables) (e : Expr) :
    Mirrors file (e.toSteps vars) ((e.inFile file).toSteps (vars.inFile file)) := by
  induction e with
  | absent | hollow | unknown => exact mirrors_throw _
  | intLit site text value => exact mirrors_emit _
  | varRef site name =>
    have known : (vars.inFile file).has name = vars.has name := rfl
    rw [Expr.inFile, Expr.toSteps, Expr.toSteps, known]
    split
    · exact (mirrors_slot vars name).bind fun _ => mirrors_emit _
    · exact (mirrors_report _).bind fun _ => mirrors_emit _
  | paren site inner ih => exact ih
  | read site => exact mirrors_read
  | unary site op operand ih =>
    refine ih.bind fun _ => ?_
    cases op with
    | plus => exact mirrors_pure _
    | neg => exact mirrors_emit _
    | not => exact mirrors_truth _
    | _ => exact mirrors_throw _
  | binary site form op left right leftIh rightIh =>
    cases form with
    | additive | multiplicative =>
      refine leftIh.bind fun _ => rightIh.bind fun _ => ?_
      cases arithmetic? op with
      | some code => exact mirrors_emit _
      | none => exact mirrors_throw _
    | comparison =>
      refine leftIh.bind fun _ => rightIh.bind fun _ => ?_
      cases condition? op with
      | some cond => exact mirrors_truth _
      | none => exact mirrors_throw _
    | logicalAnd | logicalOr =>
      exact mirrors_fresh.bind fun _ => leftIh.bind fun _ => (mirrors_emit _).bind fun _ =>
        (mirrors_emit _).bind fun _ => (mirrors_emit _).bind fun _ => rightIh.bind fun _ =>
        mirrors_emit _

/-- Lines that do not depend on the file of a span. -/
def SameLines (file : UInt32) (lineOf other : Option (Span → Nat)) : Prop :=
  match lineOf, other with
  | some line, some place => ∀ span : Span, place (span.inFile file) = line span
  | none, none => True
  | _, _ => False

theorem emitLine_mirrors {lineOf other : Option (Span → Nat)} (lines : SameLines file lineOf other)
    (site : Site) : Mirrors file (Stmt.toSteps.emitLine lineOf site)
      (Stmt.toSteps.emitLine other (site.inFile file)) := by
  cases lineOf with
  | none =>
    cases other with
    | none => exact mirrors_pure _
    | some place => exact lines.elim
  | some line =>
    cases other with
    | none => exact lines.elim
    | some place =>
      have same := lines site.span
      simp only [Stmt.toSteps.emitLine, Site.inFile, same]
      exact mirrors_emit _

mutual

theorem Stmt.toSteps_mirrors (vars : Variables) {lineOf other : Option (Span → Nat)}
    (lines : SameLines file lineOf other) : (s : Stmt) →
      Mirrors file (s.toSteps vars lineOf) ((s.inFile file).toSteps (vars.inFile file) other)
  | .absent | .hollow .. | .unknown _ => by
    simp only [Stmt.inFile, Stmt.toSteps]
    exact mirrors_throw _
  | .assign site name span value => by
    simp only [Stmt.inFile, Stmt.toSteps]
    exact (emitLine_mirrors lines site).bind fun _ => (value.toSteps_mirrors vars).bind fun _ =>
      (mirrors_slot vars name).bind fun _ => mirrors_emit _
  | .read site name span => by
    simp only [Stmt.inFile, Stmt.toSteps]
    exact (emitLine_mirrors lines site).bind fun _ => mirrors_read.bind fun _ =>
      (mirrors_slot vars name).bind fun _ => mirrors_emit _
  | .print site value => by
    simp only [Stmt.inFile, Stmt.toSteps]
    exact (emitLine_mirrors lines site).bind fun _ => (mirrors_emit _).bind fun _ =>
      (value.toSteps_mirrors vars).bind fun _ => mirrors_emit _
  | .ifElse site cond thenBody elseBody hasElse => by
    simp only [Stmt.inFile, Stmt.toSteps]
    refine (emitLine_mirrors lines site).bind fun _ => mirrors_fresh.bind fun done => ?_
    cases hasElse with
    | true =>
      exact mirrors_fresh.bind fun _ => (cond.toSteps_mirrors vars).bind fun _ =>
        (mirrors_emit _).bind fun _ => (Stmt.allToSteps_mirrors vars lines thenBody).bind fun _ =>
        (mirrors_emit _).bind fun _ => (mirrors_emit _).bind fun _ =>
        (Stmt.allToSteps_mirrors vars lines elseBody).bind fun _ => mirrors_emit _
    | false =>
      exact (mirrors_pure _).bind fun _ => (cond.toSteps_mirrors vars).bind fun _ =>
        (mirrors_emit _).bind fun _ => (Stmt.allToSteps_mirrors vars lines thenBody).bind fun _ =>
        mirrors_emit _
  | .whileLoop site cond body => by
    simp only [Stmt.inFile, Stmt.toSteps]
    exact (emitLine_mirrors lines site).bind fun _ => mirrors_fresh.bind fun _ =>
      mirrors_fresh.bind fun _ => (mirrors_emit _).bind fun _ =>
      (cond.toSteps_mirrors vars).bind fun _ => (mirrors_emit _).bind fun _ =>
      (Stmt.allToSteps_mirrors vars lines body).bind fun _ => (mirrors_emit _).bind fun _ =>
      mirrors_emit _
  | .forLoop site name span start stop step body => by
    have rest := Stmt.allToSteps_mirrors vars lines body
    have stride := @Expr.toSteps_mirrors file vars step
    simp only [Stmt.inFile, Stmt.toSteps, Expr.isAbsent_inFile]
    refine (emitLine_mirrors lines site).bind fun _ => (mirrors_slot vars name).bind fun slot => ?_
    refine mirrors_fresh.bind fun again => mirrors_fresh.bind fun done => ?_
    refine (start.toSteps_mirrors vars).bind fun _ => (mirrors_emit _).bind fun _ => ?_
    refine (mirrors_emit _).bind fun _ => (stop.toSteps_mirrors vars).bind fun _ => ?_
    have finish : ∀ _ : PUnit, Mirrors file _ _ := fun _ =>
      (mirrors_emit (.insn .swap)).bind fun _ => (mirrors_emit (.insn .dup2X1)).bind fun _ =>
      (mirrors_emit (.insn .pop2)).bind fun _ => (mirrors_emit (.mark again)).bind fun _ =>
      (mirrors_emit (.insn .swap)).bind fun _ => (mirrors_emit (.insn .dupX1)).bind fun _ =>
      (mirrors_emit (.jump (.ifInts .gt) done)).bind fun _ => rest.bind fun _ =>
      (mirrors_emit (.insn .swap)).bind fun _ => (mirrors_emit (.insn .dupX1)).bind fun _ =>
      (mirrors_emit (.localVar .iload slot)).bind fun _ => (mirrors_emit (.insn .iadd)).bind fun _ =>
      (mirrors_emit (.insn .dup)).bind fun _ => (mirrors_emit (.localVar .istore slot)).bind fun _ =>
      (mirrors_emit (.jump .goto again)).bind fun _ => (mirrors_emit (.mark done)).bind fun _ =>
      mirrors_emit (.insn .pop2)
    split
    · exact (mirrors_emit _).bind finish
    · exact stride.bind finish

theorem Stmt.allToSteps_mirrors (vars : Variables) {lineOf other : Option (Span → Nat)}
    (lines : SameLines file lineOf other) : (body : List Stmt) →
      Mirrors file (Stmt.allToSteps vars lineOf body)
        (Stmt.allToSteps (vars.inFile file) other (Stmt.allInFile file body))
  | [] => mirrors_pure _
  | s :: rest => by
    simp only [Stmt.allInFile, Stmt.allToSteps]
    exact (s.toSteps_mirrors vars lines).bind fun _ => Stmt.allToSteps_mirrors vars lines rest

end

private theorem zeroes_mirrors (from_ count : Nat) :
    Mirrors file (forIn (List.range' from_ count) PUnit.unit fun (i : Nat) _ => do
      Lower.push 0
      Lower.emit (.localVar .istore (i + 1))
      pure (ForInStep.yield PUnit.unit)) (forIn (List.range' from_ count) PUnit.unit fun (i : Nat) _ => do
      Lower.push 0
      Lower.emit (.localVar .istore (i + 1))
      pure (ForInStep.yield PUnit.unit)) := by
  induction count generalizing from_ with
  | zero => exact mirrors_pure _
  | succ count ih =>
    rw [List.range'_succ, List.forIn_cons]
    refine Mirrors.bind ((mirrors_emit _).bind fun _ => (mirrors_emit _).bind fun _ => mirrors_pure _)
      fun done => ?_
    cases done with
    | done _ => exact mirrors_pure _
    | yield _ => exact ih (from_ + 1)

theorem prologue_mirrors (vars : Variables) :
    Mirrors file (prologue vars) (prologue (vars.inFile file)) := by
  have size : (vars.inFile file).size = vars.size := rfl
  rw [prologue, prologue, size, Std.Legacy.Range.forIn_eq_forIn_range']
  refine (mirrors_emit _).bind fun _ => (mirrors_emit _).bind fun _ => (mirrors_emit _).bind fun _ =>
    (mirrors_emit _).bind fun _ => (mirrors_emit _).bind fun _ => ?_
  split
  · exact (mirrors_throw _).bind fun _ => (zeroes_mirrors _ _).bind fun _ => mirrors_pure _
  · exact (zeroes_mirrors _ _).bind fun _ => mirrors_pure _

section

variable {program mirror : Program} (moved : mirror.stmts = Stmt.allInFile file program.stmts)
  (vars : Variables) {lineOf other : Option (Span → Nat)} (lines : SameLines file lineOf other)
include moved lines

theorem Program.toSteps_inFile : mirror.toSteps (vars.inFile file) other =
    ((program.toSteps vars lineOf).1, (program.toSteps vars lineOf).2.map (Diagnostic.inFile file)) := by
  have all : Mirrors file (do
      prologue vars
      Stmt.allToSteps vars lineOf program.stmts
      Lower.insn .ret) (do
      prologue (vars.inFile file)
      Stmt.allToSteps (vars.inFile file) other (Stmt.allInFile file program.stmts)
      Lower.insn .ret) :=
    (prologue_mirrors vars).bind fun _ => (Stmt.allToSteps_mirrors vars lines program.stmts).bind
      fun _ => mirrors_emit _
  have start : ({} : LowerState).inFile file = {} := by simp [LowerState.inFile]
  have ran := all {}
  rw [start] at ran
  rw [Program.toSteps, moved, ran, Program.toSteps]
  simp only [LowerState.inFile, Array.toList_map, Prod.mk.injEq]
  exact ⟨rfl, rfl⟩

/-- A tree in another file has the same class, unless there is something to report. -/
theorem Program.toClass_inFile (className sourceFile code : Bytes) :
    mirror.toClass (vars.inFile file) { className, sourceFile, lineOf := other } = (.ok code, []) ↔
      program.toClass vars { className, sourceFile, lineOf } = (.ok code, []) := by
  have copied := Program.toSteps_inFile moved vars lines
  rcases lowered : program.toSteps vars lineOf with ⟨outcome, reports⟩
  rw [lowered] at copied
  simp only [Program.toClass, lowered, copied]
  cases outcome with
  | error fault => simp
  | ok steps =>
    simp only
    cases (Method.make 0x9 "main" mainDescriptor [mainArgument]).steps {} steps with
    | error fault => simp
    | ok made =>
      simp only [ClassOptions.name]
      split
      · simp
      · split <;> simp

end

/-- A compilation has an artefact with the given code. -/
def Traced.Yields (made : Traced Compilation) (code : Bytes) : Prop :=
  ∃ result, made.outcome = .ok result ∧ result.isOk = true ∧ result.code = some code

/-- Beside code there are only reports of errors. -/
theorem Program.Lowerable.emit_reports {program : Program} {vars : Variables}
    (lowerable : program.Lowerable vars) {options : CompileOptions} {target : Target}
    {file : SourceFile} {code : Bytes} {reports : List Diagnostic}
    (emitted : program.emit vars options target file = (.ok code, reports)) :
    ∀ d ∈ reports, d.severity = .error := by
  have undefined : ∀ {reports : List Diagnostic}, (∀ d ∈ reports, ∃ span name,
      d = undefinedReport span name) → ∀ d ∈ reports, d.severity = .error := by
    intro reports known d member
    obtain ⟨span, name, rfl⟩ := known d member
    rfl
  cases target with
  | llvm =>
    rw [Program.emit, Program.emitAs, Program.toIr_eq vars lowerable.proper] at emitted
    cases emitted
    refine undefined fun d member => ?_
    rw [Program.undefinedReports_eq] at member
    obtain ⟨node, -, found⟩ := List.mem_filterMap.mp member
    unfold Node.undefined? at found
    split at found
    · split at found
      · cases found
      · exact ⟨_, _, (Option.some.inj found).symm⟩
    · cases found
  | jvm =>
    rcases Nat.lt_or_ge 65535 vars.size with many | few
    · have refused := @Program.emit_many program vars options file many
      rw [emitted] at refused
      cases refused
    · obtain ⟨found, known, ⟨-, bytes, made⟩ | ⟨-, fault, message, made⟩⟩ :=
        lowerable.toClass_cases few (options.classOptions file)
      · rw [Program.emit_class made] at emitted
        cases emitted
        exact undefined known
      · rw [Program.emit_refused made] at emitted
        cases emitted

/-- A compilation has code exactly when neither parsing nor lowering reports anything. -/
theorem compile_yields_iff (sources : SourceSet) {file : SourceFile} {options : CompileOptions}
    {target : Target} (chosen : options.target = some target)
    (nonnegative : 0 ≤ options.maxDiagnostics) (code : Bytes) :
    (compile sources file options false).Yields code ↔
      (Program.parse { maxErrors := options.maxDiagnostics.toNat } file.tokens).reports = [] ∧
      let program := (Program.parse { maxErrors := options.maxDiagnostics.toNat } file.tokens).program
      program.emit (Variables.ofProgram program) options target file = (.ok code, []) := by
  have lowerable := Program.parse_lowerable { maxErrors := options.maxDiagnostics.toNat } file.tokens
  have front := fun d => @SourceFile.parse_reports file
    { maxErrors := options.maxDiagnostics.toNat } d
  have into : parseInto options.maxDiagnostics file =
    ((Program.parse { maxErrors := options.maxDiagnostics.toNat } file.tokens).program,
      (DistinctBag.ofLimit options.maxDiagnostics).addAll
        (Program.parse { maxErrors := options.maxDiagnostics.toNat } file.tokens).reports) := rfl
  generalize Program.parse { maxErrors := options.maxDiagnostics.toNat } file.tokens = parsed at *
  have errors := DistinctBag.hasErrors_iff options.maxDiagnostics fun d member => (front d member).1
  by_cases clean : parsed.reports = []
  · have quiet : ((DistinctBag.ofLimit options.maxDiagnostics).addAll parsed.reports).bag.hasErrors =
        false := Bool.eq_false_iff.mpr fun wrong => errors.mp wrong clean
    rw [clean] at into quiet
    simp only [clean, true_and]
    rcases emitted : parsed.program.emit (Variables.ofProgram parsed.program) options target file with
      ⟨outcome, reports⟩
    cases outcome with
    | ok bytes =>
      have made := compile_generated sources chosen nonnegative into quiet emitted
      have found := DistinctBag.hasErrors_iff options.maxDiagnostics (lowerable.emit_reports emitted)
      constructor
      · rintro ⟨result, same, -, some_⟩
        rw [made] at same
        cases same
        cases reports with
        | nil =>
          change (if ((DistinctBag.ofLimit options.maxDiagnostics).addAll []).bag.hasErrors
            then none else some bytes) = some code at some_
          rw [if_neg (by simp [quiet])] at some_
          cases some_
          rfl
        | cons d rest =>
          have wrong := found.mpr (List.cons_ne_nil d rest)
          change (if ((DistinctBag.ofLimit options.maxDiagnostics).addAll (d :: rest)).bag.hasErrors
            then none else some bytes) = some code at some_
          rw [if_pos wrong] at some_
          cases some_
      · intro same
        cases same
        have kept : (if ((DistinctBag.ofLimit options.maxDiagnostics).addAll []).bag.hasErrors
          then none else some code) = some code := if_neg (by simp [quiet])
        refine ⟨_, made, ?_, kept⟩
        simp only [Compilation.isOk, Bag.hasErrors_sort, Bool.and_eq_true, Bool.not_eq_true']
        exact ⟨congrArg Option.isSome kept, quiet⟩
    | error fault =>
      refine iff_of_false ?_ nofun
      rintro ⟨result, same, -, some_⟩
      simp only [compile, chosen, if_neg (Int.not_lt.mpr nonnegative), into, quiet,
        Bool.false_eq_true, if_false, emitted] at same
      split at same
      · cases same
      · cases same
      · cases same
        simp only [Except.toOption, ite_self] at some_
        cases some_
  · have dirty := errors.mpr clean
    have made := compile_refused sources chosen nonnegative into dirty
    refine iff_of_false ?_ fun wrong => clean wrong.1
    rintro ⟨result, same, ok, some_⟩
    rw [made] at same
    cases same
    cases some_

/-- What the code of a file depends on. -/
structure SameInput (file other : SourceFile) (options choices : CompileOptions) : Prop where
  content : other.content = file.content
  base : Path.base other.path = Path.base file.path
  target : choices.target = options.target
  dialect : choices.dialect = options.dialect
  className : choices.className = options.className

/-- A file that was put together from its content. -/
def SourceFile.IsMade (file : SourceFile) : Prop :=
  file.size = file.content.length ∧ file.starts = SourceFile.lineStarts file.content

theorem SourceFile.make_isMade (id : UInt32) (path content : Bytes) (flags : FileFlags) :
    (SourceFile.make id path content flags).IsMade := ⟨rfl, rfl⟩

theorem Program.emitAs_class_iff (program : Program) (vars : Variables) (options : CompileOptions)
    (sourceName : Bytes) (lineOf : Option (Span → Nat)) (code : Bytes) :
    program.emitAs vars options .jvm sourceName lineOf = (.ok code, []) ↔
      program.toClass vars { className := options.className, sourceFile := sourceName, lineOf } =
        (.ok code, []) := by
  simp only [Program.emitAs]
  rcases program.toClass vars { className := options.className, sourceFile := sourceName, lineOf } with
    ⟨outcome, reports⟩
  cases outcome with
  | ok bytes => simp
  | error fault => cases fault <;> simp

theorem Program.emit_inFile {file other : SourceFile} {options choices : CompileOptions}
    (same : SameInput file other options choices) (starts : other.starts = file.starts)
    {program mirror : Program} (moved : mirror.stmts = Stmt.allInFile other.id program.stmts)
    (proper : Stmt.AllProper (fun _ => True) program.stmts)
    (fits : Stmt.AllProper (fun _ => True) mirror.stmts) (vars : Variables) (target : Target)
    (code : Bytes) :
    mirror.emit (vars.inFile other.id) choices target other = (.ok code, []) ↔
      program.emit vars options target file = (.ok code, []) := by
  have lines : SameLines other.id (some fun span => (file.position span.start).line.toNat)
      (some fun span => (other.position span.start).line.toNat) := by
    intro span
    simp only [SourceFile.position, starts]
    rfl
  cases target with
  | llvm =>
    have reports := Program.undefinedReports_inFile moved vars
    simp only [Program.emit, Program.emitAs, Program.toIr_eq _ proper, Program.toIr_eq _ fits,
      Program.irItems_inFile moved, same.dialect, same.base, Prod.mk.injEq, reports]
  | jvm =>
    rw [Program.emit, Program.emit, Program.emitAs_class_iff, Program.emitAs_class_iff,
      same.className, same.base]
    exact Program.toClass_inFile moved vars lines options.className (Path.base file.path) code

/-- Files that agree in what code depends on, down to where their lines start, have the same code. -/
theorem SameInput.yields_alike {file other : SourceFile} {options choices : CompileOptions}
    (same : SameInput file other options choices) (size : other.size = file.size)
    (starts : other.starts = file.starts) (nonnegative : 0 ≤ options.maxDiagnostics)
    (positive : 0 ≤ choices.maxDiagnostics) (sources set : SourceSet) (code : Bytes) :
    (compile set other choices false).Yields code ↔
      (compile sources file options false).Yields code := by
  cases chosen : options.target with
  | none =>
    refine iff_of_false ?_ ?_
    · rintro ⟨result, wrong, -⟩
      simp only [compile, same.target.trans chosen] at wrong
      cases wrong
    · rintro ⟨result, wrong, -⟩
      simp only [compile, chosen] at wrong
      cases wrong
  | some target =>
    rw [compile_yields_iff set (same.target.trans chosen) positive,
      compile_yields_iff sources chosen nonnegative]
    rcases SourceFile.parse_beside same.content size options.maxDiagnostics.toNat
      choices.maxDiagnostics.toNat with ⟨here, there⟩ | ⟨clean, quiet, -, moved⟩
    · exact iff_of_false (fun wrong => there wrong.1) fun wrong => here wrong.1
    · simp only [clean, quiet, true_and]
      rw [Variables.ofProgram_inFile moved]
      exact Program.emit_inFile same starts moved (Program.parse_proper _ fun _ _ _ => trivial)
        (Program.parse_proper _ fun _ _ _ => trivial) _ target code

/-- Files that agree in what code depends on have the same code. -/
theorem SameInput.yields_iff {file other : SourceFile} {options choices : CompileOptions}
    (same : SameInput file other options choices) (made : file.IsMade) (built : other.IsMade)
    (nonnegative : 0 ≤ options.maxDiagnostics) (positive : 0 ≤ choices.maxDiagnostics)
    (sources set : SourceSet) (code : Bytes) :
    (compile set other choices false).Yields code ↔
      (compile sources file options false).Yields code := by
  have size : other.size = file.size := by rw [made.1, built.1, same.content]
  have starts : other.starts = file.starts := by rw [made.2, built.2, same.content]
  exact same.yields_alike size starts nonnegative positive sources set code

end Minilang
