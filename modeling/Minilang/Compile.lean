import Minilang.ClassFile.Lower
import Minilang.Ir.Lower
import Minilang.Ir.Render
import Minilang.Source.File
import Minilang.Trace.Activity
import Minilang.Tree.Parse

/-! Compiling one file: parse, collect the variables, generate code for one target. Reports of all
phases pass one filter into one bag, and a program with errors never yields code. -/

namespace Minilang

structure CompileOptions where
  /-- The target; absent when what was asked for is none. -/
  target : Option Target
  /-- How many diagnostics are kept; zero means as many as a bag can hold. -/
  maxDiagnostics : Int := 0
  dialect : Ir.Dialect := .opaquePointers
  className : Bytes := []

/-- Failures that are not diagnostics. -/
inductive CompileFault where
  /-- The source cannot be read. -/
  | load (path reason : Bytes)
  | unsupportedTarget
  | negativeLimit
  | cancelled
  | lowering (target : Target) (fault : LoweringFault)
  | emit (fault : EmitFault)

namespace CompileFault

def message : CompileFault → Bytes
  | load path reason => "cannot read " ++ path ++ ": " ++ reason
  | unsupportedTarget => "driver: unsupported target unknown"
  | negativeLimit => "driver: max diagnostics: out of range"
  | cancelled => "context canceled"
  | lowering target fault => (fault.message? target).getD []
  | emit fault => fault.message

end CompileFault

/-- A phase of the compiler, as timers and tracers call it. -/
inductive Phase where
  | parse
  | prepass
  | codegen
  deriving DecidableEq, Repr

namespace Phase

def name : Phase → Bytes
  | parse => "parse"
  | prepass => "prepass"
  | codegen => "codegen"

/-- What a tracer sees of a phase. -/
def activity : Phase → Trace.Activity
  | parse => .span .pass parse.name [] [.span .node "parser" [] []]
  | phase => .span .pass phase.name [] []

end Phase

/-- What a compilation produced. -/
structure Compilation where
  sources : SourceSet
  file : SourceFile
  bag : Bag
  target : Option Target := none
  code : Option Bytes := none
  /-- Absent when the program has syntax errors or the code was cached. -/
  vars : Option Variables := none
  phases : List Phase := []
  cached : Bool := false

/-- Whether there is an artefact. -/
def Compilation.isOk (compilation : Compilation) : Bool :=
  compilation.code.isSome && !compilation.bag.hasErrors

/-- The outcome of a compilation, the phases it went through and what a tracer saw of it. -/
structure Traced (α : Type) where
  outcome : Except CompileFault α
  phases : List Phase := []
  activities : List Trace.Activity := []

/-- Parses a file; the reports pass a filter that keeps each once. -/
def parseInto (maxDiagnostics : Int) (file : SourceFile) : Program × DistinctBag :=
  let parsed := Program.parse { maxErrors := maxDiagnostics.toNat } file.tokens
  (parsed.program, (DistinctBag.ofLimit maxDiagnostics).addAll parsed.reports)

/-- The code of a program under a source name, and the reports made on the way. -/
def Program.emitAs (program : Program) (vars : Variables) (options : CompileOptions)
    (target : Target) (sourceName : Bytes) (lineOf : Option (Span → Nat)) :
    Except CompileFault Bytes × List Diagnostic :=
  match target with
  | .llvm =>
      let (body, reports) := program.toIr vars
      (match body with
        | .ok body => .ok (Ir.render options.dialect sourceName body)
        | .error fault => .error (.lowering .llvm fault),
        reports)
  | .jvm =>
      let (bytes, reports) := program.toClass vars
        { className := options.className, sourceFile := sourceName, lineOf }
      (match bytes with
        | .ok bytes => .ok bytes
        | .error (.lowering fault) => .error (.lowering .jvm fault)
        | .error fault => .error (.emit fault),
        reports)

/-- The code of a file's program. -/
def Program.emit (program : Program) (vars : Variables) (options : CompileOptions)
    (target : Target) (file : SourceFile) : Except CompileFault Bytes × List Diagnostic :=
  program.emitAs vars options target (Path.base file.path)
    (some fun span => (file.position span.start).line.toNat)

private def withActivities (file : SourceFile) (target : Target) (phases : List Phase) :
    List Trace.Activity :=
  [.span .unit "compile" [("file", file.path), ("target", target.name)]
    (phases.map Phase.activity)]

/-- Compiles a file of a source set. A cancelled compilation still reports syntax errors. -/
def compile (sources : SourceSet) (file : SourceFile) (options : CompileOptions)
    (cancelled : Bool) : Traced Compilation :=
  match options.target with
  | none => { outcome := .error .unsupportedTarget }
  | some target =>
      if options.maxDiagnostics < 0 then { outcome := .error .negativeLimit }
      else
        let (program, filter) := parseInto options.maxDiagnostics file
        let done := fun (outcome : Except CompileFault Compilation) phases =>
          ({ outcome, phases, activities := withActivities file target phases } :
            Traced Compilation)
        let result : Compilation :=
          { sources, file, bag := filter.bag, target := some target, phases := [.parse] }
        if filter.bag.hasErrors then
          done (.ok { result with bag := filter.bag.sort }) [.parse]
        else if cancelled then done (.error .cancelled) [.parse]
        else
          let phases := [.parse, .prepass, .codegen]
          let vars := Variables.ofProgram program
          let (code, reports) := program.emit vars options target file
          let bag := (filter.addAll reports).bag
          match code, bag.hasErrors with
          | .error (.lowering target fault), _ =>
              done (.error (.lowering target fault)) phases
          | .error fault, false => done (.error fault) phases
          | code, hasErrors =>
              let code := if hasErrors then none else code.toOption
              done (.ok { result with bag := bag.sort, vars := some vars, code, phases }) phases

/-- Parses a file and checks its references without generating code. -/
def diagnose (sources : SourceSet) (file : SourceFile) (maxDiagnostics : Int) :
    Traced Compilation :=
  if maxDiagnostics < 0 then { outcome := .error .negativeLimit }
  else
    let (program, filter) := parseInto maxDiagnostics file
    let result : Compilation := { sources, file, bag := filter.bag, phases := [.parse] }
    let result :=
      if filter.bag.hasErrors then result
      else
        let vars := Variables.ofProgram program
        let bag := (filter.addAll (program.undefinedReports vars)).bag
        { result with bag, vars := some vars, phases := [.parse, .prepass] }
    { outcome := .ok { result with bag := result.bag.sort }
      phases := result.phases
      activities := [.span .unit "diagnose" [] (result.phases.map Phase.activity)] }

end Minilang
