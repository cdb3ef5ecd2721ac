import Minilang.Command.Invocation
import Minilang.Command.Session
import Minilang.Compile
import Minilang.ClassFile.Name
import Minilang.Diagnostic.Render
import Minilang.Timing

/-! Settings that commands share, and how they report: diagnostics in the chosen format, progress
unless it is unwanted, timings when they are wanted. -/

namespace Minilang.Command

/-- How diagnostics are shown. -/
inductive ReportFormat where
  | plain
  | pretty
  | json
  deriving DecidableEq, Repr

structure Settings where
  color : Bool
  quiet : Bool
  timings : Bool
  maxDiagnostics : Int
  format : ReportFormat
  deriving Repr

/-- The first of some named choices that a word spells; case and white space around it do not
matter. -/
private def choice {α : Type} (flag : Bytes) (choices : List (Bytes × α)) (word : Bytes) :
    Except Failure α :=
  let word := Text.lower (Text.trim word)
  match choices.lookup word with
  | some value => .ok value
  | none =>
      .error (.usage ("invalid --" ++ flag ++ " value " ++ Text.quoted word ++ " (expected " ++
        Bytes.join "|" (choices.map Prod.fst) ++ ")"))

/-- Reads the settings. Output is never taken to be a terminal, so colour has to be asked for. -/
def Settings.ofGiven (given : Given) : Except Failure Settings := do
  let flags := Flag.general
  let color ← choice "color" [("auto", false), ("on", true), ("off", false)]
    (given.text flags "color")
  let format ← choice "format" [("plain", .plain), ("pretty", .pretty), ("json", .json)]
    (given.text flags "format")
  let maxDiagnostics := given.number flags "max-diagnostics"
  if maxDiagnostics < 0 then throw (.usage "--max-diagnostics must not be negative")
  return { color, format, maxDiagnostics, quiet := given.switch flags "quiet"
           timings := given.switch flags "timings" }

/-- Reads what is to be generated. -/
def generationOptions (given : Given) (settings : Settings) : Except Failure CompileOptions := do
  let flags := Flag.generation
  let usage := fun {α : Type} (read : Except Bytes α) =>
    (match read with
      | .ok value => .ok value
      | .error message => .error (.usage message) : Except Failure α)
  let named := given.text flags "target"
  let target ←
    if given.switch flags "jvm" then pure Target.jvm
    else if named.isEmpty then pure Target.llvm
    else usage (Target.parse named)
  let dialect ← usage (Ir.Dialect.parse (given.text flags "ir-dialect"))
  let className := given.text flags "class-name"
  if !className.isEmpty && !ClassFile.isClassName className then
    throw (.usage ("invalid class name " ++ Text.quoted className))
  return { target := some target, maxDiagnostics := settings.maxDiagnostics, dialect, className }

/-- The text of a bag; an empty bag has none, except in JSON. -/
def Settings.render (settings : Settings) (workingDir : Bytes) (bag : Bag) (sources : SourceSet) :
    Bytes :=
  (match settings.format with
    | .plain => bag.plain? sources
    | .pretty =>
        if bag.size = 0 then none
        else bag.pretty? workingDir sources
          { color := settings.color, notes := true, context := 1, pathMode := .relative
            base := workingDir }
    | .json => bag.document? workingDir sources
        { positions := true, notes := true, max := settings.maxDiagnostics }).getD []

namespace Session

/-- Shows diagnostics through a stream. The pretty form does not mind a stream that fails. -/
def showBag (write : Bytes → StateM Session (Option Bytes)) (settings : Settings) (bag : Bag)
    (sources : SourceSet) : Action Unit := do
  let session ← get
  let fault ← write (settings.render session.files.workingDir bag sources)
  match fault, settings.format with
  | none, _ | some _, .pretty => return ()
  | some reason, _ => throw (.io reason)

/-- Tells how the work goes, unless that is unwanted. -/
def status (settings : Settings) (text : Bytes) : StateM Session Unit :=
  if settings.quiet then return () else note (text ++ "\n")

/-- Shows how long the phases took. No time passes within a session. -/
def showPhases (settings : Settings) (compilation : Compilation) : StateM Session Unit :=
  if !settings.timings then return ()
  else if compilation.cached then note "timings: cache hit\n"
  else
    note { phases := compilation.phases.map fun phase =>
             { name := phase.name, milliseconds := 0.0 } : TimeReport }.text

/-- Shows how long something took. -/
def showTime (settings : Settings) (what : Bytes) : StateM Session Unit :=
  if settings.timings then
    note (what ++ " " ++ (Binary64.ofFloat 0.0).fixed 1 ++ " ms\n")
  else return ()

end Session

end Minilang.Command
