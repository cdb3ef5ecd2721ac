import Minilang.Cache.Store
import Minilang.ClassFile.Machine
import Minilang.Command.Settings
import Minilang.Ir.Machine
import Minilang.Load

/-! The commands that compile one program: to an artefact, to run it, or to keep its artefact
fresh. -/

namespace Minilang.Command

/-- What the input is called in reports. -/
def inputName : Bytes := "<stdin>"

/-- Whether arguments name the input instead of a file. -/
def fromInput (arguments : List Bytes) : Bool :=
  match arguments with
  | [] => true
  | path :: _ => path = "-"

/-- Takes the whole input; nothing is left of it. -/
def takeInput : StateM Session (Except Bytes Bytes) := do
  let session ← get
  set { session with input := session.input.map fun _ => [] }
  return session.input

/-- Loads the program that the arguments name. -/
def loadProgram (arguments : List Bytes) :
    StateM Session (Except CompileFault (SourceSet × SourceFile)) := do
  if fromInput arguments then
    let content ← takeInput
    return loadStream inputName content
  else return loadFile (← get).files (arguments.headD [])

/-- Opens the user's store; without one the work goes on. -/
def openStore (warn : Bytes → StateM Session Unit) : StateM Session (Option Cache.Store) := do
  let session ← get
  match Cache.Store.openUser session.surroundings session.files with
  | .ok (store, files) =>
      set { session with files }
      return some store
  | .error reason =>
      warn ("warning: cache disabled: " ++ reason ++ "\n")
      return none

/-- Compiles the program that the arguments name. -/
def compileProgram (arguments : List Bytes) (options : CompileOptions) (useStore : Bool) :
    Action Compilation := do
  match ← (loadProgram arguments : StateM Session _) with
  | .error fault => throw (.io fault.message)
  | .ok (sources, file) =>
      let store ← (if useStore then openStore Session.note else pure none : StateM Session _)
      let session ← get
      let (made, files) :=
        Cache.compileThrough store session.files sources file options false
      set { session with files }
      Session.trace made.activities
      match made.outcome with
      | .error fault => throw (.usage fault.message)
      | .ok compilation => return compilation

/-- The code of a compilation; diagnostics are shown when there is none. -/
def codeOf (settings : Settings) (compilation : Compilation) : Action Bytes := do
  match compilation.isOk, compilation.code with
  | true, some code => return code
  | _, _ =>
      Session.showBag Session.complain settings compilation.bag compilation.sources
      throw .reported

/-- Writes an artefact, with the directories above it. -/
def writeOutput (path code : Bytes) : StateM Session (Option Bytes) := do
  let session ← get
  let dir := Path.dir path
  let above := if dir = "." then .ok session.files else session.files.mkdirAll dir
  match above with
  | .error fault => return some ("failed to create " ++ dir ++ ": " ++ fault.message)
  | .ok files =>
      match files.write path code with
      | .error fault =>
          set { session with files }
          return some ("failed to write " ++ path ++ ": " ++ fault.message)
      | .ok files =>
          set { session with files }
          return none

def runCompile (settings : Settings) (given : Given) (arguments : List Bytes) : Action Unit := do
  let flags := CommandName.compile.flags
  let options ← generationOptions given settings
  let compilation ← compileProgram arguments options (given.switch flags "cache")
  Session.showPhases settings compilation
  let code ← codeOf settings compilation
  let output := given.text flags "output"
  if output.isEmpty || output = "-" then
    match ← (Session.say code : StateM Session _) with
    | some reason => throw (.io reason)
    | none => return ()
  else
    match ← (writeOutput output code : StateM Session _) with
    | some reason => throw (.io reason)
    | none => Session.status settings ("wrote " ++ output)

/-- The code that a path stands for: an artefact as it is, or a compiled program. -/
def runnableCode (settings : Settings) (path : Bytes) (options : CompileOptions) :
    Action (Bytes × Option Target) := do
  let artefact := ([.llvm, .jvm] : List Target).find? fun target => target.extension = Path.ext path
  match artefact with
  | some target =>
      match (← get).files.read path with
      | .ok code => return (code, some target)
      | .error fault => throw (.io (CompileFault.load path fault.message).message)
  | none =>
      let compilation ← compileProgram [path] options false
      Session.showPhases settings compilation
      let code ← codeOf settings compilation
      return (code, options.target)

/-- The span of a running program stands beside that of the command. -/
private def machineSpan (target : Option Target) : Trace.Activity :=
  .span .pass (if target = some .jvm then "vm.class" else "vm.ir") [] []

def runProgram (settings : Settings) (given : Given) (path : Bytes) : Action Unit := do
  let options ← generationOptions given settings
  let (code, target) ← runnableCode settings path options
  let content ← (takeInput : StateM Session _)
  let session ← get
  let input : Machine.Input := match content with
    | .ok text => .stream text
    | .error reason => .failing none reason
  let console : Machine.Console :=
    { input, capacity := session.out.fault.map fun reason => (0, reason) }
  let limit := (given.number CommandName.run.flags "max-steps").toNat
  let run := if target = some .jvm then ClassFile.run code limit session.fuel console
    else Ir.run code limit session.fuel console
  Session.traceBelow 0 [machineSpan target]
  match run with
  | none => throw { code := .runtime }
  | some run =>
      discard (Session.say run.console.text : StateM Session _)
      Session.showTime settings "ran"
      match run.ending with
      | .done => return ()
      | .fault fault => throw { code := .runtime, message := some fault.message }
      | .outOfBounds => throw { code := .runtime }

/-- Compiles a file once and reports how that went. -/
private def refresh (settings : Settings) (options : CompileOptions) (path output : Bytes) :
    Action Unit := do
  let compilation ← compileProgram [path] options false
  match compilation.isOk, compilation.code with
  | true, some code =>
      match ← (writeOutput output code : StateM Session _) with
      | some reason => throw (.io reason)
      | none => Session.status settings ("wrote " ++ output)
  | _, _ => Session.showBag Session.complain settings compilation.bag compilation.sources

/-- Compiles a file and watches it until the interrupt, which comes at once. -/
def runWatch (settings : Settings) (given : Given) (argument : Bytes) : Action Unit := do
  let options ← generationOptions given settings
  let path := Path.absolute (← get).files.workingDir argument
  let named := given.text CommandName.watch.flags "output"
  let output :=
    if named.isEmpty then
      Bytes.withoutEnd (Path.ext path) path ++ ((options.target.map Target.extension).getD [])
    else named
  tryCatch (refresh settings options path output) fun failure =>
    Session.note ("error: " ++ failure.message.getD [] ++ "\n")
  Session.status settings ("watching " ++ argument ++ " (interrupt to stop)")
  let dir := Path.dir path
  match (← get).files.stat dir with
  | .ok _ => return ()
  | .error fault => throw (.io ("failed to watch " ++ dir ++ ": " ++ fault.refusal.message))

end Minilang.Command
