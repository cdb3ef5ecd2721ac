import Minilang.Command.Build
import Minilang.Command.Inspect
import Minilang.Command.Project

/-! The whole command line: tracing and profiling around a command, the command itself, and the
exit code it ends with. -/

namespace Minilang.Command

/-- A tracer as the flags describe it; none when nothing is to be traced. The file that events go
to is made at once. -/
def startTracing (given : Given) (command : CommandName) : Action Unit := do
  let flags := Flag.general
  let parse := fun {α : Type} (start : Bytes) (read : Except Bytes α) =>
    (match read with
      | .ok value => .ok value
      | .error message => .error (.usage (start ++ message)) : Except Failure α)
  let path := given.text flags "trace"
  let level ← parse "invalid trace level: " (Trace.Level.parse (given.text flags "trace-level"))
  if level = .off && path.isEmpty then return ()
  let level := if level = .off then Trace.Level.phase else level
  let mode ← parse "invalid trace mode: " (Trace.Mode.parse (given.text flags "trace-mode"))
  let format ← parse [] (Trace.Format.parse (given.text flags "trace-format"))
  let ringSize := given.number flags "trace-ring-size"
  let tracer ← parse "failed to create tracer: "
    (Trace.Tracer.make { level, mode, format, path, ringSize })
  let file := if path.isEmpty || path = "-" || !mode.streams then none else some path
  if let some path := file then
    let session ← get
    match session.files.write path [] with
    | .ok files => set { session with files }
    | .error fault =>
        throw (.usage ("failed to create tracer: open trace output: " ++ fault.message))
  let dumpFormat := if format = .auto then .text else format
  modify fun session => { session with tracing := some { tracer, path := file, dumpFormat } }
  Session.traceCommand .begin command.path []

/-- Makes the files of the profiles that were asked for. That of the memory is made at the end. -/
def startProfiles (given : Given) : Action Unit := do
  for (flag, what) in ([("cpuprofile", "cpu profile"), ("runtime-trace", "runtime trace")] :
      List (Bytes × Bytes)) do
    let path := given.text Flag.general flag
    if !path.isEmpty then
      let session ← get
      match session.files.write path [] with
      | .ok files => set { session with files }
      | .error fault => throw (.io (what ++ ": " ++ fault.message))
  let path := given.text Flag.general "memprofile"
  if !path.isEmpty then
    modify fun session => { session with memoryProfile := some path }

/-- At most one of the flags that exclude each other is given. -/
def checkExclusive (given : Given) : Except Failure Unit :=
  let found := (Flag.exclusive.filter given.isGiven).mergeSort fun x y => !Bytes.before y x
  if found.length ≤ 1 then .ok ()
  else
    .error (.usage ("if any flags in the group [" ++ Bytes.join " " Flag.exclusive ++
      "] are set none of the others can be; [" ++ Bytes.join " " found ++ "] were all set"))

/-- Runs a command with its flags and arguments. -/
def runCommand (command : CommandName) (given : Given) (arguments : List Bytes) :
    Action Unit := do
  startTracing given command
  startProfiles given
  checkExclusive given
  let settings ← Settings.ofGiven given
  let argument := arguments.headD []
  match command with
  | .compile => runCompile settings given arguments
  | .run => runProgram settings given argument
  | .build => runBuild settings given arguments
  | .watch => runWatch settings given argument
  | .tokenize => runTokenize settings argument
  | .parse => runParse settings argument
  | .diag => runDiag settings arguments
  | .init => runInit settings given arguments
  | .clean => runClean settings given arguments
  | .version => runVersion settings given

/-- Writes the profile of the memory and ends the trace. After a failure the ring shows what led
to it. -/
def finish (command : CommandName) (failed : Bool) : StateM Session Unit := do
  let session ← get
  if let some path := session.memoryProfile then
    match session.files.write path [] with
    | .ok files => set { session with files }
    | .error fault => Session.note ("warning: memory profile: " ++ fault.message ++ "\n")
  Session.traceCommand .finish command.path (if failed then "failed" else [])
  if failed then
    if let some tracing := (← get).tracing then
      if let some ring := tracing.tracer.ring then
        Session.note "trace: last events before the failure:\n"
        Session.note (ring.dump tracing.dumpFormat)

/-- The commands there are. -/
def usageText : Bytes :=
  let lines : Bytes := CommandName.all.flatMap fun command => [32, 32] ++ command.name ++ [10]
  "Usage:\n  " ++ programName ++ " [command]\n\nAvailable Commands:\n" ++ lines

/-- Tells why a command failed, unless that is known. -/
private def report (failure : Failure) : StateM Session ExitCode := do
  if let some message := failure.message then Session.note ("error: " ++ message ++ "\n")
  return failure.code

/-- Whether a command line makes the program read its input. -/
def readsInput (words : List Bytes) : Bool :=
  match Invocation.ofWords words with
  | .ok (.command .compile _ arguments) | .ok (.command .diag _ arguments) => fromInput arguments
  | .ok (.command .run _ _) => true
  | _ => false

/-- Runs a command line. -/
def execute (words : List Bytes) : StateM Session ExitCode := do
  match Invocation.ofWords words with
  | .error fault => report (.usage fault.message)
  | .ok .help =>
      discard (Session.say usageText)
      return .ok
  | .ok .programVersion =>
      let number := (← get).version.number
      match ← Session.say (programName ++ " version " ++ number ++ "\n") with
      | none => return .ok
      | some reason => report (.usage reason)
  | .ok (.command command given arguments) =>
      match ← (runCommand command given arguments).run with
      | .ok _ =>
          finish command false
          return .ok
      | .error failure =>
          -- nothing is written any more once the process has ended
          if failure.code = .crashed then return .crashed
          finish command true
          report failure

end Minilang.Command
