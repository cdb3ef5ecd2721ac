import Minilang.Build.Run
import Minilang.Command.Compile
import Minilang.Project.Manifest

/-! The command that builds several programs, those given or those of the project. -/

namespace Minilang.Command

/-- Completes a request from the project's manifest; flags that were given win. The result comes
with the root of the project. -/
def applyManifest (files : Files) (version : Bytes) (given : Given) (request : Build.Request) :
    Except Failure (Build.Request × Bytes) := do
  let usage := fun {α : Type} (read : Except Bytes α) =>
    (match read with
      | .ok value => .ok value
      | .error message => .error (.usage message) : Except Failure α)
  match ← usage (Project.findAndLoad files files.workingDir) with
  | none => throw (.usage ("no input files and no " ++ Project.manifestName ++ " found"))
  | some manifest =>
      match manifest.checkToolchain version with
      | .error fault => throw (.usage fault.message)
      | .ok _ => pure ()
      let sources ← usage (manifest.sources files)
      let options := request.options
      let options := { options with
        target := if Flag.exclusive.any given.isGiven then options.target
          else some manifest.target
        dialect := if given.isGiven "ir-dialect" then options.dialect else manifest.dialect
        className :=
          if given.isGiven "class-name" || manifest.settings.className.isEmpty then
            options.className
          else manifest.settings.className }
      return ({ request with files := sources, options }, manifest.root)

/-- The line that tells how a job ended. -/
def endLine (event : Build.Event) : Bytes :=
  match event.status with
  | some .done =>
      "ok    " ++ event.file ++ Bytes.onlyIf event.cached " (cached)" ++ "\n"
  | some .error => "FAIL  " ++ event.file ++ ": " ++ event.fault.getD [] ++ "\n"
  | _ => []

/-- Passes on what a build reports. -/
def relay (settings : Settings) : Build.Report → StateM Session Unit
  | .progress event => if settings.quiet then return () else Session.note (endLine event)
  | .output text => discard (Session.say text)
  | .traced activity => Session.trace [activity]

def stageVerb : Build.Stage → Bytes
  | .parse => "parsed"
  | .prepass => "scanned"
  | .codegen => "generated"
  | .write => "wrote"
  | .link => "linked"

/-- Shows the diagnostics of the jobs that failed and picks the exit code: diagnostics before
missing files, those before anything else. -/
def reportFailures (settings : Settings) :
    List (Build.Job × Build.JobState) → ExitCode → Action ExitCode
  | [], code => return code
  | (job, state) :: rest, code => do
      match state.fault?, state.compilation? with
      | some .diagnostics, compilation =>
          if let some compilation := compilation then
            Session.note (job.name ++ ":\n")
            Session.showBag Session.complain settings compilation.bag compilation.sources
          reportFailures settings rest .diagnostics
      | some fault, _ =>
          reportFailures settings rest
            (if fault.isMissingInput && code ≠ .diagnostics then .io else code)
      | none, _ => reportFailures settings rest code

def runBuild (settings : Settings) (given : Given) (arguments : List Bytes) : Action Unit := do
  let flags := CommandName.build.flags
  let options ← generationOptions given settings
  if given.number flags "jobs" < 0 then throw (.usage "--jobs must not be negative")
  let session ← get
  let workingDir := session.files.workingDir
  let request : Build.Request :=
    { files := arguments, options, profile := given.text flags "profile"
      link := given.switch flags "link", printCommands := given.switch flags "print-commands"
      searchPath := session.surroundings.searchPath, outputFault := session.out.fault }
  let (request, base) ←
    if arguments.isEmpty then
      applyManifest session.files session.version.number given request
    else pure (request, workingDir)
  let out := given.text flags "out"
  let outputRoot := if out.isEmpty then Path.join [base, "target"] else out
  let warn := fun text => if settings.quiet then return () else Session.note text
  let store ←
    (if given.switch flags "no-cache" then pure none else openStore warn : StateM Session _)
  let request := { request with base, outputRoot, store }
  let ending := Build.run (some request) (← get).files
  modify fun session => { session with files := ending.site.files }
  for report in ending.site.reports do relay settings report
  let some outcome := ending.outcome? | throw { code := .crashed }
  for stage in Build.Stage.all do
    if outcome.site.reached.contains stage then Session.showTime settings (stageVerb stage)
  match outcome.fault with
  | none =>
      Session.status settings
        ("built " ++ Bytes.dec outcome.jobs.length ++ " file(s) into " ++ outputRoot)
  | some fault =>
      if outcome.jobs.isEmpty then throw (.usage fault.message)
      let code ← reportFailures settings outcome.jobs .usage
      throw { code, message := some fault.message }

end Minilang.Command
