import Minilang.Build.Link
import Minilang.FaultKind
import Minilang.Load

/-! A job at work. It moves in steps: compile or find the artefact, keep it in the store, write
it, link it. Between two steps of a job, others may take theirs. -/

namespace Minilang.Build

/-- Why a job failed. -/
inductive JobFault where
  | interrupted
  | compile (fault : CompileFault)
  /-- The program has errors. -/
  | diagnostics
  | outputDir (fault : FileFault)
  | output (path : Bytes) (fault : FileFault)
  | link (fault : LinkFault)

namespace JobFault

def message : JobFault → Bytes
  | interrupted => "context canceled"
  | compile fault => fault.message
  | diagnostics => "compilation reported diagnostics"
  | outputDir fault => "failed to create output directory: " ++ fault.message
  | output path fault => "failed to write " ++ path ++ ": " ++ fault.message
  | link fault => fault.message

def isInterruption : JobFault → Bool
  | interrupted | compile .cancelled => true
  | link fault => fault.isInterruption
  | _ => false

def kind (fault : JobFault) : FaultKind :=
  match fault with
  | compile inner => inner.kind
  | _ => if fault.isInterruption then .cancelled else .other

/-- Whether something the job needs could not be found or read. -/
def isMissingInput : JobFault → Bool
  | compile (.load ..) => true
  | outputDir fault | output _ fault => fault.isNotFound
  | _ => false

end JobFault

/-- How far a job is. -/
inductive JobState where
  | waiting
  | compiled (compilation : Compilation)
  /-- The artefact is kept, or needs no keeping. -/
  | kept (compilation : Compilation)
  | written (compilation : Compilation)
  | done (compilation : Compilation) (executable : Option Bytes)
  | failed (compilation : Option Compilation) (fault : JobFault)
  /-- Code generation panicked, and nothing catches the panic of a job. -/
  | crashed (fault : CompileFault)

namespace JobState

def fault? : JobState → Option JobFault
  | failed _ fault => some fault
  | _ => none

def crash? : JobState → Option CompileFault
  | crashed fault => some fault
  | _ => none

def compilation? : JobState → Option Compilation
  | waiting | crashed _ => none
  | compiled compilation | kept compilation | written compilation | done compilation _ =>
      some compilation
  | failed compilation _ => compilation

def executable? : JobState → Option Bytes
  | done _ executable => executable
  | _ => none

def isOver : JobState → Bool
  | done .. | failed .. | crashed _ => true
  | _ => false

end JobState

def Stage.ofPhase : Phase → Stage
  | .parse => .parse
  | .prepass => .prepass
  | .codegen => .codegen

namespace Job

def event (job : Job) (stage : Stage) (status : Status) : Event :=
  { file := job.name, stage := some stage, status := some status }

def queued (job : Job) : Event := job.event .parse .queued

def fail (job : Job) (stage : Stage) (compilation : Option Compilation) (fault : JobFault)
    (site : Site) : JobState × Site :=
  (.failed compilation fault,
    site.progress { job.event stage .error with fault := some fault.message })

/-- Goes through the phases of a compilation. -/
def work (job : Job) (phases : List Phase) (site : Site) : Site :=
  phases.foldl (fun site phase =>
    (site.progress (job.event (.ofPhase phase) .working)).reach (.ofPhase phase)) site

/-- Loads the source, and compiles it unless the store has its artefact. -/
def compile (request : Request) (job : Job) (site : Site) : JobState × Site :=
  match loadFile site.files job.path with
  | .error fault => job.fail .parse none (.compile fault) site
  | .ok (sources, file) =>
      let (found, searched) := match request.store with
        | some store => store.find site.files sources file request.options
        | none => (none, [])
      let site := site.trace searched
      match found with
      | some compilation => (.kept compilation, site)
      | none =>
          let cancelled := request.isInterrupted (site.progress (job.event .parse .working))
          let made := Minilang.compile sources file request.options cancelled
          let site := job.work made.phases (site.trace made.activities)
          let stage := (made.phases.getLast?.map Stage.ofPhase).getD .parse
          match made.outcome with
          | .error fault =>
              if fault.isPanic then (.crashed fault, site)
              else job.fail stage none (.compile fault) site
          | .ok compilation =>
              if compilation.isOk then (.compiled compilation, site)
              else job.fail stage (some compilation) .diagnostics site

/-- Keeps the artefact in the store, if there is one. -/
def keep (request : Request) (compilation : Compilation) (site : Site) : JobState × Site :=
  match request.store with
  | none => (.kept compilation, site)
  | some store =>
      let (files, noted) := store.keep site.files request.options compilation
      (.kept compilation, { site with files }.trace noted)

/-- Puts an artefact at its path in one move, so that no reader sees half of it. -/
def writeArtefact (files : Files) (path code : Bytes) : Except JobFault Files × Files :=
  match files.mkdirAll (Path.dir path) with
  | .error fault => (.error (.outputDir fault), files)
  | .ok files =>
      let draft := path ++ ".tmp"
      match files.write draft code with
      | .error fault => (.error (.output path fault), files)
      | .ok drafted =>
          match drafted.rename draft path with
          | .error fault => (.error (.output path fault), drafted.removeAll draft)
          | .ok files => (.ok files, files)

def finish (job : Job) (stage : Stage) (compilation : Compilation)
    (executable : Option Bytes) (site : Site) : JobState × Site :=
  (.done compilation executable,
    site.progress { job.event stage .done with cached := compilation.cached })

def write (request : Request) (job : Job) (compilation : Compilation) (site : Site) :
    JobState × Site :=
  let site := site.progress { job.event .write .working with cached := compilation.cached }
  match writeArtefact site.files job.output (compilation.code.getD []) with
  | (.error fault, files) => job.fail .write (some compilation) fault { site with files }
  | (.ok files, _) =>
      let site := { site with files }.reach .write
      if request.link then (.written compilation, site)
      else job.finish .write compilation none site

def link (request : Request) (tools : Toolchain) (job : Job) (compilation : Compilation)
    (site : Site) : JobState × Site :=
  let site := site.progress (job.event .link .working)
  let executable := executablePath job.output
  match ((Linking.link request tools job.output executable).run).run site with
  | (.error fault, site) => job.fail .link (some compilation) (.link fault) site
  | (.ok _, site) => job.finish .link compilation (some executable) (site.reach .link)

/-- One step of a job. A job that has not begun when the build is interrupted fails without a
report; one that is over stays as it is. -/
def step (request : Request) (tools : Option Toolchain) (job : Job) (state : JobState)
    (site : Site) : JobState × Site :=
  match state with
  | .waiting =>
      if request.isInterrupted site then (.failed none .interrupted, site)
      else job.compile request site
  | .compiled compilation => keep request compilation site
  | .kept compilation => job.write request compilation site
  | .written compilation =>
      match tools with
      | some tools => job.link request tools compilation site
      | none => (.written compilation, site)
  | ended => (ended, site)

/-- No job takes more steps. -/
def maxSteps : Nat := 4

end Job

end Minilang.Build
