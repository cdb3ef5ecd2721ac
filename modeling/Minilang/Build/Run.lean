import Minilang.Build.Job
import Minilang.Text.Quoted

/-! A build: its jobs take steps in some order, and the outcome gathers their results. When one of
them panics, the process ends and with it the build: the other jobs stay where they are and there is
no outcome. -/

namespace Minilang.Build

/-- Why a build did not go well. -/
inductive BuildFault where
  | noRequest
  | noFiles
  | wrongTarget (target : Option Target)
  | noClang
  | clash (files : Request.Clash)
  /-- A job was interrupted, and the build with it. -/
  | interrupted (fault : JobFault)
  | failures (failed total : Nat) (name : Bytes) (first : JobFault)

namespace BuildFault

def message : BuildFault → Bytes
  | noRequest => "missing build request"
  | noFiles => "no input files"
  | wrongTarget target =>
      "--link needs the llvm target, got " ++ (target.map Target.name).getD "unknown"
  | noClang =>
      "clang not found; install with: sudo apt-get update && sudo apt-get install -y clang llvm"
  | clash files =>
      files.first ++ " and " ++ files.second ++ " would write the same output " ++
        Text.quoted (stem files.second)
  | interrupted fault => fault.message
  | failures failed total name first =>
      Bytes.dec failed ++ " of " ++ Bytes.dec total ++ " files failed: " ++ name ++ ": " ++
        first.message

/-- A fault of a build is of the kind of the job's fault it stands for. -/
def kind : BuildFault → FaultKind
  | interrupted fault | failures _ _ _ fault => fault.kind
  | _ => .other

end BuildFault

/-- A build under way. -/
structure Progression where
  jobs : List (Job × JobState)
  site : Site

namespace Progression

/-- All jobs wait, and each is announced. -/
def start (files : Files) (jobs : List Job) : Progression :=
  { jobs := jobs.map fun job => (job, .waiting)
    site := jobs.foldl (fun site job => site.progress job.queued) { files } }

/-- The job of a number takes a step; a number of no job changes nothing. -/
def advance (request : Request) (tools : Option Toolchain) (state : Progression) (number : Nat) :
    Progression :=
  match state.jobs[number]? with
  | none => state
  | some (job, jobState) =>
      let (jobState, site) := job.step request tools jobState state.site
      { jobs := state.jobs.set number (job, jobState), site }

/-- The panic that ended the process. -/
def crash? (state : Progression) : Option CompileFault :=
  state.jobs.findSome? fun (_, jobState) => jobState.crash?

/-- A turn of a schedule; after a panic nobody takes one. -/
def turn (request : Request) (tools : Option Toolchain) (state : Progression) (number : Nat) :
    Progression :=
  if state.crash?.isSome then state else state.advance request tools number

/-- The jobs take steps in the order of a schedule. -/
def follow (request : Request) (tools : Option Toolchain) (state : Progression)
    (schedule : List Nat) : Progression :=
  schedule.foldl (turn request tools) state

end Progression

/-- One job after the other. -/
def inOrder (count : Nat) : List Nat :=
  (List.range count).flatMap (List.replicate Job.maxSteps)

/-- What a build leaves. -/
structure Outcome where
  /-- One for each file of the request; blank jobs for those that were not planned. -/
  jobs : List (Job × JobState) := []
  site : Site
  fault : Option BuildFault := none

namespace Outcome

/-- How many jobs failed. -/
def failed (outcome : Outcome) : Nat :=
  (outcome.jobs.filter fun (_, state) => state.fault?.isSome).length

end Outcome

/-- How a build ends. -/
inductive Ending where
  | returned (outcome : Outcome)
  /-- The process ended in the panic of a job. What was written and reported by then stays. -/
  | crashed (fault : CompileFault) (site : Site)

namespace Ending

def outcome? : Ending → Option Outcome
  | returned outcome => some outcome
  | crashed .. => none

def site : Ending → Site
  | returned outcome => outcome.site
  | crashed _ site => site

end Ending

/-- What the results of the jobs mean for the build. -/
def verdict (jobs : List (Job × JobState)) : Option BuildFault :=
  let faults := jobs.filterMap fun (job, state) => state.fault?.map fun fault => (job.name, fault)
  match faults.find? fun (_, fault) => fault.isInterruption, faults with
  | some (_, fault), _ => some (.interrupted fault)
  | none, [] => none
  | none, (name, first) :: _ => some (.failures faults.length jobs.length name first)

/-- What a request must satisfy before anything is done, and the tools for linking. -/
def Request.prepare (request : Request) (files : Files) : Except BuildFault (Option Toolchain) :=
  if request.files.isEmpty then .error .noFiles
  else if !request.link then .ok none
  else if request.options.target ≠ some .llvm then .error (.wrongTarget request.options.target)
  else
    match Toolchain.find? files request.searchPath with
    | some tools => .ok (some tools)
    | none => .error .noClang

/-- Runs a build by a schedule for the number of its jobs. -/
def runBy (schedule : Nat → List Nat) (request : Request) (files : Files) : Ending :=
  match request.prepare files with
  | .error fault => .returned { site := { files }, fault := some fault }
  | .ok tools =>
      let (jobs, clash) := request.plan files.workingDir
      let start := Progression.start files jobs
      match clash with
      | some clash =>
          .returned
            { jobs := start.jobs ++
                List.replicate (request.files.length - jobs.length) ({}, .waiting)
              site := start.site, fault := some (.clash clash) }
      | none =>
          let last := start.follow request tools (schedule jobs.length)
          match last.crash? with
          | some fault => .crashed fault last.site
          | none => .returned { jobs := last.jobs, site := last.site, fault := verdict last.jobs }

/-- Runs a build one job after the other. -/
def run (request : Option Request) (files : Files) : Ending :=
  match request with
  | none => .returned { site := { files }, fault := some .noRequest }
  | some request => runBy inOrder request files

end Minilang.Build
