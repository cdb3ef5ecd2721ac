import Minilang.Build.Run
import Minilang.Proofs.OutputPaths
import Minilang.Proofs.SizeLimits

/-! Schedules of a build. A step changes the job that takes it and no other, and every step brings a
job nearer to its end, so a schedule with enough steps for each job ends them all, unless one of them
panics. What has panicked stays so, and a build that nothing has ended went through all turns of its
schedule. -/

namespace Minilang.Build

namespace Site

@[simp] theorem files_progress (site : Site) (event : Event) :
    (site.progress event).files = site.files := rfl

@[simp] theorem files_trace (site : Site) (activities : List Trace.Activity) :
    (site.trace activities).files = site.files := rfl

@[simp] theorem files_reach (site : Site) (stage : Stage) :
    (site.reach stage).files = site.files := by
  unfold reach
  split <;> rfl

end Site

/-- How many steps a job may have to take. -/
def JobState.rank : JobState → Nat
  | waiting => 4
  | compiled _ => 3
  | kept _ => 2
  | written _ => 1
  | done .. | failed .. | crashed _ => 0

theorem JobState.isOver_iff (state : JobState) : state.isOver = true ↔ state.rank = 0 := by
  cases state <;> simp [isOver, rank]

theorem JobState.crash?_eq_some (state : JobState) {fault : CompileFault} :
    state.crash? = some fault ↔ state = .crashed fault := by
  cases state <;> simp [crash?]

/-- With tools where there is something to link, every step brings a job nearer to its end. -/
theorem Job.step_rank {request : Request} {tools : Option Toolchain}
    (ready : request.link = true → tools.isSome = true) (job : Job) {state : JobState} (site : Site)
    (linking : state.rank = 1 → tools.isSome = true) :
    (job.step request tools state site).1.rank ≤ state.rank - 1 ∧
      ((job.step request tools state site).1.rank = 1 → tools.isSome = true) := by
  cases state with
  | waiting =>
    simp only [Job.step, Job.compile]
    repeat' split
    all_goals exact ⟨by simp [JobState.rank, Job.fail], by simp [JobState.rank, Job.fail]⟩
  | compiled compilation =>
    simp only [Job.step, Job.keep]
    split <;> exact ⟨by simp [JobState.rank], by simp [JobState.rank]⟩
  | kept compilation =>
    simp only [Job.step, Job.write]
    split
    · exact ⟨Nat.zero_le _, by simp [Job.fail, JobState.rank]⟩
    split
    next linked => exact ⟨Nat.le_refl _, fun _ => ready linked⟩
    · exact ⟨Nat.zero_le _, by simp [Job.finish, JobState.rank]⟩
  | written compilation =>
    obtain ⟨tools, rfl⟩ := Option.isSome_iff_exists.mp (linking rfl)
    simp only [Job.step, Job.link]
    split <;> exact ⟨Nat.zero_le _, fun _ => rfl⟩
  | done | failed | crashed => exact ⟨Nat.le_refl _, linking⟩

namespace Job

@[simp] theorem files_work (job : Job) (phases : List Phase) (site : Site) :
    (job.work phases site).files = site.files := by
  induction phases generalizing site with
  | nil => rfl
  | cons phase phases ih =>
    rw [work, List.foldl_cons]
    exact (ih _).trans (by simp)

/-- In a tree, the source of a job is one whose class has no slots for all variables. -/
def Overflows (request : Request) (job : Job) (files : Files) : Prop :=
  ∃ sources file, loadFile files job.path = .ok (sources, file) ∧ file.Overflows request.options

/-- A job that panics has loaded a source with too many variables and changed nothing. -/
theorem compile_panics {request : Request} {job : Job} {site : Site} {fault : CompileFault}
    (panics : (job.compile request site).1.crash? = some fault) :
    job.Overflows request site.files ∧ (job.compile request site).2.files = site.files ∧
      fault = .lowering .jvm (.slotRange 65536) := by
  unfold compile at panics ⊢
  split at panics
  · cases panics
  next sources file loaded =>
    dsimp only at panics ⊢
    split at panics
    · cases panics
    split at panics
    next stop stops =>
      split at panics
      next panic =>
        cases panics
        obtain ⟨many, same⟩ := Minilang.compile_panics stops panic
        simp only [panic, if_true, files_work, Site.files_trace]
        exact ⟨⟨sources, file, loaded, many⟩, trivial, same⟩
      · cases panics
    · split at panics <;> cases panics

theorem step_panics {request : Request} {tools : Option Toolchain} {job : Job} {state : JobState}
    (running : state.crash? = none) {site : Site} {fault : CompileFault}
    (panics : (job.step request tools state site).1.crash? = some fault) :
    job.Overflows request site.files ∧ (job.step request tools state site).2.files = site.files ∧
      fault = .lowering .jvm (.slotRange 65536) := by
  cases state with
  | waiting =>
    rw [step] at panics ⊢
    split at panics
    · cases panics
    next going =>
      rw [if_neg going]
      exact compile_panics panics
  | compiled compilation =>
    rw [step, keep] at panics
    split at panics <;> cases panics
  | kept compilation =>
    rw [step, write] at panics
    split at panics
    · cases panics
    · split at panics <;> cases panics
  | written compilation =>
    cases tools with
    | none => cases panics
    | some tools =>
      rw [step, link] at panics
      split at panics <;> cases panics
  | done | failed => cases panics
  | crashed => cases running

end Job

/-- A schedule with as many steps for each job as it may need. -/
def IsComplete (count : Nat) (schedule : List Nat) : Prop :=
  ∀ number < count, Job.maxSteps ≤ schedule.count number

namespace Progression

variable {request : Request} {tools : Option Toolchain} {state : Progression}

/-- Only the job of the number changes. -/
theorem jobs_advance (request : Request) (tools : Option Toolchain) (number index : Nat) {job : Job}
    {jobState : JobState}
    (here : state.jobs[index]? = some (job, jobState)) :
    (state.advance request tools number).jobs[index]? =
      some (job, if number = index then (job.step request tools jobState state.site).1
        else jobState) := by
  unfold advance
  cases found : state.jobs[number]? with
  | none =>
    have other : number ≠ index := by
      rintro rfl
      rw [here] at found
      cases found
    rw [if_neg other]
    exact here
  | some entry =>
    by_cases same : number = index
    · subst same
      rw [here] at found
      cases found
      have inside : number < state.jobs.length := (List.getElem?_eq_some_iff.mp here).1
      rw [if_pos rfl]
      exact List.getElem?_set_self inside
    · rw [if_neg same, ← here]
      exact List.getElem?_set_ne same

theorem turn_advance (request : Request) (tools : Option Toolchain) (running : state.crash? = none)
    (number : Nat) :
    state.turn request tools number = state.advance request tools number := by
  rw [turn, running]
  rfl

/-- A panic is the end. -/
theorem follow_crashed (crashed : state.crash?.isSome = true) (schedule : List Nat) :
    state.follow request tools schedule = state := by
  induction schedule with
  | nil => rfl
  | cons number schedule ih =>
    have same : state.turn request tools number = state := if_pos crashed
    exact (congrArg (follow request tools · schedule) same).trans ih

theorem crash?_of_follow {schedule : List Nat}
    (running : (state.follow request tools schedule).crash? = none) : state.crash? = none := by
  by_contra crashed
  rw [follow_crashed (Option.isSome_iff_ne_none.mpr crashed)] at running
  exact crashed running

theorem follow_rank (ready : request.link = true → tools.isSome = true) {schedule : List Nat}
    (running : (state.follow request tools schedule).crash? = none) {index : Nat} {job : Job}
    {jobState : JobState} (here : state.jobs[index]? = some (job, jobState))
    (linking : jobState.rank = 1 → tools.isSome = true) :
    ∃ after, (state.follow request tools schedule).jobs[index]? = some (job, after) ∧
      after.rank ≤ jobState.rank - schedule.count index := by
  induction schedule generalizing state jobState with
  | nil => exact ⟨jobState, here, Nat.le_refl _⟩
  | cons number schedule ih =>
    have turned := turn_advance request tools (crash?_of_follow running) number
    have moved := jobs_advance request tools number index here
    rw [← turned] at moved
    obtain ⟨shorter, linked⟩ := job.step_rank ready state.site linking
    rw [List.count_cons]
    by_cases same : number = index
    · rw [if_pos same] at moved
      obtain ⟨after, last, bound⟩ := ih running moved linked
      refine ⟨after, last, ?_⟩
      rw [if_pos (by simpa using same)]
      omega
    · rw [if_neg same] at moved
      obtain ⟨after, last, bound⟩ := ih running moved linking
      refine ⟨after, last, ?_⟩
      rw [if_neg (by simpa using same)]
      omega

theorem length_advance (request : Request) (tools : Option Toolchain) (number : Nat) :
    (state.advance request tools number).jobs.length = state.jobs.length := by
  unfold advance
  split
  · rfl
  · exact List.length_set

/-- A step leaves the jobs in their places. -/
theorem planned_advance (request : Request) (tools : Option Toolchain) (number : Nat) :
    (state.advance request tools number).jobs.map Prod.fst = state.jobs.map Prod.fst := by
  refine List.ext_getElem? fun index => ?_
  rw [List.getElem?_map, List.getElem?_map]
  cases here : state.jobs[index]? with
  | some entry =>
    rw [jobs_advance request tools number index here]
    rfl
  | none =>
    rw [List.getElem?_eq_none_iff] at here
    rw [List.getElem?_eq_none (by rw [length_advance]; exact here)]

/-- What every step keeps, every build keeps. -/
theorem follow_induction {motive : Progression → Prop} (start : motive state)
    (step : ∀ {state : Progression} (number : Nat), state.crash? = none → motive state →
      motive (state.advance request tools number)) (schedule : List Nat) :
    motive (state.follow request tools schedule) := by
  induction schedule generalizing state with
  | nil => exact start
  | cons number schedule ih =>
    refine ih ?_
    unfold turn
    split
    · exact start
    next running => exact step number (Option.not_isSome_iff_eq_none.mp running) start

theorem planned_follow (request : Request) (tools : Option Toolchain) (schedule : List Nat) :
    (state.follow request tools schedule).jobs.map Prod.fst = state.jobs.map Prod.fst :=
  follow_induction (motive := fun after => after.jobs.map Prod.fst = state.jobs.map Prod.fst) rfl
    (fun number _ same => (planned_advance request tools number).trans same) schedule

/-- The panic that ended a build is one of a job whose source has too many variables. -/
theorem crash?_follow (running : state.crash? = none) {schedule : List Nat} {fault : CompileFault}
    (crashed : (state.follow request tools schedule).crash? = some fault) :
    fault = .lowering .jvm (.slotRange 65536) ∧
      ∃ entry ∈ (state.follow request tools schedule).jobs, entry.2 = .crashed fault ∧
        entry.1.Overflows request (state.follow request tools schedule).site.files := by
  refine follow_induction (motive := fun after => ∀ fault, after.crash? = some fault →
    fault = .lowering .jvm (.slotRange 65536) ∧ ∃ entry ∈ after.jobs, entry.2 = .crashed fault ∧
      entry.1.Overflows request after.site.files) (fun fault wrong => ?_)
    (fun {state} number running _ fault crashed => ?_) schedule fault crashed
  · rw [running] at wrong
    cases wrong
  cases here : state.jobs[number]? with
  | none =>
    rw [advance, here, running] at crashed
    cases crashed
  | some entry =>
    obtain ⟨job, jobState⟩ := entry
    have calm : ∀ entry ∈ state.jobs, entry.2.crash? = none := List.findSome?_eq_none_iff.mp running
    simp only [advance, here, crash?] at crashed ⊢
    obtain ⟨entry, member, panics⟩ := List.exists_of_findSome?_eq_some crashed
    rcases List.mem_or_eq_of_mem_set member with old | rfl
    · rw [calm entry old] at panics
      cases panics
    obtain ⟨many, untouched, same⟩ := Job.step_panics (calm _ (List.mem_of_getElem? here)) panics
    exact ⟨same, _, member, (JobState.crash?_eq_some _).mp panics, untouched ▸ many⟩

theorem planned_start (files : Files) (jobs : List Job) :
    (start files jobs).jobs.map Prod.fst = jobs := by
  rw [start, List.map_map]
  exact List.map_id _

theorem crash?_start (files : Files) (jobs : List Job) : (start files jobs).crash? = none := by
  refine List.findSome?_eq_none_iff.mpr fun entry member => ?_
  obtain ⟨job, -, rfl⟩ := List.mem_map.mp member
  rfl

/-- By a complete schedule every job comes to its end, if none panics. -/
theorem follow_over (ready : request.link = true → tools.isSome = true) {files : Files}
    {jobs : List Job} {schedule : List Nat} (complete : IsComplete jobs.length schedule)
    (running : ((start files jobs).follow request tools schedule).crash? = none) :
    ∀ entry ∈ ((start files jobs).follow request tools schedule).jobs, entry.2.isOver = true := by
  intro entry member
  obtain ⟨index, inside, here⟩ := List.mem_iff_getElem.mp member
  have planned : ((start files jobs).follow request tools schedule).jobs.length = jobs.length := by
    rw [← List.length_map Prod.fst, planned_follow, planned_start]
  rw [planned] at inside
  have first : (start files jobs).jobs[index]? = some (jobs[index], .waiting) := by
    simp [start, inside]
  obtain ⟨after, last, bound⟩ :=
    follow_rank ready running first (fun wrong => absurd wrong (by decide))
  have ended : after.rank = 0 := by
    have steps : 4 ≤ schedule.count index := complete index inside
    change after.rank ≤ 4 - _ at bound
    omega
  have same := (List.getElem?_eq_some_iff.mp last).2
  rw [here] at same
  rw [same]
  exact after.isOver_iff.mpr ended

end Progression

/-- One job after the other is a complete schedule. -/
theorem isComplete_inOrder (count : Nat) : IsComplete count (inOrder count) := by
  intro number less
  have among : (List.replicate Job.maxSteps number).Sublist (inOrder count) :=
    List.sublist_flatten_of_mem (List.mem_map_of_mem (List.mem_range.mpr less))
  calc Job.maxSteps = (List.replicate Job.maxSteps number).count number :=
        List.count_replicate_self.symm
    _ ≤ (inOrder count).count number := among.count_le number

theorem Request.prepare_tools {request : Request} {files : Files} {tools : Option Toolchain}
    (prepared : request.prepare files = .ok tools) : request.link = true → tools.isSome = true := by
  intro linked
  unfold Request.prepare at prepared
  rw [linked] at prepared
  grind

/-- A plan without a clash has a job for each file. -/
theorem Request.plan_jobs {request : Request} {workingDir : Bytes} {jobs : List Job}
    (planned : request.plan workingDir = (jobs, none)) :
    jobs = request.files.map (request.job workingDir) ∧ (request.files.map stem).Nodup := by
  obtain ⟨taken, rest, whole, made, distinct, _, all⟩ :=
    request.planLoop_takes workingDir request.files [] []
  change request.planLoop workingDir request.files [] [] = (jobs, none) at planned
  rw [planned] at made all
  rw [all rfl, List.append_nil] at whole
  rw [whole]
  exact ⟨made, distinct⟩

/-- A build that is not refused returns when no job panicked. -/
theorem runBy_accepted {request : Request} {files : Files} {tools : Option Toolchain}
    {jobs : List Job} (prepared : request.prepare files = .ok tools)
    (planned : request.plan files.workingDir = (jobs, none)) {schedule : Nat → List Nat}
    {outcome : Outcome} :
    let last := (Progression.start files jobs).follow request tools (schedule jobs.length)
    runBy schedule request files = .returned outcome ↔ last.crash? = none ∧
      outcome = { jobs := last.jobs, site := last.site, fault := verdict last.jobs } := by
  simp only [runBy, prepared, planned]
  generalize (Progression.start files jobs).follow request tools (schedule jobs.length) = last
  cases last.crash? with
  | some fault => simp
  | none => simp [eq_comm]

theorem runBy_crashed {request : Request} {files : Files} {tools : Option Toolchain}
    {jobs : List Job} (prepared : request.prepare files = .ok tools)
    (planned : request.plan files.workingDir = (jobs, none)) {schedule : Nat → List Nat}
    {fault : CompileFault} :
    let last := (Progression.start files jobs).follow request tools (schedule jobs.length)
    last.crash? = some fault → runBy schedule request files = .crashed fault last.site := by
  intro last crashed
  simp only [runBy, prepared, planned, show (Progression.follow ..).crash? = _ from crashed]
  rfl

end Minilang.Build
