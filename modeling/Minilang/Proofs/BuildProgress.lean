import Mathlib.Data.List.Nodup
import Mathlib.Data.List.TakeDrop
import Minilang.Build.Progress
import Minilang.Proofs.BuildSchedules

/-! What a build tells about its jobs. Each job is queued, works through stages in order and ends
once, done or with its fault, whatever the schedule. A view that is fed with these reports agrees
with the outcome, in whatever order the reports of different jobs come. -/

namespace Minilang.Build

namespace Site

variable (site : Site)

@[simp] theorem events_progress (event : Event) :
    (site.progress event).events = site.events ++ [event] := by
  simp [progress, report, events]

@[simp] theorem events_trace (activities : List Trace.Activity) :
    (site.trace activities).events = site.events := by
  simp [trace, events, List.filterMap_map]

@[simp] theorem events_reach (stage : Stage) : (site.reach stage).events = site.events := by
  unfold reach
  split <;> rfl

@[simp] theorem events_output (text : Bytes) :
    (site.report (.output text)).events = site.events := by
  simp [report, events]

end Site

namespace Linking

variable {α β : Type}

/-- Work on a site during which nothing is reported on a file. -/
def Silent (work : StateM Site α) : Prop :=
  ∀ site : Site, (work.run site).2.events = site.events

theorem silent_pure (value : α) : Silent (pure value : StateM Site α) := fun _ => rfl

theorem Silent.bind {work : StateM Site α} {next : α → StateM Site β} (first : Silent work)
    (rest : ∀ value, Silent (next value)) : Silent (work >>= next) :=
  fun site => (rest _ _).trans (first site)

/-- Work that begins by looking at the site. -/
theorem silent_get {next : Site → StateM Site β}
    (rest : ∀ site : Site, ((next site).run site).2.events = site.events) :
    Silent (get >>= next) := rest

theorem silent_put (request : Request) (text : Bytes) : Silent (put request text) := by
  intro site
  unfold put
  split
  · rfl
  split
  · rfl
  · exact site.events_output text

theorem silent_machine (request : Request) (clang : Bytes) : Silent (machine request clang) := by
  unfold machine
  refine silent_get fun site => ?_
  split
  · rfl
  split <;> rfl

/-- Likewise for work that may fail. -/
def Quiet (work : Linking α) : Prop := Silent work.run

theorem quiet_throw (fault : LinkFault) : Quiet (throw fault : Linking α) := fun _ => rfl

theorem quiet_pure (value : α) : Quiet (pure value : Linking α) := fun _ => rfl

theorem quiet_ite {condition : Prop} [Decidable condition] {yes no : Linking α} (first : Quiet yes)
    (second : Quiet no) : Quiet (if condition then yes else no) := by
  split
  · exact first
  · exact second

theorem quiet_get {next : Site → Linking β}
    (rest : ∀ site : Site, ((next site).run.run site).2.events = site.events) :
    Quiet (get >>= next) := rest

theorem Quiet.bind {work : Linking α} {next : α → Linking β} (first : Quiet work)
    (rest : ∀ value, Quiet (next value)) : Quiet (work >>= next) := by
  rw [Quiet, ExceptT.run_bind]
  refine Silent.bind first fun result => ?_
  cases result with
  | ok value => exact rest value
  | error fault => exact silent_pure _

theorem Quiet.catch {work : Linking α} {handle : LinkFault → Linking α} (first : Quiet work)
    (rest : ∀ fault, Quiet (handle fault)) : Quiet (tryCatch work handle) := by
  change Silent (ExceptT.tryCatch work handle).run
  rw [ExceptT.tryCatch, ExceptT.run_mk]
  refine Silent.bind first fun result => ?_
  cases result with
  | ok value => exact silent_pure _
  | error fault => exact rest fault

theorem Silent.quiet {work : StateM Site α} (silent : Silent work) : Quiet (work : Linking α) :=
  silent

/-- Work on a site that takes the place of another with the same reports. -/
theorem quiet_set {site other : Site} {next : PUnit → Linking β} (same : other.events = site.events)
    (rest : Quiet (next ⟨⟩)) : (((set other >>= next : Linking β).run).run site).2.events =
      site.events :=
  (rest other).trans same

theorem quiet_command (request : Request) (command : ToolCommand) :
    Quiet (Linking.command request command) := by
  unfold Linking.command
  -- the command may be printed, and whether it was or not the same work is left
  refine quiet_ite ((silent_put request _).quiet.bind fun reason => ?_) ?_
  cases reason
  all_goals try refine (quiet_throw _).bind fun _ => ?_
  all_goals
    refine quiet_get fun site => ?_
    dsimp only
    split
    · rfl
    split
    · rfl
    next run _ =>
      refine quiet_set rfl ((silent_put request run.out).quiet.bind fun unwritten => ?_)
      split
      · exact quiet_pure ()
      · exact quiet_throw _

theorem quiet_link (request : Request) (tools : Toolchain) (code executable : Bytes) :
    Quiet (link request tools code executable) := by
  unfold link
  refine (quiet_command request _).catch fun first => ?_
  split
  · exact quiet_throw _
  next llc _ =>
    refine (silent_machine request _).quiet.bind fun triple => ?_
    refine ((quiet_command request _).catch fun _ => quiet_throw _).bind fun _ => ?_
    refine quiet_ite (Quiet.bind ?_ fun _ => quiet_command request _) (quiet_command request _)
    exact (silent_put request _).quiet.bind fun _ => quiet_pure ()

end Linking

namespace Job

variable {job : Job}

/-- Reports that a job is at work, in stages that are passed in the order of a list, each at most
once. -/
structure Works (job : Job) (stages : List Stage) (events : List Event) : Prop where
  own : ∀ event ∈ events, event.file = job.name ∧ event.status = some .working ∧
    event.fault = none
  ordered : ∃ passed : List Stage, passed.Sublist stages ∧ events.map Event.stage = passed.map some

/-- All reports on a job that is over: it is queued, works through stages in order, and ends done
or with its fault. -/
def Told (job : Job) (state : JobState) (events : List Event) : Prop :=
  ∃ middle last, events = job.queued :: (middle ++ [last]) ∧ job.Works Stage.all middle ∧
    last.file = job.name ∧
    last.status = some (if state.fault?.isSome then .error else .done) ∧
    last.fault = state.fault?.map JobFault.message

/-- The reports on a job so far. -/
def Reported (job : Job) : JobState → List Event → Prop
  | .waiting, events => events = [job.queued]
  | .compiled _, events | .kept _, events | .crashed _, events =>
      ∃ middle, events = job.queued :: middle ∧ job.Works [.parse, .prepass, .codegen] middle
  | .written _, events =>
      ∃ middle, events = job.queued :: middle ∧
        job.Works [.parse, .prepass, .codegen, .write] middle
  | state, events => job.Told state events

theorem Works.nil (stages : List Stage) : job.Works stages [] :=
  ⟨fun _ member => absurd member List.not_mem_nil, [], List.nil_sublist _, rfl⟩

theorem Works.append {first second : List Stage} {events more : List Event}
    (works : job.Works first events) (later : job.Works second more) :
    job.Works (first ++ second) (events ++ more) where
  own event member := (List.mem_append.mp member).elim (works.own event) (later.own event)
  ordered := by
    obtain ⟨passed, sub, same⟩ := works.ordered
    obtain ⟨passed', sub', same'⟩ := later.ordered
    refine ⟨passed ++ passed', sub.append sub', ?_⟩
    rw [List.map_append, List.map_append, same, same']

theorem Works.mono {stages more : List Stage} {events : List Event}
    (works : job.Works stages events) (sub : stages.Sublist more) : job.Works more events :=
  ⟨works.own, works.ordered.imp fun _ passed => ⟨passed.1.trans sub, passed.2⟩⟩

theorem works_event (stage : Stage) (cached : Bool) :
    job.Works [stage] [{ job.event stage .working with cached }] where
  own event member := by
    rw [List.mem_singleton.mp member]
    exact ⟨rfl, rfl, rfl⟩
  ordered := ⟨[stage], List.Sublist.refl _, rfl⟩

theorem events_work (phases : List Phase) (site : Site) :
    (job.work phases site).events =
      site.events ++ phases.map fun phase => job.event (.ofPhase phase) .working := by
  unfold work
  induction phases generalizing site with
  | nil => simp
  | cons phase phases ih => simp [ih]

/-- The phases of a compilation come in order. -/
theorem phases_ordered (sources : SourceSet) (file : SourceFile) (options : CompileOptions)
    (cancelled : Bool) : (Minilang.compile sources file options cancelled).phases.Sublist
      [.parse, .prepass, .codegen] := by
  unfold Minilang.compile
  split
  · exact List.nil_sublist _
  split
  · exact List.nil_sublist _
  dsimp only
  split
  · exact (List.nil_sublist _).cons_cons _
  split
  · exact (List.nil_sublist _).cons_cons _
  split <;> exact List.Sublist.refl _

theorem works_phases {phases : List Phase} (ordered : phases.Sublist [.parse, .prepass, .codegen]) :
    job.Works [.parse, .prepass, .codegen]
      (phases.map fun phase => job.event (.ofPhase phase) .working) where
  own event member := by
    obtain ⟨phase, -, rfl⟩ := List.mem_map.mp member
    exact ⟨rfl, rfl, rfl⟩
  ordered := ⟨phases.map Stage.ofPhase, ordered.map Stage.ofPhase, by
    rw [List.map_map, List.map_map]
    rfl⟩

/-- What a job may add to the reports: its own, that fit those so far. -/
def Adds (job : Job) (site : Site) (events : List Event) (result : JobState × Site) : Prop :=
  ∃ added, result.2.events = site.events ++ added ∧ (∀ event ∈ added, event.file = job.name) ∧
    job.Reported result.1 (events ++ added)

/-- A job ends after it has worked some more. -/
theorem over_adds {site between : Site} {state : JobState} {last : Event}
    {before middle : List Event} (works : job.Works Stage.all (before ++ middle))
    (reports : between.events = site.events ++ middle)
    (ended : ∀ events, job.Told state events → job.Reported state events)
    (name : last.file = job.name)
    (status : last.status = some (if state.fault?.isSome then .error else .done))
    (fault : last.fault = state.fault?.map JobFault.message) :
    job.Adds site (job.queued :: before) (state, between.progress last) := by
  refine ⟨middle ++ [last], ?_, fun event member => ?_, ended _ ⟨before ++ middle, last, ?_, works,
    name, status, fault⟩⟩
  · rw [Site.events_progress, reports, List.append_assoc]
  · rcases List.mem_append.mp member with inside | same
    · exact (works.own event (List.mem_append_right _ inside)).1
    · rw [List.mem_singleton.mp same, name]
  · rw [List.cons_append, List.append_assoc]

theorem fail_adds {site between : Site} {before middle : List Event} (stage : Stage)
    (compilation : Option Compilation) (fault : JobFault)
    (works : job.Works Stage.all (before ++ middle))
    (reports : between.events = site.events ++ middle) :
    job.Adds site (job.queued :: before) (job.fail stage compilation fault between) :=
  over_adds works reports (fun _ => id) rfl rfl rfl

theorem finish_adds {site between : Site} {before middle : List Event} (stage : Stage)
    (compilation : Compilation) (executable : Option Bytes)
    (works : job.Works Stage.all (before ++ middle))
    (reports : between.events = site.events ++ middle) :
    job.Adds site (job.queued :: before) (job.finish stage compilation executable between) :=
  over_adds works reports (fun _ => id) rfl rfl rfl

theorem compile_adds (request : Request) (site : Site) :
    job.Adds site [job.queued] (job.compile request site) := by
  unfold Job.compile
  split
  · exact fail_adds _ _ _ (.nil _) (List.append_nil _).symm
  next sources file loaded =>
    dsimp only
    split
    next => exact ⟨[], by simp, fun _ member => absurd member List.not_mem_nil, [], rfl, .nil _⟩
    next =>
      generalize done : Minilang.compile sources file request.options _ = made
      have works : job.Works [.parse, .prepass, .codegen]
          (made.phases.map fun phase => job.event (.ofPhase phase) .working) :=
        works_phases (done ▸ phases_ordered sources file request.options _)
      have early : [Stage.parse, .prepass, .codegen].Sublist Stage.all := by decide
      split
      · split
        · refine ⟨_, by simp [events_work], ?_, _, rfl, works⟩
          exact fun event member => (works.own event member).1
        · exact fail_adds _ _ _ (works.mono early) (by simp [events_work])
      · split
        · refine ⟨_, by simp [events_work], ?_, _, rfl, works⟩
          exact fun event member => (works.own event member).1
        · exact fail_adds _ _ _ (works.mono early) (by simp [events_work])

theorem keep_adds (request : Request) (compilation : Compilation) {site : Site}
    {events : List Event} (reported : job.Reported (.compiled compilation) events) :
    job.Adds site events (keep request compilation site) := by
  have kept : (keep request compilation site).1 = .kept compilation ∧
      (keep request compilation site).2.events = site.events := by
    unfold keep
    split
    · exact ⟨rfl, rfl⟩
    · exact ⟨rfl, Site.events_trace _ _⟩
  refine ⟨[], by rw [kept.2, List.append_nil], fun _ member => absurd member List.not_mem_nil, ?_⟩
  rw [kept.1, List.append_nil]
  exact reported

theorem write_adds (request : Request) (compilation : Compilation) {site : Site}
    {events : List Event} (reported : job.Reported (.kept compilation) events) :
    job.Adds site events (job.write request compilation site) := by
  obtain ⟨before, rfl, works⟩ := reported
  have writes := works.append (works_event .write compilation.cached)
  have early : [Stage.parse, .prepass, .codegen, .write].Sublist Stage.all := by decide
  unfold Job.write
  dsimp only
  split
  · exact fail_adds _ _ _ (writes.mono early) (site.events_progress _)
  · split
    · refine ⟨_, (Site.events_reach _ _).trans (site.events_progress _), ?_, _, rfl, writes⟩
      exact fun event member => (writes.own event (List.mem_append_right _ member)).1
    · exact finish_adds _ _ _ (writes.mono early)
        ((Site.events_reach _ _).trans (site.events_progress _))

theorem link_adds (request : Request) (tools : Toolchain) (compilation : Compilation) {site : Site}
    {events : List Event} (reported : job.Reported (.written compilation) events) :
    job.Adds site events (job.link request tools compilation site) := by
  obtain ⟨before, rfl, works⟩ := reported
  have links := works.append (works_event .link false)
  have quiet := Linking.quiet_link request tools job.output (executablePath job.output)
    (site.progress (job.event .link .working))
  unfold Job.link
  dsimp only
  split
  next fault after ran =>
    rw [ran] at quiet
    exact fail_adds _ _ _ links (quiet.trans (site.events_progress _))
  next after ran =>
    rw [ran] at quiet
    exact finish_adds _ _ _ links
      ((Site.events_reach _ _).trans (quiet.trans (site.events_progress _)))

/-- Whatever step a job takes, it adds reports that fit those so far. -/
theorem step_adds {request : Request} (calm : request.interruptAfter = none)
    (tools : Option Toolchain) {state : JobState} (site : Site) {events : List Event}
    (reported : job.Reported state events) :
    job.Adds site events (job.step request tools state site) := by
  have stays : job.Adds site events (state, site) :=
    ⟨[], (List.append_nil _).symm, fun _ member => absurd member List.not_mem_nil,
      by rwa [List.append_nil]⟩
  cases state with
  | waiting =>
    have going : request.isInterrupted site = false := by rw [Request.isInterrupted, calm]
    have first : events = [job.queued] := reported
    rw [first, Job.step, going]
    exact compile_adds request site
  | compiled compilation => exact keep_adds request compilation reported
  | kept compilation => exact write_adds request compilation reported
  | written compilation =>
    cases tools with
    | none => exact stays
    | some tools => exact link_adds request tools compilation reported
  | done | failed | crashed => exact stays

end Job

namespace Progression

variable {request : Request} {tools : Option Toolchain} {jobs : List Job} {state : Progression}

/-- The reports on a file so far. -/
def reportsOn (state : Progression) (name : Bytes) : List Event :=
  state.site.events.filter (·.file = name)

/-- All reports are on jobs, and those on each job fit its state. -/
structure Orderly (jobs : List Job) (state : Progression) : Prop where
  planned : state.jobs.map Prod.fst = jobs
  known : ∀ event ∈ state.site.events, event.file ∈ jobs.map Job.name
  reported : ∀ (index : Nat) (job : Job) (jobState : JobState),
    state.jobs[index]? = some (job, jobState) →
      job.Reported jobState (state.reportsOn job.name)

/-- Jobs at different places have different names. -/
theorem names_differ (distinct : (jobs.map Job.name).Nodup)
    (planned : state.jobs.map Prod.fst = jobs) {index other : Nat} {job twin : Job}
    {jobState twinState : JobState} (here : state.jobs[index]? = some (job, jobState))
    (there : state.jobs[other]? = some (twin, twinState)) (apart : index ≠ other) :
    job.name ≠ twin.name := by
  intro same
  have name : ∀ place : Nat, (jobs.map Job.name)[place]? =
      state.jobs[place]?.map fun entry => entry.1.name := by
    intro place
    rw [← planned, List.map_map, List.getElem?_map]
    rfl
  have inside : index < (jobs.map Job.name).length := by
    rw [← planned, List.length_map, List.length_map]
    exact (List.getElem?_eq_some_iff.mp here).1
  refine apart ((List.getElem?_inj inside distinct).mp ?_)
  rw [name, name, here, there]
  exact congrArg some same

theorem orderly_advance (calm : request.interruptAfter = none)
    (distinct : (jobs.map Job.name).Nodup) (orderly : state.Orderly jobs) (number : Nat) :
    (state.advance request tools number).Orderly jobs := by
  have planned := (planned_advance request tools number).trans orderly.planned
  cases here : state.jobs[number]? with
  | none =>
    have same : state.advance request tools number = state := by rw [advance, here]
    rwa [same]
  | some entry =>
    obtain ⟨job, jobState⟩ := entry
    obtain ⟨added, events, own, reported⟩ :=
      Job.step_adds calm tools state.site (orderly.reported number job jobState here)
    have site : (state.advance request tools number).site =
        (job.step request tools jobState state.site).2 := by rw [advance, here]
    have known : job.name ∈ jobs.map Job.name := by
      rw [← orderly.planned]
      exact List.mem_map_of_mem (List.mem_map_of_mem (List.mem_of_getElem? here))
    refine ⟨planned, fun event member => ?_, fun index twin twinState there => ?_⟩
    · rw [site, events] at member
      rcases List.mem_append.mp member with old | new
      · exact orderly.known event old
      · rw [own event new]
        exact known
    · rw [reportsOn, site, events, List.filter_append]
      by_cases same : index = number
      · subst same
        rw [jobs_advance request tools index index here, if_pos rfl] at there
        cases there
        have all : added.filter (·.file = job.name) = added :=
          List.filter_eq_self.mpr fun event member => by simpa using own event member
        rw [all]
        exact reported
      · have old : state.jobs[index]? = some (twin, twinState) := by
          cases before : state.jobs[index]? with
          | none =>
            have short := List.getElem?_eq_none_iff.mp before
            rw [List.getElem?_eq_none (by rw [length_advance]; exact short)] at there
            cases there
          | some entry =>
            rw [jobs_advance request tools number index before, if_neg (Ne.symm same)] at there
            exact there
        have other := names_differ distinct orderly.planned old here same
        have none_ : added.filter (·.file = twin.name) = [] := by
          refine List.filter_eq_nil_iff.mpr fun event member => ?_
          rw [own event member]
          simpa using Ne.symm other
        rw [none_, List.append_nil]
        exact orderly.reported index twin twinState old

theorem orderly_follow (calm : request.interruptAfter = none) (tools : Option Toolchain)
    (distinct : (jobs.map Job.name).Nodup) (orderly : state.Orderly jobs) (schedule : List Nat) :
    (state.follow request tools schedule).Orderly jobs :=
  follow_induction orderly (fun number _ orderly => orderly_advance calm distinct orderly number)
    schedule

theorem events_start (files : Files) (jobs : List Job) :
    (start files jobs).site.events = jobs.map Job.queued := by
  have announced : ∀ site : Site,
      (jobs.foldl (fun site job => site.progress job.queued) site).events =
        site.events ++ jobs.map Job.queued := by
    induction jobs with
    | nil => simp
    | cons job jobs ih => simp [ih]
  exact announced { files }

theorem filter_name {job : Job} (distinct : (jobs.map Job.name).Nodup) (member : job ∈ jobs) :
    jobs.filter (·.name = job.name) = [job] := by
  induction jobs with
  | nil => cases member
  | cons first rest ih =>
    rw [List.map_cons, List.nodup_cons] at distinct
    rcases List.mem_cons.mp member with rfl | later
    · have none_ : rest.filter (·.name = job.name) = [] := by
        refine List.filter_eq_nil_iff.mpr fun other inside => ?_
        simp only [decide_eq_true_eq]
        exact fun same => distinct.1 (same ▸ List.mem_map_of_mem inside)
      rw [List.filter_cons_of_pos (by simp), none_]
    · have other : first.name ≠ job.name := fun same =>
        distinct.1 (same ▸ List.mem_map_of_mem later)
      rw [List.filter_cons_of_neg (by simpa using other), ih distinct.2 later]

theorem orderly_start (files : Files) (distinct : (jobs.map Job.name).Nodup) :
    (start files jobs).Orderly jobs := by
  refine ⟨planned_start files jobs, fun event member => ?_, fun index job jobState here => ?_⟩
  · rw [events_start] at member
    obtain ⟨job, inside, rfl⟩ := List.mem_map.mp member
    exact List.mem_map_of_mem inside
  · simp only [start, List.getElem?_map, Option.map_eq_some_iff, Prod.mk.injEq] at here
    obtain ⟨_, found, rfl, rfl⟩ := here
    rw [reportsOn, events_start, List.filter_map]
    exact congrArg (List.map Job.queued) (filter_name distinct (List.mem_of_getElem? found))

end Progression

namespace Progress

/-- The label that reports leave on the row of their file. -/
def labelAfter (label : Label) (events : List Event) : Label :=
  events.foldl (fun label event => (Label.ofEvent? event).getD label) label

/-- Where names are distinct, the last row of a name is the only one. -/
theorem updateLast_eq {name : Bytes} {change : Row → Row} {rows : List Row}
    (distinct : (rows.map Row.name).Nodup) :
    updateLast name change rows =
      rows.map fun row => if row.name = name then change row else row := by
  have others : ∀ part : List Row, name ∉ part.map Row.name →
      (part.map fun row => if row.name = name then change row else row) = part ∧
        ∀ row ∈ part.reverse, (row.name != name) = true := by
    intro part absent
    have differ : ∀ row ∈ part, row.name ≠ name :=
      fun row member same => absent (same ▸ List.mem_map_of_mem member)
    refine ⟨(List.map_congr_left fun row member => if_neg (differ row member)).trans
      (List.map_id _), fun row member => ?_⟩
    exact bne_iff_ne.mpr (differ row (List.mem_reverse.mp member))
  unfold updateLast
  rw [List.span_eq_takeWhile_dropWhile]
  by_cases member : name ∈ rows.map Row.name
  · obtain ⟨row, inside, rfl⟩ := List.mem_map.mp member
    obtain ⟨before, after, rfl⟩ := List.append_of_mem inside
    rw [List.map_append, List.map_cons, List.nodup_middle, List.nodup_cons, ← List.map_append,
      List.map_append, List.mem_append, not_or] at distinct
    obtain ⟨same, -⟩ := others before distinct.1.1
    obtain ⟨same', passes⟩ := others after distinct.1.2
    rw [List.reverse_append, List.reverse_cons, List.append_assoc,
      List.takeWhile_append_of_pos passes, List.dropWhile_append_of_pos passes,
      List.map_append, List.map_cons, same, same']
    simp
  · obtain ⟨same, passes⟩ := others rows member
    rw [same, List.dropWhile_eq_nil_iff.mpr passes]

/-- The names of the rows with their labels. -/
def labels (progress : Progress) : List (Bytes × Label) :=
  progress.rows.map fun row => (row.name, row.label)

theorem labels_apply {progress : Progress} {names : List Bytes} {labelOf : Bytes → Label}
    (distinct : names.Nodup) (shown : progress.labels = names.map fun name => (name, labelOf name))
    (event : Event) :
    (progress.apply event).labels = names.map fun name =>
      (name, if name = event.file then (Label.ofEvent? event).getD (labelOf name)
        else labelOf name) := by
  have rows : (progress.rows.map Row.name).Nodup := by
    have same : progress.rows.map Row.name = progress.labels.map Prod.fst := by
      rw [labels, List.map_map]
      rfl
    rw [same, shown, List.map_map]
    exact (List.map_id _).symm ▸ distinct
  have relabelled : (progress.apply event).labels = progress.labels.map fun entry =>
      (entry.1, if entry.1 = event.file then (Label.ofEvent? event).getD entry.2
        else entry.2) := by
    unfold apply
    cases Label.ofEvent? event with
    | none =>
      simp only [Option.getD_none, ite_self]
      exact (List.map_id _).symm
    | some label =>
      simp only [labels, updateLast_eq rows, List.map_map]
      refine List.map_congr_left fun row _ => ?_
      by_cases same : row.name = event.file <;> simp [same]
  rw [relabelled, shown, List.map_map]
  rfl

theorem labels_fold {progress : Progress} {names : List Bytes} {labelOf : Bytes → Label}
    (distinct : names.Nodup) (shown : progress.labels = names.map fun name => (name, labelOf name))
    (stream : List Event) :
    (stream.foldl apply progress).labels = names.map fun name =>
      (name, labelAfter (labelOf name) (stream.filter (·.file = name))) := by
  induction stream generalizing progress labelOf with
  | nil => exact shown
  | cons event stream ih =>
    rw [List.foldl_cons, ih (labels_apply distinct shown event)]
    refine List.map_congr_left fun name _ => ?_
    rw [List.filter_cons]
    by_cases same : event.file = name
    · rw [if_pos same.symm, if_pos (by simpa using same)]
      rfl
    · rw [if_neg (Ne.symm same), if_neg (by simpa using same)]

end Progress

/-- What the reports on a job that is over leave on its row. -/
theorem Job.Told.label {job : Job} {state : JobState} {events : List Event}
    (told : job.Told state events) (label : Label) :
    let last := Progress.labelAfter label events
    last.isFinished = true ∧ last.isOk = state.fault?.isNone ∧
      decide (last = .error) = state.fault?.isSome := by
  obtain ⟨middle, last, rfl, -, -, status, -⟩ := told
  dsimp only
  rw [← List.cons_append, Progress.labelAfter, List.foldl_append, List.foldl_cons, List.foldl_nil,
    Label.ofEvent?, status]
  cases state.fault? with
  | none => cases last.cached <;> exact ⟨rfl, rfl, rfl⟩
  | some fault => exact ⟨rfl, rfl, rfl⟩

theorem distinctNeighbours_of_nodup {names : List Bytes} (distinct : names.Nodup) :
    distinctNeighbours names = names := by
  fun_induction distinctNeighbours names with
  | case1 name rest ih => exact absurd distinct (by simp)
  | case2 name next rest differ ih => rw [ih (List.nodup_cons.mp distinct).2]
  | case3 => rfl

/-- Files with names that differ have a row each. -/
theorem displayNames_perm {workingDir base : Bytes} {files : List Bytes}
    (named : ∀ file ∈ files, file ≠ [])
    (distinct : (files.map (displayName workingDir base)).Nodup) :
    (displayNames workingDir base files).Perm (files.map (displayName workingDir base)) := by
  have all : files.filter (!·.isEmpty) = files :=
    List.filter_eq_self.mpr fun file member => by simpa using named file member
  unfold displayNames
  rw [all]
  have sorted := List.mergeSort_perm (files.map (displayName workingDir base))
    fun x y => !Bytes.before y x
  rwa [distinctNeighbours_of_nodup (sorted.nodup_iff.mpr distinct)]

theorem Job.Reported.told {job : Job} {state : JobState} {events : List Event}
    (reported : job.Reported state events) (ended : state.isOver = true)
    (running : state.crash? = none) : job.Told state events := by
  cases state with
  | done => exact reported
  | failed => exact reported
  | crashed => cases running
  | waiting | compiled | kept | written => cases ended

/-- A view with a row for each of some jobs that are over agrees with them. -/
theorem Progress.view_agrees {entries : List (Job × JobState)} {names : List Bytes}
    {stream : List Event} (distinct : names.Nodup)
    (rows : names.Perm (entries.map fun entry => entry.1.name))
    (told : ∀ entry ∈ entries, entry.1.Told entry.2 (stream.filter (·.file = entry.1.name)))
    (title : Bytes) :
    let view := stream.foldl Progress.apply (.ofFiles title names)
    (∀ row ∈ view.rows, row.label.isFinished = true) ∧
      view.ok = entries.countP (fun entry => entry.2.fault?.isNone) ∧
      view.failed = entries.countP fun entry => entry.2.fault?.isSome := by
  intro view
  have start : (Progress.ofFiles title names).labels = names.map fun name => (name, .queued) := by
    simp [Progress.labels, Progress.ofFiles]
  have shown : view.labels = names.map fun name =>
      (name, Progress.labelAfter .queued (stream.filter (·.file = name))) :=
    Progress.labels_fold distinct start stream
  have told := fun entry member => (told entry member).label .queued
  -- a count over rows is a count over names, and so over jobs
  have count : ∀ test : Label → Bool, view.rows.countP (fun row => test row.label) =
      entries.countP fun entry =>
        test (Progress.labelAfter .queued (stream.filter (·.file = entry.1.name))) := by
    intro test
    calc view.rows.countP (fun row => test row.label)
        = view.labels.countP (fun entry => test entry.2) := by
          rw [Progress.labels, List.countP_map]
          rfl
      _ = names.countP fun name =>
            test (Progress.labelAfter .queued (stream.filter (·.file = name))) := by
          rw [shown, List.countP_map]
          rfl
      _ = _ := by
          rw [rows.countP_eq, List.countP_map]
          rfl
  refine ⟨fun row member => ?_, ?_, ?_⟩
  · have label : (row.name, row.label) ∈ view.labels := List.mem_map_of_mem member
    rw [shown] at label
    obtain ⟨name, inside, same⟩ := List.mem_map.mp label
    obtain ⟨entry, known, rfl⟩ := List.mem_map.mp (rows.mem_iff.mp inside)
    rw [← (Prod.mk.inj same).2]
    exact (told entry known).1
  · rw [Progress.ok, count]
    exact List.countP_congr fun entry member => by rw [(told entry member).2.1]
  · rw [Progress.failed, count fun label => decide (label = .error)]
    exact List.countP_congr fun entry member => by rw [(told entry member).2.2]

/-- A directory with a program and a slip of the pen. -/
def workshop : Files :=
  { entries := [(["a.mini"], .file "print 6 * 7;"), (["s"], .directory),
      (["s", "b.mini"], .file "print 6 */ 7;")] }

/-- Three files, of which one is missing. -/
def threeFiles : Request := { files := ["a.mini", "s/b.mini", "./c.mini"], base := "." }

end Minilang.Build
