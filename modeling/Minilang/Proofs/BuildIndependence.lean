import Minilang.Proofs.ArtefactPlacement
import Minilang.Proofs.BuildSchedules
import Minilang.Proofs.UndefinedReferences

/-! The outcome of a build does not depend on its schedule. What a step of a job does is decided by
the tree the build began with, as long as the other jobs write elsewhere: it has the same result and
makes the same change in every tree they leave. So a schedule only decides in which order the same
changes are made. -/

namespace Minilang.Build

namespace Job

/-- The placement that a job is at in a state. -/
def placement? (request : Request) (job : Job) : JobState → Option Placement
  | .compiled compilation =>
      request.store.map (·.placement (Cache.key compilation.file request.options))
  | .kept _ => some job.placement
  | _ => none

/-- How the entry of a job gets into the store, if there is one and the source can be read. -/
def stored? (request : Request) (files : Files) (job : Job) : Option Placement :=
  request.store.bind fun store => (loadFile files job.path).toOption.map fun loaded =>
    store.placement (Cache.key loaded.2 request.options)

structure Sees (request : Request) (files : Files) (job : Job) (other : Files) : Prop where
  source : other.read job.path = files.read job.path
  entry : ∀ placement, job.stored? request files = some placement → ∀ content,
    other.read placement.goal = .ok content ↔ files.read placement.goal = .ok content

end Job

theorem find_unread {store : Cache.Store} {files : Files} (sources : SourceSet) {file : SourceFile}
    {options : CompileOptions} {fault : FileFault}
    (unread : files.read (store.entryPath (Cache.key file options)) = .error fault) :
    (store.find files sources file options).1 = none := by
  simp only [Cache.Store.find, Cache.Store.get, unread]
  by_cases missing : fault.isNotFound = true
  · rw [if_pos missing]
  · rw [if_neg missing]

/-- What a store gives depends on whether the entry can be read and what is in it. -/
theorem find_congr {store : Cache.Store} {files other : Files} (sources : SourceSet)
    {file : SourceFile} {options : CompileOptions}
    (same : ∀ content, other.read (store.entryPath (Cache.key file options)) = .ok content ↔
      files.read (store.entryPath (Cache.key file options)) = .ok content) :
    (store.find other sources file options).1 = (store.find files sources file options).1 := by
  cases here : files.read (store.entryPath (Cache.key file options)) with
  | ok content =>
    simp only [Cache.Store.find, Cache.Store.get, here, (same content).mpr here]
  | error fault =>
    cases there : other.read (store.entryPath (Cache.key file options)) with
    | ok content =>
      rw [(same content).mp there] at here
      cases here
    | error again => rw [find_unread sources here, find_unread sources there]

namespace Job

theorem compile_sees {request : Request} (uninterrupted : request.interruptAfter = none) {job : Job}
    {site : Site} (home : Site) (sees : job.Sees request home.files site.files) :
    (job.compile request site).1 = (job.compile request home).1 ∧
      (job.compile request site).2.files = site.files := by
  have idle : ∀ site : Site, request.isInterrupted site = false := by
    intro site
    rw [Request.isInterrupted, uninterrupted]
  have source : loadFile site.files job.path = loadFile home.files job.path := by
    rw [loadFile, loadFile, sees.source]
  unfold compile
  rw [source]
  cases loaded : loadFile home.files job.path with
  | error fault => exact ⟨rfl, rfl⟩
  | ok pair =>
    obtain ⟨sources, file⟩ := pair
    dsimp only
    rcases kept : request.store with _ | store
    on_goal 2 =>
      have same := find_congr sources (sees.entry _ (by rw [stored?, kept, loaded]; rfl))
      dsimp only
      generalize store.find site.files sources file request.options = searched at same ⊢
      generalize store.find home.files sources file request.options = other at same ⊢
      obtain ⟨found, one⟩ := searched
      obtain ⟨again, two⟩ := other
      cases same
      rcases found with _ | compilation
      on_goal 2 => exact ⟨rfl, rfl⟩
    -- Without an entry the source is compiled, whatever was noted on the search.
    all_goals
      dsimp only
      rw [idle, idle]
      cases (Minilang.compile sources file request.options false).outcome with
      | error fault =>
        dsimp only
        split
        · exact ⟨rfl, by simp⟩
        · exact ⟨rfl, by simp [fail]⟩
      | ok compilation =>
        dsimp only
        split
        · exact ⟨rfl, by simp⟩
        · exact ⟨rfl, by simp [fail]⟩

/-- In every tree in which nothing has happened that concerns a job, a step has one result and makes
one change. -/
structure Uniform (request : Request) (files : Files) (job : Job) (state : JobState)
    (change : Files.Change) : Prop where
  confined : ∀ placement, job.placement? request state = some placement →
    placement.Confined files change
  idle : job.placement? request state = none → ∀ here, change here = none
  course : ∀ site : Site, (state = .waiting → job.Sees request files site.files) →
    (∀ placement, job.placement? request state = some placement →
      placement.Alike files site.files) →
    (job.step request none state site).1 = (job.step request none state { files }).1 ∧
      site.files.Changed (job.step request none state site).2.files change

theorem exists_uniform {request : Request} (unlinked : request.link = false)
    (uninterrupted : request.interruptAfter = none) {files : Files} (sound : files.Sound)
    {job : Job} {base : Location} {names : List Bytes} {first last : Bytes}
    (route : job.placement.Route files base names first last) (state : JobState) :
    ∃ change, job.Uniform request files state change := by
  cases state with
  | waiting =>
    have idle : ∀ site : Site, job.step request none .waiting site = job.compile request site := by
      intro site
      rw [step, Request.isInterrupted, uninterrupted]
      rfl
    refine ⟨fun _ => none, by simp [placement?], fun _ _ => rfl, fun site sees _ => ?_⟩
    obtain ⟨state, same⟩ := compile_sees uninterrupted { files } (sees rfl)
    rw [idle, idle, same]
    exact ⟨state, .none _⟩
  | compiled compilation =>
    cases kept : request.store with
    | none =>
      have nothing : job.placement? request (.compiled compilation) = none := by
        rw [placement?, kept]
        rfl
      refine ⟨fun _ => none, by simp [nothing], fun _ _ => rfl, fun site _ _ => ?_⟩
      rw [step, step, keep, keep, kept]
      exact ⟨rfl, .none _⟩
    | some store =>
      have there : job.placement? request (.compiled compilation) =
          some (store.placement (Cache.key compilation.file request.options)) := by
        rw [placement?, kept]
        rfl
      obtain ⟨change, confined, course⟩ := store.keep_course sound request.options compilation
      refine ⟨change, ?_, by simp [there], fun site _ alike => ?_⟩
      · intro placement same
        rw [there] at same
        cases same
        exact confined
      · rw [step, step, keep, keep, kept]
        exact ⟨rfl, course _ (alike _ there)⟩
  | kept compilation =>
    obtain ⟨fault, change, confined, course⟩ :=
      writeArtefact_course sound route (compilation.code.getD [])
    refine ⟨change, ?_, by simp [placement?], fun site _ alike => ?_⟩
    · intro placement same
      cases same
      exact confined
    · obtain ⟨after, changed, done⟩ := course site.files (alike _ rfl)
      obtain ⟨home, -, alone⟩ := course files ⟨sound, rfl, fun _ _ => rfl, rfl, rfl⟩
      simp only [step, write, Site.files_progress, done, alone]
      cases fault with
      | some fault => exact ⟨rfl, changed⟩
      | none =>
        simp only [Option.elim_none, unlinked]
        exact ⟨rfl, by simpa [finish] using changed⟩
  | written compilation =>
    exact ⟨fun _ => none, by simp [placement?], fun _ _ => rfl, fun site _ _ => ⟨rfl, .none _⟩⟩
  | done compilation executable =>
    exact ⟨fun _ => none, by simp [placement?], fun _ _ => rfl, fun site _ _ => ⟨rfl, .none _⟩⟩
  | failed compilation fault =>
    exact ⟨fun _ => none, by simp [placement?], fun _ _ => rfl, fun site _ _ => ⟨rfl, .none _⟩⟩
  | crashed fault =>
    exact ⟨fun _ => none, by simp [placement?], fun _ _ => rfl, fun site _ _ => ⟨rfl, .none _⟩⟩

def stage (request : Request) (files : Files) (job : Job) : Nat → JobState
  | 0 => .waiting
  | count + 1 => (job.step request none (stage request files job count) { files }).1

theorem step_over (request : Request) (job : Job) {state : JobState} (ended : state.rank = 0)
    (site : Site) : job.step request none state site = (state, site) := by
  cases state with
  | done | failed | crashed => rfl
  | waiting | compiled | kept | written => cases ended

theorem placement?_over (request : Request) (job : Job) {state : JobState}
    (ended : state.rank = 0) : job.placement? request state = none := by
  cases state with
  | done | failed | crashed => rfl
  | waiting | compiled | kept | written => cases ended

section

variable {request : Request} (unlinked : request.link = false) (files : Files) (job : Job)

include unlinked

/-- Without linking, a step never waits for a tool. -/
theorem step_shrinks {state : JobState} (other : state.rank ≠ 1) (site : Site) :
    (job.step request none state site).1.rank ≤ state.rank - 1 ∧
      (job.step request none state site).1.rank ≠ 1 := by
  have ready : request.link = true → (none : Option Toolchain).isSome = true := by
    intro linked
    rw [unlinked] at linked
    cases linked
  obtain ⟨less, linking⟩ := job.step_rank ready site fun one => absurd one other
  exact ⟨less, fun one => by simpa using linking one⟩

theorem stage_rank (count : Nat) : (job.stage request files count).rank ≤ 4 - count ∧
    (job.stage request files count).rank ≠ 1 := by
  induction count with
  | zero => exact ⟨Nat.le_refl _, Nat.ne_of_beq_eq_false rfl⟩
  | succ count ih =>
    obtain ⟨less, other⟩ := step_shrinks unlinked job ih.2 { files }
    exact ⟨less.trans (by omega), other⟩

theorem stage_shrinks {count more : Nat} (later : count < more) :
    (job.stage request files more).rank ≤ (job.stage request files count).rank - 1 := by
  induction more, later using Nat.le_induction with
  | base => exact (step_shrinks unlinked job (stage_rank unlinked files job count).2 _).1
  | succ more later ih =>
    have less := (step_shrinks unlinked job (stage_rank unlinked files job more).2 { files }).1
    exact less.trans (by omega)

theorem stage_over {count : Nat} (enough : maxSteps ≤ count) :
    (job.stage request files count).rank = 0 := by
  have bound := (stage_rank unlinked files job count).1
  rw [maxSteps] at enough
  omega

theorem stage_stable {count : Nat} (enough : maxSteps ≤ count) :
    job.stage request files count = job.stage request files maxSteps := by
  induction count, enough using Nat.le_induction with
  | base => rfl
  | succ count enough ih =>
    rw [stage, step_over request job (stage_over unlinked files job enough)]
    exact ih

end

theorem compile_loaded {request : Request} {job : Job} {site : Site} {compilation : Compilation}
    (made : (job.compile request site).1 = .compiled compilation) :
    ∃ sources, loadFile site.files job.path = .ok (sources, compilation.file) := by
  unfold compile at made
  split at made
  · cases made
  · next sources file loaded =>
    refine ⟨sources, ?_⟩
    rw [loaded]
    dsimp only at made
    split at made
    · cases made
    · split at made
      · split at made <;> cases made
      · next result outcome =>
        split at made
        · cases made
          rw [(compile_result outcome).2]
        · cases made

theorem stage_loaded {request : Request} {files : Files} {job : Job} {count : Nat}
    {compilation : Compilation} (here : job.stage request files count = .compiled compilation) :
    ∃ sources, loadFile files job.path = .ok (sources, compilation.file) := by
  cases count with
  | zero => cases here
  | succ count =>
    rw [stage] at here
    cases before : job.stage request files count with
    | waiting =>
      rw [before, step] at here
      split at here
      · cases here
      · exact compile_loaded here
    | compiled old =>
      rw [before, step, keep] at here
      split at here <;> cases here
    | kept old =>
      rw [before, step, write] at here
      dsimp only at here
      split at here
      · cases here
      · split at here <;> cases here
    | written old =>
      rw [before] at here
      cases here
    | done old executable =>
      rw [before] at here
      cases here
    | failed old fault =>
      rw [before] at here
      cases here
    | crashed fault =>
      rw [before] at here
      cases here

/-- Where a job is at a placement: at that of its entry first, and then at that of its output. -/
theorem stage_placement {request : Request} {files : Files} {job : Job} {count : Nat}
    {placement : Placement}
    (here : job.placement? request (job.stage request files count) = some placement) :
    job.stored? request files = some placement ∧ (job.stage request files count).rank = 3 ∨
      job.placement = placement ∧ (job.stage request files count).rank = 2 := by
  cases state : job.stage request files count with
  | compiled compilation =>
    obtain ⟨sources, loaded⟩ := stage_loaded state
    rw [state, placement?] at here
    obtain ⟨store, kept, rfl⟩ := Option.map_eq_some_iff.mp here
    refine .inl ⟨?_, rfl⟩
    rw [stored?, kept, loaded]
    rfl
  | kept compilation =>
    rw [state] at here
    exact .inr ⟨Option.some.inj here, rfl⟩
  | waiting | written | done | failed | crashed =>
    rw [state] at here
    cases here

theorem stage_running {request : Request} {files : Files} {job : Job}
    (few : ¬ job.Overflows request files) (count : Nat) :
    (job.stage request files count).crash? = none := by
  induction count with
  | zero => rfl
  | succ count ih =>
    by_contra panics
    obtain ⟨fault, panics⟩ := Option.ne_none_iff_exists'.mp panics
    exact few (step_panics ih panics).1

def stores (request : Request) (files : Files) (job : Job) : List Bytes :=
  (job.stored? request files).toList.flatMap fun placement => [placement.goal, placement.draft]

end Job

/-- What the jobs of a build write is apart from what other jobs write, and from their sources. A
source may lie behind directories that are there from the start. -/
structure Request.Separate (request : Request) (files : Files) (jobs : List Job) : Prop where
  outputs : jobs.Pairwise fun job other => ∀ path ∈ job.writes false,
    ∀ place ∈ other.writes false, Location.Apart (files.target path) (files.target place)
  stores : ∀ job ∈ jobs, ∀ path ∈ job.writes false, ∀ other ∈ jobs,
    ∀ place ∈ other.stores request files, Location.Apart (files.target path) (files.target place)
  sources : ∀ job ∈ jobs, ∀ here ∈ files.visits job.path, files.isDirectory here = true ∨
    ∀ other ∈ jobs, ∀ path ∈ other.writes false ++ other.stores request files,
      ¬ here <+: files.target path

/-- A build whose jobs do not get into each other's way. -/
structure Independent (request : Request) (files : Files) (jobs : List Job) : Prop where
  unlinked : request.link = false
  uninterrupted : request.interruptAfter = none
  sound : files.Sound
  routes : ∀ job ∈ jobs, ∃ base names first last,
    job.placement.Route files base names first last
  separate : request.Separate files jobs
  few : ∀ job ∈ jobs, ¬ job.Overflows request files
  keys : request.store.isSome = true → jobs.Pairwise fun job other => ∀ one two,
    loadFile files job.path = .ok one → loadFile files other.path = .ok two →
      Cache.key one.2 request.options ≠ Cache.key two.2 request.options

theorem pairwise_at {α : Type} {relation : α → α → Prop} {items : List α}
    (pairwise : items.Pairwise relation) (turn : ∀ {one two}, relation one two → relation two one)
    {i j : Nat} {one two : α} (first : items[i]? = some one) (second : items[j]? = some two)
    (differ : i ≠ j) : relation one two := by
  obtain ⟨inside, rfl⟩ := List.getElem?_eq_some_iff.mp first
  obtain ⟨within, rfl⟩ := List.getElem?_eq_some_iff.mp second
  rcases Nat.lt_or_gt_of_ne differ with less | more
  · exact List.pairwise_iff_getElem.mp pairwise i j inside within less
  · exact turn (List.pairwise_iff_getElem.mp pairwise j i within inside more)

namespace Independent

variable {request : Request} {files : Files} {jobs : List Job}
  (independent : Independent request files jobs)

include independent

theorem outputs_clear {i j : Nat} {job other : Job} (first : jobs[i]? = some job)
    (second : jobs[j]? = some other) (differ : i ≠ j) :
    job.placement.Clear files other.placement := by
  have apart := pairwise_at independent.separate.outputs
    (fun apart path inside place within => (apart place within path inside).symm)
    first second differ
  obtain ⟨base, names, start, last, route⟩ := independent.routes other (List.mem_of_getElem? second)
  have goal : other.output ∈ other.writes false := by simp [Job.writes]
  exact Placement.clear_of_apart route (apart _ (by simp [Job.writes, Job.placement]) _ goal)
    (apart _ (by simp [Job.writes, Job.placement]) _ goal)

omit independent in
theorem stored?_eq_some {job : Job} {placement : Placement}
    (there : job.stored? request files = some placement) : ∃ store loaded,
      loadFile files job.path = .ok loaded ∧ request.store = some store ∧
        placement = store.placement (Cache.key loaded.2 request.options) := by
  rw [Job.stored?, Option.bind_eq_some_iff] at there
  obtain ⟨store, kept, there⟩ := there
  obtain ⟨loaded, found, rfl⟩ := Option.map_eq_some_iff.mp there
  cases outcome : loadFile files job.path with
  | error fault =>
    rw [outcome] at found
    cases found
  | ok pair =>
    rw [outcome] at found
    cases found
    exact ⟨store, loaded, rfl, kept, rfl⟩

theorem entry_clear {job other : Job} (first : job ∈ jobs) (second : other ∈ jobs)
    {placement : Placement} (there : other.stored? request files = some placement) :
    job.placement.Clear files placement ∧ placement.Clear files job.placement := by
  have goal : placement.goal ∈ other.stores request files := by simp [Job.stores, there]
  have draft : placement.draft ∈ other.stores request files := by simp [Job.stores, there]
  have output : job.placement.goal ∈ job.writes false := by simp [Job.writes, Job.placement]
  have beside : job.placement.draft ∈ job.writes false := by simp [Job.writes, Job.placement]
  have apart := fun path inside => independent.separate.stores job first path inside other second
  obtain ⟨base, names, start, last, route⟩ := independent.routes job first
  obtain ⟨store, loaded, -, -, rfl⟩ := stored?_eq_some there
  obtain ⟨root, folders, entry⟩ := store.placement_route files
    (Cache.Store.key_ne_nil loaded.2 request.options)
  exact ⟨Placement.clear_of_apart entry (apart _ beside _ goal) (apart _ output _ goal),
    Placement.clear_of_apart route (apart _ output _ draft).symm (apart _ output _ goal).symm⟩

theorem entries_clear {i j : Nat} {job other : Job} (first : jobs[i]? = some job)
    (second : jobs[j]? = some other) (differ : i ≠ j) {placement neighbour : Placement}
    (here : job.stored? request files = some placement)
    (there : other.stored? request files = some neighbour) : placement.Clear files neighbour := by
  obtain ⟨store, loaded, found, kept, rfl⟩ := stored?_eq_some here
  obtain ⟨again, read, gained, same, rfl⟩ := stored?_eq_some there
  rw [kept] at same
  cases same
  have keys := pairwise_at (independent.keys (by rw [kept]; rfl))
    (fun apart one two here there => (apart two one there here).symm) first second differ
  exact store.entries_clear files (Cache.Store.key_ne_nil _ _) (Cache.Store.key_ne_nil _ _)
    (keys _ _ found gained)

theorem clear {i j k m : Nat} {job other : Job} (first : jobs[i]? = some job)
    (second : jobs[j]? = some other) (differ : i ≠ j ∨ k ≠ m) {placement neighbour : Placement}
    (here : job.placement? request (job.stage request files k) = some placement)
    (there : other.placement? request (other.stage request files m) = some neighbour) :
    placement.Clear files neighbour := by
  have inside := List.mem_of_getElem? first
  have within := List.mem_of_getElem? second
  -- A job is at each of its placements in one step only.
  have apart : (job.stage request files k).rank = (other.stage request files m).rank →
      (job.stage request files k).rank ≠ 0 → i ≠ j := by
    rintro same some_ rfl
    rw [first] at second
    cases second
    rcases Nat.lt_or_gt_of_ne (differ.resolve_left (· rfl)) with less | more
    · have shorter := Job.stage_shrinks independent.unlinked files job less
      omega
    · have shorter := Job.stage_shrinks independent.unlinked files job more
      omega
  rcases Job.stage_placement here with ⟨entry, high⟩ | ⟨rfl, high⟩ <;>
    rcases Job.stage_placement there with ⟨note, low⟩ | ⟨rfl, low⟩
  · exact independent.entries_clear first second (apart (high.trans low.symm) (by omega)) entry note
  · exact (independent.entry_clear within inside entry).2
  · exact (independent.entry_clear inside within note).1
  · exact independent.outputs_clear first second (apart (high.trans low.symm) (by omega))

end Independent

/-- The changes of the steps that jobs have taken, where each has taken so many. -/
def Taken (request : Request) (files : Files) (jobs : List Job)
    (change : Job → JobState → Files.Change) (count : Nat → Nat) (made : Files.Change) : Prop :=
  ∃ index job number, jobs[index]? = some job ∧ number < count index ∧
    made = change job (job.stage request files number)

section

variable {request : Request} {files : Files} {jobs : List Job}
  {change : Job → JobState → Files.Change} {count more : Nat → Nat} {made : Files.Change}

theorem Taken.mono (fewer : ∀ {index : Nat} {job : Job}, jobs[index]? = some job →
    count index ≤ more index) (taken : Taken request files jobs change count made) :
    Taken request files jobs change more made := by
  obtain ⟨index, job, number, here, less, rfl⟩ := taken
  exact ⟨index, job, number, here, less.trans_le (fewer here), rfl⟩

/-- With one more step of one job, its change is one more of those made. -/
theorem taken_step {number : Nat} {job : Job} (here : jobs[number]? = some job)
    (own : more number = count number + 1)
    (others : ∀ index, index ≠ number → more index = count index) :
    Taken request files jobs change more made ↔ Taken request files jobs change count made ∨
      made = change job (job.stage request files (count number)) := by
  constructor
  · rintro ⟨index, other, past, there, less, rfl⟩
    by_cases same : index = number
    · subst same
      rw [here] at there
      cases there
      rw [own] at less
      rcases Nat.lt_succ_iff_lt_or_eq.mp less with before | rfl
      · exact .inl ⟨index, job, past, here, before, rfl⟩
      · exact .inr rfl
    · exact .inl ⟨index, other, past, there, others index same ▸ less, rfl⟩
  · rintro (taken | rfl)
    · refine taken.mono fun {index other} _ => ?_
      by_cases same : index = number
      · subst same
        omega
      · exact (others index same).ge
    · exact ⟨number, job, count number, here, by omega, rfl⟩

end

/-- A build in which each job has taken so many steps: every job is as far as it would be by its own
steps alone, and the tree shows their changes and no others. -/
structure Reached (request : Request) (files : Files) (jobs : List Job)
    (change : Job → JobState → Files.Change) (count : Nat → Nat) (state : Progression) : Prop where
  length : state.jobs.length = jobs.length
  stages : ∀ {index : Nat} {job : Job}, jobs[index]? = some job →
    state.jobs[index]? = some (job, job.stage request files (count index))
  joined : files.Joined (Taken request files jobs change count) state.site.files

namespace Independent

variable {request : Request} {files : Files} {jobs : List Job}
  (independent : Independent request files jobs) {change : Job → JobState → Files.Change}
  (uniform : ∀ job ∈ jobs, ∀ state, job.Uniform request files state (change job state))

include independent uniform

theorem beside {index : Nat} {job : Job} (here : jobs[index]? = some job) {count : Nat → Nat}
    {number : Nat} (later : count index ≤ number) {placement : Placement}
    (next : job.placement? request (job.stage request files number) = some placement) :
    ∀ made, Taken request files jobs change count made → placement.Beside files made := by
  rintro made ⟨other, neighbour, past, there, less, rfl⟩
  have law := uniform neighbour (List.mem_of_getElem? there) (neighbour.stage request files past)
  cases at_ : neighbour.placement? request (neighbour.stage request files past) with
  | none => exact .inl (law.idle at_)
  | some old =>
    have differ : index ≠ other ∨ number ≠ past := by
      by_cases same : index = other
      · subst same
        exact .inr (by omega)
      · exact .inl same
    exact .inr ⟨old, law.confined old at_, independent.clear here there differ next at_,
      independent.clear there here (differ.imp Ne.symm Ne.symm) at_ next⟩

omit independent in
/-- A change at a location is that of a placement of some job. -/
theorem taken_placement {count : Nat → Nat} {made : Files.Change}
    (taken : Taken request files jobs change count made) {here : Location} {entry : Option Entry}
    (changed : made here = some entry) : ∃ index job number placement, jobs[index]? = some job ∧
      number < count index ∧
      job.placement? request (job.stage request files number) = some placement ∧
      placement.Confined files made := by
  obtain ⟨index, job, number, there, less, rfl⟩ := taken
  have law := uniform job (List.mem_of_getElem? there) (job.stage request files number)
  cases at_ : job.placement? request (job.stage request files number) with
  | none =>
    rw [law.idle at_] at changed
    cases changed
  | some placement => exact ⟨index, job, number, placement, there, less, at_, law.confined _ at_⟩

omit uniform in
theorem placement_paths {index : Nat} {job : Job} (here : jobs[index]? = some job) {number : Nat}
    {placement : Placement}
    (at_ : job.placement? request (job.stage request files number) = some placement) :
    placement.goal ∈ job.writes false ++ job.stores request files ∧
      placement.draft ∈ job.writes false ++ job.stores request files ∧
      ∃ base names first last, placement.Route files base names first last := by
  rcases Job.stage_placement at_ with ⟨entry, -⟩ | ⟨rfl, -⟩
  · refine ⟨by simp [Job.stores, entry], by simp [Job.stores, entry], ?_⟩
    obtain ⟨store, loaded, -, -, rfl⟩ := stored?_eq_some entry
    obtain ⟨base, names, route⟩ := store.placement_route files
      (Cache.Store.key_ne_nil loaded.2 request.options)
    exact ⟨base, names, _, _, route⟩
  · exact ⟨by simp [Job.writes, Job.placement], by simp [Job.writes, Job.placement],
      independent.routes job (List.mem_of_getElem? here)⟩

theorem sees {count : Nat → Nat} {after : Files}
    (joined : files.Joined (Taken request files jobs change count) after) {index : Nat} {job : Job}
    (here : jobs[index]? = some job) (unbegun : count index = 0) :
    job.Sees request files after := by
  have inside := List.mem_of_getElem? here
  constructor
  · refine Files.read_congr joined.home fun step visited => ?_
    rcases joined.cases step with same | ⟨made, taken, changed⟩
    · exact same
    obtain ⟨other, neighbour, past, placement, there, less, at_, confined⟩ :=
      taken_placement uniform taken changed
    obtain ⟨goal, draft, base, names, first, last, route⟩ := independent.placement_paths there at_
    rcases independent.separate.sources job inside step visited with directory | apart
    · rcases confined.kinds changed with ⟨-, -, now⟩ | ⟨-, free, -⟩ | ⟨-, free, -⟩
      · rw [now]
        exact (of_decide_eq_true directory).symm
      · rw [directory] at free
        cases free
      · rw [directory] at free
        cases free
    · have apart := apart neighbour (List.mem_of_getElem? there)
      rcases confined.on_way route changed with way | same
      · exact absurd way (apart _ goal)
      · exact absurd (same ▸ List.prefix_rfl) (apart _ draft)
  · intro placement entry content
    have kept : after.entry? (files.target placement.goal) =
        files.entry? (files.target placement.goal) := by
      rcases joined.cases (files.target placement.goal) with same | ⟨made, taken, changed⟩
      · exact same
      obtain ⟨other, neighbour, past, old, there, less, at_, confined⟩ :=
        taken_placement uniform taken changed
      have differ : index ≠ other := by
        rintro rfl
        omega
      obtain ⟨clear, apart⟩ : placement.Clear files old ∧ old.Clear files placement := by
        rcases Job.stage_placement at_ with ⟨note, -⟩ | ⟨rfl, -⟩
        · exact ⟨independent.entries_clear here there differ entry note,
            independent.entries_clear there here differ.symm note entry⟩
        · exact (independent.entry_clear (List.mem_of_getElem? there) inside entry).symm
      rcases confined.kinds changed with ⟨way, -⟩ | ⟨same, -⟩ | ⟨same, -⟩
      · exact absurd way clear.goal
      · exact absurd same.symm apart.draft_goal
      · exact absurd same clear.goals
    obtain ⟨store, loaded, -, -, rfl⟩ := stored?_eq_some entry
    obtain ⟨base, names, route⟩ := store.placement_route files
      (Cache.Store.key_ne_nil loaded.2 request.options)
    rw [(route.goal.congr joined.home).read_eq_ok joined.sound,
      route.goal.read_eq_ok independent.sound, ← route.goal.target, kept]

omit uniform in
theorem reached_start : Reached request files jobs change (fun _ => 0)
    (Progression.start files jobs) := by
  refine ⟨List.length_map _, fun here => by simp [Progression.start, here, Job.stage], ?_⟩
  have untouched : ∀ (jobs : List Job) (site : Site),
      (jobs.foldl (fun site job => site.progress job.queued) site).files = site.files := by
    intro jobs
    induction jobs with
    | nil => exact fun site => rfl
    | cons job jobs ih => exact fun site => ih _
  have same : (Progression.start files jobs).site.files = files := untouched jobs { files }
  rw [same]
  refine .start independent.sound ?_
  rintro made ⟨index, job, number, -, less, -⟩
  exact absurd less (Nat.not_lt_zero _)

/-- One step keeps a build such. -/
theorem reached_advance {count more : Nat → Nat} {state : Progression}
    (reached : Reached request files jobs change count state) (number : Nat)
    (own : more number = count number + 1)
    (others : ∀ index, index ≠ number → more index = count index) :
    Reached request files jobs change more (state.advance request none number) := by
  have length := (Progression.length_advance request none number).trans reached.length
  cases here : jobs[number]? with
  | none =>
    have missing : state.jobs[number]? = none := by
      rw [List.getElem?_eq_none_iff] at here ⊢
      rwa [reached.length]
    have same : state.advance request none number = state := by
      rw [Progression.advance, missing]
    have other : ∀ {index : Nat} {job : Job}, jobs[index]? = some job →
        more index = count index := by
      intro index job there
      refine others index ?_
      rintro rfl
      rw [here] at there
      cases there
    rw [same]
    refine ⟨reached.length, fun there => ?_, reached.joined.congr ?_ ?_⟩
    · rw [other there]
      exact reached.stages there
    · exact fun made => Taken.mono fun there => (other there).le
    · exact fun made taken => .inl (taken.mono fun there => (other there).ge)
  | some job =>
    have found := reached.stages here
    have law := uniform job (List.mem_of_getElem? here) (job.stage request files (count number))
    have beside : ∀ placement,
        job.placement? request (job.stage request files (count number)) = some placement →
          ∀ made, Taken request files jobs change count made → placement.Beside files made :=
      fun _ => independent.beside uniform here (Nat.le_refl _)
    obtain ⟨result, changed⟩ := law.course state.site
      (fun waiting => independent.sees uniform reached.joined here (by
        have bound := (Job.stage_rank independent.unlinked files job (count number)).1
        rw [waiting] at bound
        change 4 ≤ _ at bound
        omega))
      fun placement at_ => reached.joined.alike (beside placement at_)
    have site : (state.advance request none number).site =
        (job.step request none (job.stage request files (count number)) state.site).2 := by
      rw [Progression.advance, found]
    rw [← site] at changed
    refine ⟨length, fun there => ?_, ?_⟩
    · rw [Progression.jobs_advance request none number _ (reached.stages there)]
      split
      · next same =>
        subst same
        rw [here] at there
        cases there
        rw [own, result]
        rfl
      · next differ => rw [others _ (Ne.symm differ)]
    · have joined : files.Joined (fun other => Taken request files jobs change count other ∨
          other = change job (job.stage request files (count number)))
            (state.advance request none number).site.files := by
        cases at_ : job.placement? request (job.stage request files (count number)) with
        | none => exact reached.joined.idle (law.idle at_) changed
        | some placement =>
          obtain ⟨-, -, base, names, first, last, route⟩ := independent.placement_paths here at_
          exact reached.joined.add route (beside placement at_) (law.confined placement at_) changed
      exact joined.congr (fun made => (taken_step here own others).mp)
        fun made taken => .inl ((taken_step here own others).mpr taken)

omit uniform in
theorem reached_running {count : Nat → Nat} {state : Progression}
    (reached : Reached request files jobs change count state) : state.crash? = none := by
  refine List.findSome?_eq_none_iff.mpr fun entry member => ?_
  obtain ⟨index, inside, here⟩ := List.mem_iff_getElem.mp member
  rw [reached.length] at inside
  have found := reached.stages (List.getElem?_eq_getElem inside)
  obtain ⟨inside, same⟩ := List.getElem?_eq_some_iff.mp found
  rw [← here, same]
  exact Job.stage_running (independent.few _ (List.getElem_mem _)) _

/-- By any schedule, every job gets as far as it would by its own steps alone. -/
theorem reached_follow (schedule : List Nat) : Reached request files jobs change schedule.count
    ((Progression.start files jobs).follow request none schedule) := by
  induction schedule using List.reverseRecOn with
  | nil => exact independent.reached_start
  | append_singleton schedule number ih =>
    have next : (Progression.start files jobs).follow request none (schedule ++ [number]) =
        ((Progression.start files jobs).follow request none schedule).advance request none
          number := by
      rw [← Progression.turn_advance request none (independent.reached_running ih) number,
        Progression.follow, List.foldl_append]
      rfl
    rw [next]
    refine independent.reached_advance uniform ih number ?_ fun index differ => ?_
    · rw [List.count_append, List.count_singleton_self]
    · rw [List.count_append, List.count_singleton, if_neg (by simpa using Ne.symm differ)]
      rfl

section

variable {schedule : List Nat} (complete : IsComplete jobs.length schedule)

include complete

theorem complete_jobs : ((Progression.start files jobs).follow request none schedule).jobs =
    jobs.map fun job => (job, job.stage request files Job.maxSteps) := by
  have reached := independent.reached_follow uniform schedule
  refine List.ext_getElem? fun index => ?_
  rw [List.getElem?_map]
  cases here : jobs[index]? with
  | none =>
    rw [List.getElem?_eq_none_iff] at here
    exact List.getElem?_eq_none (reached.length.trans_le here)
  | some job =>
    have enough := complete index (List.getElem?_eq_some_iff.mp here).1
    rw [reached.stages here, Job.stage_stable independent.unlinked files job enough]
    rfl

theorem complete_joined : files.Joined (Taken request files jobs change fun _ => Job.maxSteps)
    ((Progression.start files jobs).follow request none schedule).site.files := by
  refine (independent.reached_follow uniform schedule).joined.congr ?_ ?_
  · exact fun made => Taken.mono fun here => complete _ (List.getElem?_eq_some_iff.mp here).1
  · rintro made ⟨index, job, past, here, -, rfl⟩
    by_cases less : past < Job.maxSteps
    · exact .inl ⟨index, job, past, here, less, rfl⟩
    · have ended := Job.stage_over independent.unlinked files job (Nat.not_lt.mp less)
      have law := uniform job (List.mem_of_getElem? here) (job.stage request files past)
      exact .inr (law.idle (Job.placement?_over request job ended))

end

omit uniform in
theorem exists_changes : ∃ change : Job → JobState → Files.Change,
    ∀ job ∈ jobs, ∀ state, job.Uniform request files state (change job state) := by
  have all : ∀ (job : Job) (state : JobState), ∃ change : Files.Change,
      job ∈ jobs → job.Uniform request files state change := by
    intro job state
    by_cases inside : job ∈ jobs
    · obtain ⟨base, names, first, last, route⟩ := independent.routes job inside
      obtain ⟨change, law⟩ := Job.exists_uniform independent.unlinked independent.uninterrupted
        independent.sound route state
      exact ⟨change, fun _ => law⟩
    · exact ⟨fun _ => none, fun member => absurd member inside⟩
  choose change law using all
  exact ⟨change, fun job inside state => law job state inside⟩

end Independent

def JobFault.isCompilation : JobFault → Bool
  | compile _ | diagnostics => true
  | _ => false

namespace Job

theorem writeArtefact_fault {files after : Files} {path code : Bytes} {fault : JobFault}
    (failed : writeArtefact files path code = (.error fault, after)) :
    fault.isCompilation = false := by
  unfold writeArtefact at failed
  split at failed
  · cases failed
    rfl
  dsimp only at failed
  split at failed
  · cases failed
    rfl
  split at failed
  · cases failed
    rfl
  · cases failed

/-- A job that has been compiled does not fail for its source any more. -/
theorem step_compiled {request : Request} {job : Job} {state : JobState} (begun : state.rank ≠ 4)
    (sane : state.fault?.any JobFault.isCompilation = false) (site : Site) :
    (job.step request none state site).1.rank ≠ 4 ∧
      (job.step request none state site).1.fault?.any JobFault.isCompilation = false := by
  cases state with
  | waiting => exact absurd rfl begun
  | compiled compilation =>
    simp only [step, keep]
    split <;> exact ⟨by simp [JobState.rank], rfl⟩
  | kept compilation =>
    simp only [step, write]
    split
    · next fault after failed =>
      exact ⟨by simp [JobState.rank, fail],
        by simpa [fail, JobState.fault?] using writeArtefact_fault failed⟩
    · split <;> exact ⟨by simp [JobState.rank, finish], rfl⟩
  | written | done | failed | crashed => exact ⟨begun, sane⟩

theorem stage_uncompiled {request : Request} {files : Files} {job : Job} {count : Nat}
    (failed : (job.stage request files count).fault?.any JobFault.isCompilation = true)
    {past : Nat} (less : past < count) :
    job.placement? request (job.stage request files past) = none := by
  by_contra some_
  obtain ⟨placement, at_⟩ := Option.ne_none_iff_exists'.mp some_
  have start : (job.stage request files past).rank ≠ 4 ∧
      (job.stage request files past).fault?.any JobFault.isCompilation = false := by
    cases state : job.stage request files past with
    | compiled compilation => exact ⟨by simp [JobState.rank], rfl⟩
    | kept compilation => exact ⟨by simp [JobState.rank], rfl⟩
    | waiting | written | done | failed | crashed =>
      rw [state] at at_
      cases at_
  have later : ∀ more, past ≤ more → (job.stage request files more).rank ≠ 4 ∧
      (job.stage request files more).fault?.any JobFault.isCompilation = false := by
    intro more reached
    induction more, reached using Nat.le_induction with
    | base => exact start
    | succ more _ ih => exact step_compiled ih.1 ih.2 _
  rw [(later count less.le).2] at failed
  cases failed

theorem stage_files (request : Request) (paths : List Bytes) (files : Files) (job : Job)
    (count : Nat) : job.stage { request with files := paths } files count =
      job.stage request files count := by
  induction count with
  | zero => rfl
  | succ count ih =>
    rw [stage, stage, ih]
    rfl

end Job

/-- The texts under whose digests a store keeps the entries of the jobs whose sources can be
read. -/
def Request.keyTexts (request : Request) (files : Files) (jobs : List Job) : List Bytes :=
  if request.store.isSome then
    jobs.filterMap fun job => (loadFile files job.path).toOption.map fun loaded =>
      Cache.keyText loaded.2 request.options
  else []

/-- The stems of a plan are distinct, and so are the keys of what is loaded. -/
theorem Request.independent_plan {request : Request} {files : Files} {jobs : List Job}
    (unlinked : request.link = false) (uninterrupted : request.interruptAfter = none)
    (planned : request.plan files.workingDir = (jobs, none)) (sound : files.Sound)
    (separate : request.Separate files jobs) (few : ∀ job ∈ jobs, ¬ job.Overflows request files)
    (unbroken : Digest.CollisionFree (request.keyTexts files jobs)) :
    Independent request files jobs := by
  obtain ⟨made, distinct⟩ := Request.plan_jobs planned
  refine ⟨unlinked, uninterrupted, sound, ?_, separate, few, ?_⟩
  · intro job inside
    rw [made, List.mem_map] at inside
    obtain ⟨file, -, rfl⟩ := inside
    exact request.placement_route files.workingDir file files
  · intro stored
    have texts : ∀ job ∈ jobs, ∀ one, loadFile files job.path = .ok one →
        Cache.keyText one.2 request.options ∈ request.keyTexts files jobs := by
      intro job inside one loaded
      rw [Request.keyTexts, if_pos stored, List.mem_filterMap]
      exact ⟨job, inside, by rw [loaded]; rfl⟩
    have stems : jobs.Pairwise fun job other => stem job.path ≠ stem other.path := by
      rw [made, List.pairwise_map]
      exact List.pairwise_map.mp distinct
    refine stems.imp_of_mem fun {job other} inside within differ one two first second same => ?_
    obtain ⟨clean, here⟩ := loaded_name sound
      (show loadFile files job.path = .ok (one.1, one.2) from first)
    obtain ⟨quiet, there⟩ := loaded_name sound
      (show loadFile files other.path = .ok (two.1, two.2) from second)
    rw [Cache.key_eq, Cache.key_eq] at same
    have text := unbroken _ (texts job inside one first) _ (texts other within two second) same
    have names := (Cache.keyText_inj clean quiet text).2.2.2.2
    rw [names] at here
    exact differ (here.trans there.symm)

theorem Independent.alone {request : Request} {files : Files} {jobs : List Job}
    (independent : Independent request files jobs) {job : Job} (inside : job ∈ jobs) :
    Independent { request with files := [job.path] } files [job] where
  unlinked := independent.unlinked
  uninterrupted := independent.uninterrupted
  sound := independent.sound
  routes := fun other member => independent.routes other (List.mem_singleton.mp member ▸ inside)
  separate := by
    have only : ∀ other ∈ [job], other ∈ jobs := by simpa using inside
    refine ⟨List.pairwise_singleton _ _, ?_, ?_⟩
    · exact fun one first path written two second =>
        independent.separate.stores one (only one first) path written two (only two second)
    · exact fun one first here visited =>
        (independent.separate.sources one (only one first) here visited).imp_right
          fun apart two second => apart two (only two second)
  few := fun other member => independent.few other (List.mem_singleton.mp member ▸ inside)
  keys := fun _ => List.pairwise_singleton _ _

def Request.alone (request : Request) (files : Files) (job : Job) : Ending :=
  runBy inOrder { request with files := [job.path] } files

namespace Independent

variable {request : Request} {files : Files} {jobs : List Job}
  (independent : Independent request files jobs) {change : Job → JobState → Files.Change}
  (uniform : ∀ job ∈ jobs, ∀ state, job.Uniform request files state (change job state))

include independent uniform

theorem runBy_ends (prepared : request.prepare files = .ok none)
    (planned : request.plan files.workingDir = (jobs, none)) {schedule : Nat → List Nat}
    (complete : IsComplete jobs.length (schedule jobs.length)) :
    ∃ outcome, runBy schedule request files = .returned outcome ∧
      outcome.jobs = jobs.map (fun job => (job, job.stage request files Job.maxSteps)) ∧
      outcome.fault = verdict outcome.jobs ∧
      files.Joined (Taken request files jobs change fun _ => Job.maxSteps) outcome.site.files := by
  have running := independent.reached_running
    (independent.reached_follow uniform (schedule jobs.length))
  exact ⟨_, (runBy_accepted prepared planned).mpr ⟨running, rfl⟩,
    independent.complete_jobs uniform complete, rfl, independent.complete_joined uniform complete⟩

theorem alone_ends {job : Job} (inside : job ∈ jobs)
    (made : job = request.job files.workingDir job.path) :
    ∃ single, request.alone files job = .returned single ∧
      single.jobs = [(job, job.stage request files Job.maxSteps)] ∧
      files.Joined (fun made => ∃ number < Job.maxSteps,
        made = change job (job.stage request files number)) single.site.files := by
  have prepared : Request.prepare { request with files := [job.path] } files = .ok none := by
    simp [Request.prepare, independent.unlinked]
  have planned : Request.plan { request with files := [job.path] } files.workingDir =
      ([job], none) := by
    conv_rhs => rw [made]
    rfl
  have laws : ∀ other ∈ [job], ∀ state,
      other.Uniform { request with files := [job.path] } files state (change other state) := by
    intro other member state
    obtain rfl := List.mem_singleton.mp member
    have law := uniform other inside state
    exact ⟨law.confined, law.idle, fun site sees alike => law.course site
      (fun waiting => ⟨(sees waiting).source, (sees waiting).entry⟩) alike⟩
  obtain ⟨single, returned, ends, -, joined⟩ :=
    (independent.alone inside).runBy_ends laws prepared planned (isComplete_inOrder _)
  refine ⟨single, returned, ?_, joined.congr ?_ ?_⟩
  · rw [ends, List.map_cons, List.map_nil, Job.stage_files]
  · rintro change ⟨number, less, rfl⟩
    exact ⟨0, job, number, rfl, less, congrArg _ (Job.stage_files request [job.path] ..).symm⟩
  · rintro change ⟨index, other, number, here, less, rfl⟩
    obtain rfl := List.mem_singleton.mp (List.mem_of_getElem? here)
    exact .inl ⟨number, less, congrArg _ (Job.stage_files request [_] ..)⟩

/-- What a job would write stays as it was when the compilation fails. -/
theorem uncompiled_unchanged {after : Files}
    (joined : files.Joined (Taken request files jobs change fun _ => Job.maxSteps) after)
    {job : Job} (inside : job ∈ jobs)
    (failed : (job.stage request files Job.maxSteps).fault?.any JobFault.isCompilation = true)
    {path : Bytes} (written : path ∈ job.writes false) :
    after.entry? (files.target path) = files.entry? (files.target path) := by
  rcases joined.cases (files.target path) with same | ⟨made, taken, changed⟩
  · exact same
  obtain ⟨index, here⟩ := List.mem_iff_getElem?.mp inside
  obtain ⟨other, neighbour, past, placement, there, less, at_, confined⟩ :=
    taken_placement uniform taken changed
  have differ : index ≠ other := by
    rintro rfl
    rw [here] at there
    cases there
    rw [Job.stage_uncompiled failed less] at at_
    cases at_
  have apart : ∀ place ∈ neighbour.writes false ++ neighbour.stores request files,
      Location.Apart (files.target path) (files.target place) := by
    intro place member
    rcases List.mem_append.mp member with output | entry
    · exact pairwise_at independent.separate.outputs
        (fun apart path inside place within => (apart place within path inside).symm)
        here there differ path written place output
    · exact independent.separate.stores job inside path written neighbour
        (List.mem_of_getElem? there) place entry
  obtain ⟨goal, draft, base, names, first, last, route⟩ := independent.placement_paths there at_
  rcases confined.on_way route changed with way | same
  · exact absurd way (apart _ goal).1
  · exact absurd (same ▸ List.prefix_rfl) (apart _ draft).1

end Independent

/-- A store in a directory apart from outputs and sources does not get into the way. -/
theorem Request.separate_of_dir {request : Request} {files : Files} {jobs : List Job}
    (outputs : jobs.Pairwise fun job other => ∀ path ∈ job.writes false,
      ∀ place ∈ other.writes false, Location.Apart (files.target path) (files.target place))
    (dirs : ∀ store, request.store = some store → ∀ job ∈ jobs, ∀ path ∈ job.writes false,
      Location.Apart (files.target path) (files.target store.dir))
    (sources : ∀ job ∈ jobs, ∀ here ∈ files.visits job.path, files.isDirectory here = true ∨
      (∀ other ∈ jobs, ∀ path ∈ other.writes false, ¬ here <+: files.target path) ∧
        ∀ store, request.store = some store → Location.Apart here (files.target store.dir)) :
    request.Separate files jobs := by
  have below : ∀ job : Job, ∀ path ∈ job.stores request files, ∃ store down,
      request.store = some store ∧ files.target path = files.target store.dir ++ down := by
    intro job path inside
    rw [Job.stores, List.mem_flatMap] at inside
    obtain ⟨placement, there, inside⟩ := inside
    obtain ⟨store, loaded, -, kept, rfl⟩ :=
      Independent.stored?_eq_some (Option.mem_toList.mp there)
    obtain ⟨first, last, draft, goal⟩ := store.placement_below files
      (Cache.Store.key_ne_nil loaded.2 request.options)
    simp only [List.mem_cons, List.not_mem_nil, or_false] at inside
    rcases inside with rfl | rfl
    · exact ⟨store, last, kept, goal⟩
    · exact ⟨store, first, kept, draft⟩
  refine ⟨outputs, ?_, ?_⟩
  · intro job inside path written other within place entry
    obtain ⟨store, down, kept, there⟩ := below other place entry
    rw [there]
    exact (dirs store kept job inside path written).append down
  · intro job inside here visited
    refine (sources job inside here visited).imp_right fun apart other within path member => ?_
    rcases List.mem_append.mp member with output | entry
    · exact apart.1 other within path output
    · obtain ⟨store, down, kept, there⟩ := below other path entry
      rw [there]
      exact ((apart.2 store kept).append down).1

def desk : Files := { entries := [(["a.mini"], .file "print 1;"), (["cache"], .directory)] }

def oneMissing : Request := { files := ["a.mini", "b.mini"], store := some ⟨"cache"⟩ }

def crossing (_ : Nat) : List Nat := [1, 0, 0, 1, 1, 0, 1, 0]

/-- Paths that are written by one job only and are no sources. -/
def Request.Disjoint (request : Request) (files : Files) (jobs : List Job) : Prop :=
  let written := jobs.flatMap fun job =>
    (job.writes false ++ job.stores request files).map files.target
  written.Nodup ∧ ∀ job ∈ jobs, files.target job.path ∉ written

/-- What is asked for is planned and can be built, without linking and in one go. -/
structure Request.Accepted (request : Request) (files : Files) (jobs : List Job) : Prop where
  unlinked : request.link = false
  uninterrupted : request.interruptAfter = none
  prepared : request.prepare files = .ok none
  planned : request.plan files.workingDir = (jobs, none)
  sound : files.Sound
  disjoint : request.Disjoint files jobs
  unbroken : Digest.CollisionFree (request.keyTexts files jobs)

namespace Job

variable {request : Request} {job : Job} {site : Site} {compilation : Compilation}

theorem write_done (unlinked : request.link = false) {files rest : Files}
    (wrote : writeArtefact site.files job.output (compilation.code.getD []) = (.ok files, rest)) :
    ∃ after, job.step request none (.kept compilation) site = (.done compilation none, after) ∧
      after.files = files := by
  simp only [step, write, Site.files_progress, wrote, unlinked]
  exact ⟨_, rfl, by simp⟩

theorem write_failed {fault : JobFault} {rest : Files}
    (failed : writeArtefact site.files job.output (compilation.code.getD []) =
      (.error fault, rest)) :
    ∃ after, job.step request none (.kept compilation) site =
      (.failed (some compilation) fault, after) ∧ after.files = rest := by
  simp only [step, write, Site.files_progress, failed]
  exact ⟨_, rfl, rfl⟩

/-- A short source without errors is compiled to a class. -/
theorem compile_class (uninterrupted : request.interruptAfter = none)
    (storeless : request.store = none) (jvm : request.options.target = some .jvm)
    (nonnegative : 0 ≤ request.options.maxDiagnostics) {sources : SourceSet} {file : SourceFile}
    (loaded : loadFile site.files job.path = .ok (sources, file)) {parsed : Parsed}
    (made : parsed =
      Program.parse { maxErrors := request.options.maxDiagnostics.toNat } file.tokens)
    (clean : parsed.reports = [])
    (few : (Variables.ofProgram parsed.program).size ≤ 65535)
    (short : (parsed.program.code (Variables.ofProgram parsed.program)
      (request.options.classOptions file).lineOf).length ≤ 8190)
    (defined : parsed.program.undefinedReports (Variables.ofProgram parsed.program) = []) :
    ∃ compilation after, job.step request none .waiting site = (.compiled compilation, after) ∧
      after.files = site.files := by
  have into : parseInto request.options.maxDiagnostics file = (parsed.program,
    (DistinctBag.ofLimit request.options.maxDiagnostics).addAll parsed.reports) := by rw [made]; rfl
  have lowerable : parsed.program.Lowerable (Variables.ofProgram parsed.program) :=
    made ▸ Program.parse_lowerable _ file.tokens
  obtain ⟨bytes, emitted⟩ := lowerable.toClass_within (request.options.classOptions file)
    (lowerable.within_limits few short)
  rw [clean] at into
  have quiet : ((DistinctBag.ofLimit request.options.maxDiagnostics).addAll []).bag.hasErrors =
      false := by
    rw [Bool.eq_false_iff, Ne, DistinctBag.hasErrors_iff _ (by simp)]
    exact not_not.mpr rfl
  have outcome := compile_generated sources jvm nonnegative into quiet (Program.emit_class emitted)
  have idle : ∀ filter : DistinctBag, filter.addAll [] = filter := fun _ => rfl
  rw [defined, idle] at outcome
  have going : ∀ site, request.isInterrupted site = false := fun site => by
    rw [Request.isInterrupted, uninterrupted]
  simp only [step, going, compile, loaded, storeless, Bool.false_eq_true, if_false, outcome, quiet,
    Compilation.isOk, Bag.hasErrors_sort, Option.isSome_some, Bool.not_false, Bool.and_self, if_true]
  exact ⟨_, _, rfl, by simp⟩

/-- Without linking, writing is the end of a job. -/
theorem write_ends (unlinked : request.link = false) (job : Job) (compilation : Compilation)
    (site : Site) : ∃ state after, job.step request none (.kept compilation) site = (state, after) ∧
      state.rank = 0 ∧ state.crash? = none := by
  cases wrote : writeArtefact site.files job.output (compilation.code.getD []) with
  | mk result rest =>
    cases result with
    | ok files =>
      obtain ⟨after, done, -⟩ := write_done unlinked wrote
      exact ⟨_, after, done, rfl, rfl⟩
    | error fault =>
      obtain ⟨after, failed, -⟩ := write_failed wrote
      exact ⟨_, after, failed, rfl, rfl⟩

end Job

namespace Progression

variable {request : Request} {one two : Job} {state other after : JobState} {site later : Site}
  {rest : List Nat}

/-- Of two jobs, the first takes its turn. -/
theorem follow_first (running : state.crash? = none) (still : other.crash? = none)
    (step : one.step request none state site = (after, later)) :
    follow request none ⟨[(one, state), (two, other)], site⟩ (0 :: rest) =
      follow request none ⟨[(one, after), (two, other)], later⟩ rest := by
  have calm : crash? ⟨[(one, state), (two, other)], site⟩ = none := by
    simp [crash?, running, still]
  rw [follow, List.foldl_cons, turn_advance request none calm]
  simp only [advance, List.getElem?_cons_zero, step, List.set_cons_zero]
  rfl

theorem follow_second (running : state.crash? = none) (still : other.crash? = none)
    (step : two.step request none other site = (after, later)) :
    follow request none ⟨[(one, state), (two, other)], site⟩ (1 :: rest) =
      follow request none ⟨[(one, state), (two, after)], later⟩ rest := by
  have calm : crash? ⟨[(one, state), (two, other)], site⟩ = none := by
    simp [crash?, running, still]
  rw [follow, List.foldl_cons, turn_advance request none calm]
  simp only [advance, List.getElem?_cons_succ, List.getElem?_cons_zero, step, List.set_cons_succ,
    List.set_cons_zero]
  rfl

end Progression

def Ending.faults (ending : Ending) : Option (List Bool) :=
  ending.outcome?.map fun outcome => outcome.jobs.map fun entry => entry.2.fault?.isSome

def crossroads : Files :=
  { entries := [(["a.mini"], .file "print 1;"), (["b.mini"], .file "print 2;")] }

def roundabout : Request := { files := ["a.mini", "target/debug/../../b.mini"] }

def backwards (count : Nat) : List Nat :=
  (List.range count).reverse.flatMap (List.replicate Job.maxSteps)

def shelf (more : List (Location × Entry)) : Files :=
  { entries := ([".mini"], .file "print 1;") :: (["Main.class.mini"], .file "print 2;") :: more }

/-- A request for two classes, of which one is to lie where the directory of the other is. -/
def namesakes : Request := { files := [".mini", "Main.class.mini"], options := { target := some .jvm } }

/-- Both are compiled before one of them goes on. -/
def outside (_ : Nat) : List Nat := [0, 1, 0, 0, 0, 1, 1, 1]

def inside (_ : Nat) : List Nat := [0, 1, 1, 1, 1, 0, 0, 0]

namespace Namesakes

def first : Job := namesakes.job "/" ".mini"

def second : Job := namesakes.job "/" "Main.class.mini"

/-- Both are compiled, wherever a build begins that has changed nothing. -/
theorem compiled {job : Job} (member : job ∈ [first, second]) {site : Site}
    (home : site.files = shelf []) : ∃ compilation after,
      job.step namesakes none .waiting site = (.compiled compilation, after) ∧
        after.files = shelf [] := by
  have class_ := @Job.compile_class namesakes job site rfl rfl rfl (by decide)
  rw [home] at class_
  rcases List.mem_pair.mp member with rfl | rfl
  · exact class_ rfl rfl (List.isEmpty_iff.mp (by decide +kernel)) (by decide +kernel)
      (by decide +kernel) (List.isEmpty_iff.mp (by decide +kernel))
  · exact class_ rfl rfl (List.isEmpty_iff.mp (by decide +kernel)) (by decide +kernel)
      (by decide +kernel) (List.isEmpty_iff.mp (by decide +kernel))

theorem first_route : first.placement.Route (shelf []) [] ["target", "debug"] "Main.class.tmp"
    "Main.class" :=
  ⟨⟨by decide, ⟨[], by decide, by decide, rfl⟩, by decide⟩,
    ⟨by decide, ⟨[], by decide, by decide, rfl⟩, by decide⟩,
    ⟨by decide, ⟨[], by decide, by decide, rfl⟩, by decide⟩, by decide⟩

theorem second_route {files : Files} (home : files.workingDir = "/") :
    second.placement.Route files [] ["target", "debug", "Main.class"] "Main.class.tmp"
      "Main.class" := by
  have here : [] = ([] : List Bytes).foldl Location.enter (files.start second.output) := by
    rw [Files.start, home]
    decide
  exact ⟨⟨by decide, ⟨[], by decide, by decide, here⟩, by decide⟩,
    ⟨by decide, ⟨[], by decide, by decide, here⟩, by decide⟩,
    ⟨by decide, ⟨[], by decide, by decide, here⟩, by decide⟩, by decide⟩

theorem shelf_sound : (shelf []).Sound := .of_entries (by decide) (by decide)

theorem first_written (code : Bytes) : ∃ after,
    Job.writeArtefact (shelf []) first.output code = (.ok after, after) ∧
      (shelf []).Changed after (first.placement.change (shelf []) true (some code)) ∧
        after.Sound := by
  obtain ⟨made, drafted, after, done, written, moved, changed, sound⟩ :=
    first_route.placed shelf_sound (by decide) (by decide) (by decide)
      (by decide) (by decide) code
  exact ⟨after, Job.writeArtefact_ok done written moved, changed, sound⟩

theorem second_written (code : Bytes) : ∃ after,
    Job.writeArtefact (shelf []) second.output code = (.ok after, after) := by
  obtain ⟨made, drafted, after, done, written, moved, -⟩ :=
    (second_route rfl).placed shelf_sound (by decide) (by decide)
      (by decide) (by decide) (by decide) code
  exact ⟨after, Job.writeArtefact_ok done written moved⟩

def obstacle : JobFault := .outputDir ⟨"mkdir", ["target/debug/Main.class"], .notDirectory⟩

/-- Where the first class is, no directory can be made. -/
theorem second_refused {after : Files} {code : Bytes}
    (changed : (shelf []).Changed after (first.placement.change (shelf []) true (some code)))
    (sound : after.Sound) (other : Bytes) :
    Job.writeArtefact after second.output other = (.error obstacle, after) := by
  let names : List Bytes := ["target", "debug", "Main.class"]
  have goal : (shelf []).target first.placement.goal = names := by decide
  have seen : ∀ here, here <+: [] ++ names.reverse.reverse →
      after.isFile here = decide (here = names) := by
    intro here goes
    rw [List.reverse_reverse, List.nil_append] at goes
    rw [first_route.placed_isFile changed (by rwa [goal]), goal]
  have blocked : Files.makeFault after.isFile [] second.placement.dir names.reverse =
      some ⟨"mkdir", ["target/debug/Main.class"], .notDirectory⟩ := by
    rw [Files.makeFault_congr seen]
    decide
  have failed : after.mkdirAll (Path.dir second.output) = _ :=
    Files.mkdirAll_error sound (second_route changed.home).dir blocked
  rw [Job.writeArtefact, failed]
  rfl

/-- There is no store to keep anything in. -/
theorem step_compiled (job : Job) (compilation : Compilation) (site : Site) :
    job.step namesakes none (.compiled compilation) site = (.kept compilation, site) := rfl

/-- What is left of a build of both once it came to an end without a panic. -/
theorem faults_eq {schedule : Nat → List Nat} {one two : JobState} {site : Site}
    (last : (Progression.start (shelf []) [first, second]).follow namesakes none (schedule 2) =
      ⟨[(first, one), (second, two)], site⟩)
    (running : one.crash? = none) (still : two.crash? = none) :
    (runBy schedule namesakes (shelf [])).faults = some [one.fault?.isSome, two.fault?.isSome] := by
  have calm : ((Progression.start (shelf []) [first, second]).follow namesakes none
      (schedule 2)).crash? = none := by
    rw [last]
    simp [Progression.crash?, running, still]
  have planned : namesakes.plan "/" = ([first, second], none) := rfl
  have returned := (@runBy_accepted namesakes (shelf []) none _ rfl planned schedule _).mpr ⟨calm, rfl⟩
  rw [returned]
  change some (List.map _ (Progression.follow _ _ _ (schedule 2)).jobs) = _
  rw [last]
  rfl

theorem faults_outside : (runBy outside namesakes (shelf [])).faults = some [false, true] := by
  have home : (Progression.start (shelf []) [first, second]).site.files = shelf [] := rfl
  obtain ⟨one, site, begun, same⟩ := compiled List.mem_cons_self home
  obtain ⟨two, next, followed, kept⟩ := compiled (List.mem_cons_of_mem _ List.mem_cons_self) same
  obtain ⟨files, written, changed, sound⟩ := first_written (one.code.getD [])
  obtain ⟨third, done, class_⟩ := @Job.write_done namesakes first next one rfl _ _
    (kept ▸ written)
  obtain ⟨last, failed, -⟩ := @Job.write_failed namesakes second third two _ _
    (class_ ▸ second_refused changed sound _)
  refine @faults_eq outside (.done one none) (.failed (some two) obstacle) last ?_ rfl rfl
  refine (Progression.follow_first rfl rfl begun).trans ?_
  refine (Progression.follow_second rfl rfl followed).trans ?_
  refine (Progression.follow_first rfl rfl (step_compiled ..)).trans ?_
  refine (Progression.follow_first rfl rfl done).trans ?_
  refine (Progression.follow_first rfl rfl (Job.step_over _ _ rfl _)).trans ?_
  refine (Progression.follow_second rfl rfl (step_compiled ..)).trans ?_
  refine (Progression.follow_second rfl rfl failed).trans ?_
  exact (Progression.follow_second rfl rfl (Job.step_over _ _ rfl _)).trans rfl

theorem faults_inside :
    ∃ fault, (runBy inside namesakes (shelf [])).faults = some [fault, false] := by
  have home : (Progression.start (shelf []) [first, second]).site.files = shelf [] := rfl
  obtain ⟨one, site, begun, same⟩ := compiled List.mem_cons_self home
  obtain ⟨two, next, followed, kept⟩ := compiled (List.mem_cons_of_mem _ List.mem_cons_self) same
  obtain ⟨files, written⟩ := second_written (two.code.getD [])
  obtain ⟨third, done, -⟩ := @Job.write_done namesakes second next two rfl _ _ (kept ▸ written)
  obtain ⟨state, last, ends, stopped, running⟩ := @Job.write_ends namesakes rfl first one third
  refine ⟨_, @faults_eq inside state (.done two none) last ?_ running rfl⟩
  refine (Progression.follow_first rfl rfl begun).trans ?_
  refine (Progression.follow_second rfl rfl followed).trans ?_
  refine (Progression.follow_second rfl rfl (step_compiled ..)).trans ?_
  refine (Progression.follow_second rfl rfl done).trans ?_
  refine (Progression.follow_second rfl rfl (Job.step_over _ _ rfl _)).trans ?_
  refine (Progression.follow_first rfl rfl (step_compiled ..)).trans ?_
  refine (Progression.follow_first rfl rfl ends).trans ?_
  exact (Progression.follow_first running rfl (Job.step_over _ _ stopped _)).trans rfl

end Namesakes

end Minilang.Build
