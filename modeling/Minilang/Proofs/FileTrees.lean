import Minilang.Cache.Store
import Minilang.Proofs.PlainText
import Minilang.Proofs.Results

/-! Where a path leads depends on its names alone, not on what is there: whatever an operation
finds or makes, it does at the target of its path. From that it follows which files can be at a
location after each operation. -/

namespace Minilang

/-- A name that leads one directory further down. -/
def IsPlain (part : Bytes) : Prop := part ≠ [] ∧ part ≠ "." ∧ part ≠ ".."

instance : DecidablePred IsPlain := fun _ => inferInstanceAs (Decidable (_ ∧ _))

/-- A long name leads down. -/
theorem IsPlain.of_length {name : Bytes} (long : 2 < name.length) : IsPlain name := by
  refine ⟨?_, ?_, ?_⟩ <;> rintro rfl <;> exact absurd long (by decide)

/-- Where a name leads from a location. -/
def Location.enter (here : Location) (part : Bytes) : Location :=
  if part = [] || part = "." then here
  else if part = ".." then here.dropLast
  else here ++ [part]

theorem Location.enter_plain {part : Bytes} (plain : IsPlain part) (here : Location) :
    here.enter part = here ++ [part] := by
  simp [Location.enter, plain.1, plain.2.1, plain.2.2]

@[simp] theorem Location.enter_nil (here : Location) : here.enter [] = here := by
  simp [Location.enter]

theorem Location.enter_up (here : Location) : here.enter ".." = here.dropLast := by
  rw [Location.enter, if_neg (by decide), if_pos rfl]

namespace Path

/-- What the components of a path are like while they are collected: none of them stays where it
is, and names hold no slash. -/
def Tidy (stack : List Bytes) : Prop := ∀ part ∈ stack, part ≠ [] ∧ part ≠ "." ∧ slash ∉ part

theorem cleanStep_tidy {stack : List Bytes} (tidy : Tidy stack) (rooted : Bool) {part : Bytes}
    (apart : slash ∉ part) : Tidy (cleanStep rooted stack part) := by
  have up : (".." : Bytes) ≠ [] ∧ (".." : Bytes) ≠ "." ∧ slash ∉ (".." : Bytes) := by decide
  unfold cleanStep
  split
  · exact tidy
  · next moves =>
    simp only [Bool.or_eq_true, decide_eq_true_eq, not_or] at moves
    have pushed : Tidy (part :: stack) := List.forall_mem_cons.mpr ⟨⟨moves.1, moves.2, apart⟩, tidy⟩
    split
    · cases stack with
      | nil =>
        dsimp only
        split
        · exact tidy
        · exact pushed
      | cons top rest =>
        dsimp only
        split
        · exact pushed
        · exact (List.forall_mem_cons.mp tidy).2
    · exact pushed

/-- Collecting components follows the names of the path. At the root there is nothing above. -/
theorem cleanStep_leads {stack : List Bytes} (tidy : Tidy stack) (rooted : Bool) (part : Bytes)
    {start : Location} (root : rooted = true → start = []) :
    (cleanStep rooted stack part).reverse.foldl Location.enter start =
      (stack.reverse.foldl Location.enter start).enter part := by
  have pushed : (part :: stack).reverse.foldl Location.enter start =
      (stack.reverse.foldl Location.enter start).enter part := by
    rw [List.reverse_cons, List.foldl_append]
    rfl
  unfold cleanStep
  split
  · next stays => rw [Location.enter, if_pos stays]
  · split
    · next up =>
      subst up
      cases stack with
      | nil =>
        dsimp only
        split
        · next at_ =>
          rw [root at_]
          rfl
        · exact pushed
      | cons top rest =>
        dsimp only
        split
        · exact pushed
        · next down =>
          have top := (List.forall_mem_cons.mp tidy).1
          rw [List.reverse_cons, List.foldl_append, Location.enter_up]
          simp only [List.foldl_cons, List.foldl_nil]
          rw [Location.enter_plain ⟨top.1, top.2.1, down⟩, List.dropLast_concat]
    · exact pushed

theorem foldl_cleanStep (rooted : Bool) {start : Location} (root : rooted = true → start = [])
    (parts : List Bytes) (apart : ∀ part ∈ parts, slash ∉ part) {stack : List Bytes}
    (tidy : Tidy stack) :
    Tidy (parts.foldl (cleanStep rooted) stack) ∧
      (parts.foldl (cleanStep rooted) stack).reverse.foldl Location.enter start =
        parts.foldl Location.enter (stack.reverse.foldl Location.enter start) := by
  induction parts generalizing stack with
  | nil => exact ⟨tidy, rfl⟩
  | cons part rest ih =>
    rw [List.forall_mem_cons] at apart
    obtain ⟨kept, leads⟩ := ih apart.2 (cleanStep_tidy tidy rooted apart.1)
    refine ⟨kept, leads.trans ?_⟩
    rw [cleanStep_leads tidy rooted part root]
    rfl

theorem components_tidy (path : Bytes) : Tidy (components path) := by
  have kept := (@foldl_cleanStep (isAbsolute path) [] (fun _ => rfl) (Bytes.split slash path)
    (fun _ => Bytes.absent_of_mem_split) [] nofun).1
  intro part member
  exact kept part (List.mem_reverse.mp member)

theorem components_lead (path : Bytes) {start : Location}
    (root : isAbsolute path = true → start = []) :
    (components path).foldl Location.enter start =
      (Bytes.split slash path).foldl Location.enter start :=
  (@foldl_cleanStep (isAbsolute path) start root (Bytes.split slash path)
    (fun _ => Bytes.absent_of_mem_split) [] nofun).2

end Path

namespace Files

/-- Where a path starts. -/
def start (files : Files) (path : Bytes) : Location :=
  if Path.isAbsolute path then [] else Path.components files.workingDir

/-- Where a path leads. -/
def target (files : Files) (path : Bytes) : Location :=
  (Bytes.split 47 path).foldl Location.enter (files.start path)

theorem walk_target {files : Files} {here goal : Location} {parts : List Bytes}
    (reached : files.walk here parts = .ok goal) : goal = parts.foldl Location.enter here := by
  induction parts generalizing here with
  | nil =>
    cases reached
    rfl
  | cons part rest ih =>
    rw [walk] at reached
    rw [List.foldl_cons, Location.enter]
    split at reached
    · cases reached
    · cases reached
    · split at reached
      · next stays => rw [if_pos stays, ih reached]
      · next moves =>
        rw [if_neg moves]
        split at reached
        · next up => rw [if_pos up, ih reached]
        · next down =>
          rw [if_neg down]
          split at reached
          · cases reached
          · exact ih reached

theorem locate_target {files : Files} {path : Bytes} {location : Location}
    (found : files.locate path = .ok location) : location = files.target path := by
  unfold locate at found
  split at found
  · cases found
  · split at found
    · cases found
    · exact walk_target found

/-- Where a path leads from below another. -/
theorem target_append (files : Files) {path : Bytes} (some_ : path ≠ []) (rest : Bytes) :
    files.target (path ++ 47 :: rest) =
      (Bytes.split 47 rest).foldl Location.enter (files.target path) := by
  have begins : Path.isAbsolute (path ++ 47 :: rest) = Path.isAbsolute path := by
    cases path with
    | nil => exact absurd rfl some_
    | cons b path => rfl
  rw [target, Bytes.split_append, List.foldl_append, start, begins]
  rfl

/-- Cleaning a path does not change where it leads. -/
theorem target_clean (files : Files) (path : Bytes) :
    files.target (Path.clean path) = files.target path := by
  have tidy := Path.components_tidy path
  have apart : ∀ part ∈ Path.components path, 47 ∉ part := fun part member => (tidy part member).2.2
  have leads := @Path.components_lead path (files.start path)
    fun absolute => by rw [start, if_pos absolute]
  change _ = files.target path at leads
  rw [← leads, Path.clean]
  split
  · next absolute =>
    have whole : ("/" : Bytes) ++ Bytes.join "/" (Path.components path) =
      [] ++ 47 :: Bytes.join [47] (Path.components path) := rfl
    rw [whole, target, Bytes.split_append, start, if_pos (by rfl), start, if_pos absolute]
    by_cases none_ : Path.components path = []
    · rw [none_]
      rfl
    · rw [Bytes.split_join apart none_, Bytes.split_nil]
      rfl
  · next relative =>
    cases parts : Path.components path with
    | nil =>
      rw [if_pos (by rfl), start, if_neg relative]
      rfl
    | cons first rest =>
      rw [parts] at apart
      have begins := tidy first (parts ▸ List.mem_cons_self)
      cases first with
      | nil => exact absurd rfl begins.1
      | cons b first =>
        have other : Path.isAbsolute (Bytes.join "/" ((b :: first) :: rest)) = false := by
          have differ : b ≠ 47 := fun same => begins.2.2 (same ▸ List.mem_cons_self)
          simp [Path.isAbsolute, Bytes.join, Path.slash, differ]
        rw [if_neg (by simp [Bytes.join]), start, if_neg relative, target, start, other]
        exact congrArg (List.foldl _ _) (Bytes.split_join apart (List.cons_ne_nil _ _))

/-- Files stay where they are, apart from those that are gone. -/
def Fewer (before after : Files) : Prop :=
  after.workingDir = before.workingDir ∧
    ∀ at_ content, (at_, Entry.file content) ∈ after.entries → (at_, .file content) ∈ before.entries

theorem Fewer.refl (files : Files) : Fewer files files := ⟨rfl, fun _ _ member => member⟩

theorem Fewer.trans {first second third : Files} (one : Fewer first second)
    (two : Fewer second third) : Fewer first third :=
  ⟨two.1.trans one.1, fun at_ content member => one.2 at_ content (two.2 at_ content member)⟩

theorem target_congr {files after : Files} (same : after.workingDir = files.workingDir)
    (path : Bytes) : after.target path = files.target path := by
  rw [target, target, start, start, same]

theorem mem_set {files : Files} {location : Location} {entry : Entry} {at_ : Location} {old : Entry}
    (member : (at_, old) ∈ (files.set location entry).entries) :
    at_ = location ∧ old = entry ∨ at_ ≠ location ∧ (at_, old) ∈ files.entries := by
  unfold set at member
  split at member
  · obtain ⟨⟨place, kept⟩, inside, same⟩ := List.mem_map.mp member
    simp only [Prod.mk.injEq] at same
    obtain ⟨rfl, rfl⟩ := same
    by_cases here : place = location
    · exact .inl ⟨here, if_pos here⟩
    · rw [if_neg here]
      exact .inr ⟨here, inside⟩
  · next missing =>
    rcases List.mem_append.mp member with inside | last
    · refine .inr ⟨?_, inside⟩
      rintro rfl
      refine missing ?_
      rw [List.lookup_isSome_iff]
      exact ⟨_, inside, beq_self_eq_true _⟩
    · rw [List.mem_singleton, Prod.mk.injEq] at last
      exact .inl last

@[simp] theorem set_workingDir (files : Files) (location : Location) (entry : Entry) :
    (files.set location entry).workingDir = files.workingDir := by
  unfold set
  split <;> rfl

theorem withAction_eq_ok {α : Type} {action path : Bytes} {result : Except Refusal α} {value : α}
    (done : withAction action path result = .ok value) : result = .ok value := by
  cases result with
  | error refusal => cases done
  | ok found =>
    cases done
    rfl

theorem mkdir_fewer {files after : Files} {path : Bytes} (made : files.mkdir path = .ok after) :
    Fewer files after := by
  rw [mkdir, bind_eq_ok] at made
  obtain ⟨location, -, made⟩ := made
  split at made
  · cases made
    exact .refl files
  · cases made
  · cases made
    refine ⟨set_workingDir _ _ _, fun at_ content member => ?_⟩
    rcases mem_set member with ⟨-, wrong⟩ | ⟨-, kept⟩
    · cases wrong
    · exact kept

theorem mkdirAllLoop_fewer {fuel : Nat} {files after : Files} {path : Bytes}
    (made : mkdirAllLoop fuel files path = .ok after) : Fewer files after := by
  induction fuel generalizing files after path with
  | zero =>
    cases made
    exact .refl files
  | succ fuel ih =>
    rw [mkdirAllLoop] at made
    split at made
    · cases made
      exact .refl files
    · cases made
    · dsimp only at made
      split at made
      · exact mkdir_fewer made
      · rw [bind_eq_ok] at made
        obtain ⟨above, parents, made⟩ := made
        exact (ih parents).trans (mkdir_fewer made)

theorem mkdirAll_fewer {files after : Files} {path : Bytes} (made : files.mkdirAll path = .ok after) :
    Fewer files after := mkdirAllLoop_fewer made

theorem erase_fewer (files : Files) (location : Location) : Fewer files (files.erase location) :=
  ⟨rfl, fun _ _ member => (List.mem_filter.mp member).1⟩

theorem removeAll_fewer (files : Files) (path : Bytes) : Fewer files (files.removeAll path) := by
  unfold removeAll
  split
  · exact erase_fewer _ _
  · exact .refl files

/-- A file that is read is at the target of its path. -/
theorem read_mem {files : Files} {path content : Bytes} (found : files.read path = .ok content) :
    (files.target path, Entry.file content) ∈ files.entries := by
  rw [read, bind_eq_ok] at found
  obtain ⟨location, reached, found⟩ := found
  have there := locate_target (withAction_eq_ok reached)
  subst there
  split at found
  · next kept here =>
    cases found
    unfold entry? at here
    split at here
    · cases here
    · obtain ⟨before, after, whole, -⟩ := List.lookup_eq_some_iff.mp here
      rw [whole]
      exact List.mem_append_right _ List.mem_cons_self
  · cases found
  · cases found

/-- After a file is written it is the one at the target of its path. -/
theorem write_mem {files after : Files} {path content : Bytes}
    (written : files.write path content = .ok after) :
    after.workingDir = files.workingDir ∧
      ∀ at_ old, (at_, Entry.file old) ∈ after.entries →
        at_ = files.target path ∧ old = content ∨
          at_ ≠ files.target path ∧ (at_, .file old) ∈ files.entries := by
  rw [write, bind_eq_ok] at written
  obtain ⟨location, reached, written⟩ := written
  have there := locate_target (withAction_eq_ok reached)
  subst there
  split at written
  · cases written
  · cases written
    refine ⟨set_workingDir _ _ _, fun at_ old member => ?_⟩
    rcases mem_set member with ⟨here, same⟩ | kept
    · exact .inl ⟨here, Entry.file.inj same⟩
    · exact .inr kept

/-- After a move, files are where they were, or at the new place what was at the old one. -/
theorem rename_mem {files after : Files} {source goal : Bytes}
    (moved : files.rename source goal = .ok after) :
    after.workingDir = files.workingDir ∧
      ∀ at_ content, (at_, Entry.file content) ∈ after.entries →
        (at_, .file content) ∈ files.entries ∧ ¬ files.target source <+: at_ ∨
          ∃ rest, at_ = files.target goal ++ rest ∧
            (files.target source ++ rest, .file content) ∈ files.entries := by
  unfold rename at moved
  simp only at moved
  split at moved
  · cases moved
  · next start found =>
    have source_ := locate_target found
    subst source_
    split at moved
    · cases moved
    · next entry there =>
      split at moved
      · cases moved
      · next place reached =>
        have goal_ := locate_target reached
        subst goal_
        have cleared : Fewer files (if files.target goal = files.target source then files
            else files.erase (files.target goal)) := by
          split
          · exact .refl files
          · exact erase_fewer _ _
        split at moved
        · cases moved
        · cases moved
        · cases moved
          refine ⟨cleared.1, fun at_ content member => ?_⟩
          obtain ⟨⟨old, kept⟩, inside, same⟩ := List.mem_map.mp member
          simp only [Prod.mk.injEq] at same
          obtain ⟨here, rfl⟩ := same
          have origin := cleared.2 old content inside
          by_cases below : files.target source <+: old
          · rw [if_pos (List.isPrefixOf_iff_prefix.mpr below)] at here
            obtain ⟨rest, rfl⟩ := below
            rw [List.drop_left] at here
            exact .inr ⟨rest, here.symm, origin⟩
          · rw [if_neg (by rwa [List.isPrefixOf_iff_prefix])] at here
            subst here
            exact .inl ⟨origin, below⟩

end Files

end Minilang
