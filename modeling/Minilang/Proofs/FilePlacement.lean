import Minilang.Proofs.TreeOperations

/-! A file that is put at its place by way of a draft beside it. -/

namespace Minilang

namespace Path

/-- The components of a path go up first, which they cannot from the root, and then down. -/
theorem components_sorted (path : Bytes) : ∃ up names, components path = up ++ names ∧
    (∀ part ∈ up, part = "..") ∧ (∀ name ∈ names, IsPlain name) ∧
      (isAbsolute path = true → up = []) := by
  suffices sorted : ∀ (parts stack : List Bytes), (∃ names up, stack = names ++ up ∧
      (∀ part ∈ up, part = "..") ∧ (∀ name ∈ names, IsPlain name) ∧
        (isAbsolute path = true → up = [])) →
      ∃ names up, parts.foldl (cleanStep (isAbsolute path)) stack = names ++ up ∧
        (∀ part ∈ up, part = "..") ∧ (∀ name ∈ names, IsPlain name) ∧
          (isAbsolute path = true → up = []) by
    obtain ⟨names, up, whole, above, below, root⟩ :=
      sorted (Bytes.split slash path) [] ⟨[], [], rfl, by simp, by simp, fun _ => rfl⟩
    refine ⟨up.reverse, names.reverse, ?_, by simpa using above, by simpa using below, ?_⟩
    · rw [components, whole, List.reverse_append]
    · intro absolute
      rw [root absolute, List.reverse_nil]
  intro parts
  induction parts with
  | nil => exact fun stack sorted => sorted
  | cons part parts ih =>
    rintro stack ⟨names, up, rfl, above, below, root⟩
    refine ih _ ?_
    unfold cleanStep
    split
    · exact ⟨names, up, rfl, above, below, root⟩
    · next moves =>
      simp only [Bool.or_eq_true, decide_eq_true_eq, not_or] at moves
      split
      · next back =>
        subst back
        cases names with
        | cons name names =>
          rw [List.forall_mem_cons] at below
          rw [List.cons_append]
          dsimp only
          rw [if_neg below.1.2.2]
          exact ⟨names, up, rfl, above, below.2, root⟩
        | nil =>
          rw [List.nil_append]
          cases up with
          | nil =>
            dsimp only
            split
            · exact ⟨[], [], rfl, above, below, root⟩
            · next relative =>
              exact ⟨[], [".."], rfl, by simp, below, fun absolute => absurd absolute relative⟩
          | cons top up =>
            have top_ := above top List.mem_cons_self
            dsimp only
            rw [if_pos top_]
            refine ⟨[], ".." :: top :: up, rfl, List.forall_mem_cons.mpr ⟨rfl, above⟩, below, ?_⟩
            exact fun absolute => absurd (root absolute) (List.cons_ne_nil _ _)
      · next down =>
        refine ⟨part :: names, up, rfl, above, ?_, root⟩
        exact List.forall_mem_cons.mpr ⟨⟨moves.1, moves.2, down⟩, below⟩

/-- The parts of a clean path are its components, behind parts that stay at the start. -/
theorem split_clean (path : Bytes) : isAbsolute (clean path) = isAbsolute path ∧
    ∃ before, Bytes.split 47 (clean path) = before ++ components path ∧
      ∀ part ∈ before, part = [] ∨ part = "." := by
  have tidy := components_tidy path
  have apart : ∀ part ∈ components path, 47 ∉ part := fun part member => (tidy part member).2.2
  by_cases absolute : isAbsolute path = true
  · have text : clean path = [] ++ 47 :: Bytes.join [47] (components path) := by
      rw [clean, if_pos absolute]
      rfl
    rw [text]
    refine ⟨absolute.symm, ?_⟩
    rw [Bytes.split_append, Bytes.split_nil]
    by_cases none_ : components path = []
    · rw [none_]
      exact ⟨[[], []], rfl, by simp⟩
    · rw [Bytes.split_join apart none_]
      exact ⟨[[]], rfl, by simp⟩
  · by_cases none_ : components path = []
    · have text : clean path = "." := by
        rw [clean, if_neg absolute, none_]
        rfl
      rw [text, none_, Bool.not_eq_true _ |>.mp absolute]
      exact ⟨rfl, ["."], rfl, by simp⟩
    · obtain ⟨first, rest, parts⟩ := List.exists_cons_of_ne_nil none_
      obtain ⟨some_, -, slashless⟩ := tidy first (parts ▸ List.mem_cons_self)
      obtain ⟨b, first, rfl⟩ := List.exists_cons_of_ne_nil some_
      have differ : b ≠ 47 := fun same => slashless (same ▸ List.mem_cons_self)
      have text : clean path = Bytes.join [47] (components path) := by
        rw [clean, if_neg absolute, parts]
        exact if_neg (by simp [Bytes.join])
      rw [text, Bytes.split_join apart none_, Bool.not_eq_true _ |>.mp absolute]
      refine ⟨?_, [], rfl, by simp⟩
      rw [parts]
      simp [isAbsolute, Bytes.join, slash, differ]

/-- Cleaning again changes nothing. -/
theorem components_clean (path : Bytes) : components (clean path) = components path := by
  obtain ⟨same, before, parts, stays⟩ := split_clean path
  obtain ⟨up, names, whole, above, below, root⟩ := components_sorted path
  have start : before.foldl (cleanStep (isAbsolute path)) [] = [] := by
    clear parts
    induction before with
    | nil => rfl
    | cons part before ih =>
      rw [List.forall_mem_cons] at stays
      rw [List.foldl_cons, cleanStep, if_pos (by simpa using stays.1)]
      exact ih stays.2
  have climbs : ∀ stack : List Bytes, (∀ part ∈ stack, part = "..") →
      up.foldl (cleanStep (isAbsolute path)) stack = up.reverse ++ stack := by
    clear whole
    induction up with
    | nil => exact fun stack _ => rfl
    | cons part up ih =>
      intro stack back
      have relative : isAbsolute path = false :=
        Bool.not_eq_true _ |>.mp fun absolute => absurd (root absolute) (List.cons_ne_nil _ _)
      rw [List.forall_mem_cons] at above
      have pushed : cleanStep (isAbsolute path) stack part = part :: stack := by
        rw [above.1]
        unfold cleanStep
        rw [if_neg (by decide), if_pos rfl]
        cases stack with
        | nil =>
          rw [relative]
          rfl
        | cons top stack => exact if_pos (back top List.mem_cons_self)
      rw [List.foldl_cons, pushed, ih above.2 (by simp [relative]) _
        (List.forall_mem_cons.mpr ⟨above.1, back⟩)]
      simp
  have descends : ∀ stack : List Bytes,
      names.foldl (cleanStep (isAbsolute path)) stack = names.reverse ++ stack := by
    clear whole
    induction names with
    | nil => exact fun stack => rfl
    | cons name names ih =>
      intro stack
      rw [List.forall_mem_cons] at below
      have pushed : cleanStep (isAbsolute path) stack name = name :: stack := by
        unfold cleanStep
        rw [if_neg (by simp [below.1.1, below.1.2.1]), if_neg below.1.2.2]
      rw [List.foldl_cons, ih below.2, pushed]
      simp
  rw [components, same, slash, parts, List.foldl_append, start, whole, List.foldl_append,
    climbs [] (by simp), descends]
  simp

theorem clean_congr {path other : Bytes} (absolute : isAbsolute path = isAbsolute other)
    (same : components path = components other) : clean path = clean other := by
  rw [clean, clean, absolute, same]

section

variable {name : Bytes} (absent : 47 ∉ name)

include absent

theorem isAbsolute_name : isAbsolute name = false := by
  cases name with
  | nil => rfl
  | cons b name =>
    have differ : b ≠ 47 := fun same => absent (same ▸ List.mem_cons_self)
    simp [isAbsolute, slash, differ]

/-- A name alone, or right below the root, is its only component. -/
theorem components_alone (plain : IsPlain name) :
    components name = [name] ∧ components (47 :: name) = [name] := by
  have pushed : ∀ rooted, cleanStep rooted [] name = [name] := by
    intro rooted
    unfold cleanStep
    rw [if_neg (by simp [plain.1, plain.2.1]), if_neg plain.2.2]
  have stays : ∀ rooted, cleanStep rooted [] [] = [] := fun _ => rfl
  constructor
  · rw [components, slash, Bytes.split_of_absent absent, List.foldl_cons, pushed]
    rfl
  · rw [components, slash, ← List.nil_append (47 :: name), Bytes.split_append,
      Bytes.split_of_absent absent, Bytes.split_nil, List.singleton_append, List.foldl_cons, stays,
      List.foldl_cons, pushed]
    rfl

end

/-- The directory of a clean path to a name. -/
theorem dir_clean_name {above name : Bytes} (some_ : above ≠ []) (plain : IsPlain name)
    (absent : 47 ∉ name) : dir (clean (above ++ 47 :: name)) = clean above := by
  obtain ⟨begins, parts⟩ := components_name some_ plain absent
  obtain ⟨front, leads, text⟩ := clean_name some_
  obtain ⟨single, rooted⟩ := components_alone absent plain
  have same := components_clean (above ++ 47 :: name)
  have absolute := (split_clean (above ++ 47 :: name)).1
  rw [begins] at absolute
  rw [parts] at same
  rw [text name plain absent] at absolute same ⊢
  rw [dir]
  change clean ((front ++ name).reverse.dropWhile (· != 47)).reverse = _
  rw [dropWhile_name leads.ends absent, List.reverse_reverse]
  rcases leads.ends with rfl | ⟨start, rfl⟩
  · -- the name is the whole path, so the directory is the start
    rw [List.nil_append, single, ← List.nil_append [name]] at same
    rw [List.nil_append, isAbsolute_name absent] at absolute
    exact clean_congr absolute (List.append_inj' same rfl).1
  · rw [List.append_assoc, List.singleton_append] at same
    cases start with
    | nil =>
      rw [List.nil_append, rooted, ← List.nil_append [name]] at same
      exact clean_congr absolute (List.append_inj' same rfl).1
    | cons b start =>
      rw [(components_name (List.cons_ne_nil b start) plain absent).2] at same
      have trailing : components (b :: start ++ [47]) = components (b :: start) := by
        rw [components, slash, Bytes.split_append, Bytes.split_nil, List.foldl_append]
        rfl
      exact clean_congr absolute (trailing.trans (List.append_inj' same rfl).1)

/-- Cleaning keeps the last name. -/
theorem clean_last {front name : Bytes} (ends : IsFront front) (plain : IsPlain name)
    (absent : 47 ∉ name) : ∃ other, IsFront other ∧ clean (front ++ name) = other ++ name := by
  obtain ⟨single, rooted⟩ := components_alone absent plain
  rcases ends with rfl | ⟨above, rfl⟩
  · refine ⟨[], .inl rfl, ?_⟩
    rw [List.nil_append, clean, isAbsolute_name absent, single]
    simp [Bytes.join, plain.1]
  · rw [List.append_assoc, List.singleton_append]
    cases above with
    | nil =>
      refine ⟨[47], .inr ⟨[], rfl⟩, ?_⟩
      rw [List.nil_append, clean, rooted, if_pos (by rfl)]
      simp only [Bytes.join, List.flatMap_nil, List.append_nil]
      rfl
    | cons b above =>
      obtain ⟨other, leads, text⟩ := clean_name (List.cons_ne_nil b above)
      exact ⟨other, leads.ends, text name plain absent⟩

end Path

namespace Files

/-- A clean path leads down from where its steps up lead. -/
theorem leads_clean (files : Files) {path : Bytes} {up names : List Bytes}
    (whole : Path.components path = up ++ names) (above : ∀ part ∈ up, part = "..")
    (below : ∀ name ∈ names, IsPlain name) :
    files.Leads (Path.clean path) (up.foldl Location.enter (files.start path)) names := by
  obtain ⟨same, before, parts, stays⟩ := Path.split_clean path
  refine ⟨Path.clean_ne_nil path, ⟨before ++ up, ?_, ?_, ?_⟩, below⟩
  · rw [parts, whole, List.append_assoc]
  · rw [List.forall_mem_append]
    refine ⟨fun part member plain => ?_, fun part member plain => plain.2.2 (above part member)⟩
    exact (stays part member).elim plain.1 plain.2.1
  · have start : ∀ here : Location, before.foldl Location.enter here = here := by
      clear parts
      induction before with
      | nil => exact fun here => rfl
      | cons part before ih =>
        rw [List.forall_mem_cons] at stays
        intro here
        rw [List.foldl_cons, Location.enter, if_pos (by simpa using stays.1)]
        exact ih stays.2 here
    rw [List.foldl_append, start, Files.start, Files.start, same]

/-- The names below one directory, by clean paths. -/
theorem leads_clean_name (files : Files) {above : Bytes} (some_ : above ≠ []) :
    ∃ base names, files.Leads (Path.clean above) base names ∧
      ∀ name, IsPlain name → 47 ∉ name →
        files.Leads (Path.clean (above ++ 47 :: name)) base (names ++ [name]) := by
  obtain ⟨up, names, whole, steps, plain, -⟩ := Path.components_sorted above
  refine ⟨_, names, files.leads_clean whole steps plain, fun name down absent => ?_⟩
  obtain ⟨begins, parts⟩ := Path.components_name some_ down absent
  have start : files.start (above ++ 47 :: name) = files.start above := by
    rw [Files.start, Files.start, begins]
  rw [whole, List.append_assoc] at parts
  rw [← start]
  refine files.leads_clean parts steps (List.forall_mem_append.mpr ⟨plain, ?_⟩)
  simpa using down

theorem Leads.snoc {files : Files} {path : Bytes} {base : Location} {names : List Bytes}
    (leads : files.Leads path base names) {name : Bytes} (plain : IsPlain name)
    (absent : 47 ∉ name) : files.Leads (path ++ 47 :: name) base (names ++ [name]) := by
  obtain ⟨up, whole, steps, start⟩ := leads.parts
  obtain ⟨b, rest, rfl⟩ := List.exists_cons_of_ne_nil leads.some_
  refine ⟨by simp, ⟨up, ?_, steps, start⟩, List.forall_mem_append.mpr ⟨leads.plain, ?_⟩⟩
  · rw [Bytes.split_append, Bytes.split_of_absent absent, whole, List.append_assoc]
  · simpa using plain

/-- What is put where, or taken away. -/
abbrev Change := Location → Option (Option Entry)

/-- A change was made to a tree, and nothing else. -/
structure Changed (files after : Files) (change : Change) : Prop where
  home : after.workingDir = files.workingDir
  entries : ∀ here, after.entry? here = (change here).getD (files.entry? here)

theorem Changed.none (files : Files) : files.Changed files fun _ => Option.none :=
  ⟨rfl, fun _ => rfl⟩

/-- A location below the end of a way is not on it. -/
theorem not_on_way (way : Location) (name : Bytes) : ¬ way ++ [name] <+: way := by
  intro goes
  exact absurd goes.length_le (by simp)

/-- The directories down to a location are there, and a file in the last of them. -/
structure Drafted (files drafted : Files) (way : Location) (name content : Bytes) : Prop where
  sound : drafted.Sound
  home : drafted.workingDir = files.workingDir
  entries : ∀ here, drafted.entry? here =
    if here = way ++ [name] then some (.file content)
    else if here <+: way then some .directory else files.entry? here

theorem Paved.draft {files made : Files} {way : Location} (paved : files.Paved made way)
    (sound : files.Sound) {name : Bytes} (free : files.entry? (way ++ [name]) ≠ some .directory)
    (content : Bytes) :
    files.Drafted (made.set (way ++ [name]) (.file content)) way name content := by
  have home := (set_workingDir made (way ++ [name]) (.file content)).trans paved.home
  have entries : ∀ here, Files.entry? (made.set (way ++ [name]) (.file content)) here =
      if here = way ++ [name] then some (.file content)
      else if here <+: way then some .directory else files.entry? here := by
    intro here
    rw [entry?_set (by simp), paved.entries]
  refine ⟨sound.grows ⟨home, ?_, ?_⟩, home, entries⟩
  · intro here directory
    have apart : here ≠ way ++ [name] := by
      rintro rfl
      exact free directory
    rw [entries, if_neg apart, directory, ite_self]
  · intro here last entry there old
    rw [entries, old] at there
    have goes : here <+: way := by
      split at there
      · next same => exact (List.append_inj' same rfl).1 ▸ List.prefix_rfl
      · split at there
        · next goes => exact (List.prefix_append here [last]).trans goes
        · cases there
    rw [entries, if_pos goes, if_neg]
    rintro rfl
    exact not_on_way way name goes

namespace Drafted

variable {files drafted : Files} {way : Location} {name content : Bytes}
  (draft : files.Drafted drafted way name content)

include draft

theorem here : drafted.entry? (way ++ [name]) = some (.file content) := by
  rw [draft.entries, if_pos rfl]

theorem directory : drafted.entry? way = some .directory := by
  rw [draft.entries, if_pos List.prefix_rfl, if_neg]
  intro same
  exact absurd (congrArg List.length same) (by simp)

theorem other {last : Bytes} (differ : name ≠ last) :
    drafted.entry? (way ++ [last]) = files.entry? (way ++ [last]) := by
  rw [draft.entries, if_neg (by simpa using Ne.symm differ), if_neg (not_on_way way last)]

/-- The draft is taken away again. -/
theorem erase (sound : files.Sound) (free : files.entry? (way ++ [name]) ≠ some .directory)
    (there : Location) : Files.entry? (drafted.erase (way ++ [name])) there =
      if there <+: way then some .directory
      else if there = way ++ [name] then none else files.entry? there := by
  rw [entry?_erase (by simp), draft.entries]
  by_cases goes : there <+: way
  · have apart : there ≠ way ++ [name] := by
      rintro rfl
      exact not_on_way way name goes
    rw [if_pos goes, if_pos goes, if_neg apart, if_neg]
    intro inside
    exact not_on_way way name (inside.trans goes)
  rw [if_neg goes, if_neg goes]
  by_cases same : there = way ++ [name]
  · rw [if_pos same, if_pos same, if_pos (same ▸ List.prefix_rfl)]
  rw [if_neg same, if_neg same]
  split
  · next inside => exact (sound.below_file inside (Ne.symm same) free).symm
  · rfl

end Drafted

end Files

/-- A file is put at its goal by way of a draft in the same directory. -/
structure Placement where
  dir : Bytes
  draft : Bytes
  goal : Bytes

namespace Placement

/-- The three paths lead to a directory and to two names in it. -/
structure Route (files : Files) (placement : Placement) (base : Location) (names : List Bytes)
    (first last : Bytes) : Prop where
  dir : files.Leads placement.dir base names
  draft : files.Leads placement.draft base (names ++ [first])
  goal : files.Leads placement.goal base (names ++ [last])
  differ : first ≠ last

/-- A tree that is like another as far as a placement is concerned: it has the same files on the
way, and directories where the other has some that would hinder it. -/
structure Alike (files : Files) (placement : Placement) (other : Files) : Prop where
  sound : other.Sound
  home : other.workingDir = files.workingDir
  way : ∀ here, here <+: files.target placement.dir → other.isFile here = files.isFile here
  draft : other.isDirectory (files.target placement.draft) =
    files.isDirectory (files.target placement.draft)
  goal : other.isDirectory (files.target placement.goal) =
    files.isDirectory (files.target placement.goal)

/-- The change of a placement that has come so far: the directories are there, the draft is gone
again, and the file is at its goal. -/
def change (files : Files) (placement : Placement) (drafted : Bool) (placed : Option Bytes) :
    Files.Change := fun here =>
  if here <+: files.target placement.dir then some (some .directory)
  else if drafted ∧ here = files.target placement.draft then some none
  else if here = files.target placement.goal then placed.map fun content => some (.file content)
  else none

/-- The four ways in which a placement can go, the same ones in all trees that are alike. -/
inductive Course (files : Files) (placement : Placement) (content : Bytes) : Prop where
  | undirected (fault : FileFault)
      (course : ∀ other, placement.Alike files other →
        other.mkdirAll placement.dir = .error fault)
  | undrafted (fault : FileFault)
      (clear : ∀ here, here <+: files.target placement.dir → files.isFile here = false)
      (course : ∀ other, placement.Alike files other → ∃ made,
        other.mkdirAll placement.dir = .ok made ∧
          made.write placement.draft content = .error fault ∧
            other.Changed made (placement.change files false none))
  | unplaced (fault : FileFault)
      (clear : ∀ here, here <+: files.target placement.dir → files.isFile here = false)
      (free : files.isDirectory (files.target placement.draft) = false)
      (course : ∀ other, placement.Alike files other → ∃ made drafted,
        other.mkdirAll placement.dir = .ok made ∧ made.write placement.draft content = .ok drafted ∧
          drafted.rename placement.draft placement.goal = .error fault ∧
            other.Changed (drafted.removeAll placement.draft) (placement.change files true none))
  | placed
      (clear : ∀ here, here <+: files.target placement.dir → files.isFile here = false)
      (free : files.isDirectory (files.target placement.draft) = false)
      (open_ : files.isDirectory (files.target placement.goal) = false)
      (course : ∀ other, placement.Alike files other → ∃ made drafted after,
        other.mkdirAll placement.dir = .ok made ∧ made.write placement.draft content = .ok drafted ∧
          drafted.rename placement.draft placement.goal = .ok after ∧
            other.Changed after (placement.change files true (some content)))

/-- With the way paved, a path that ends in a name arrives in the same way in all trees alike. -/
theorem Alike.locate {files other made : Files} {placement : Placement} {base : Location}
    {names : List Bytes} (alike : placement.Alike files other)
    (paved : other.Paved made (base ++ names))
    (short : ∀ name ∈ names, name.length ≤ Files.maxName) {path name : Bytes}
    (leads : files.Leads path base (names ++ [name])) :
    made.locate path = Files.arrive path (base ++ names) name := by
  refine (leads.congr (paved.home.trans alike.home)).locate_name
    (alike.sound.grows paved.grows) short ?_
  rw [paved.entries, if_pos List.prefix_rfl]

namespace Route

variable {files : Files} {placement : Placement} {base : Location} {names : List Bytes}
  {first last : Bytes} (route : placement.Route files base names first last)

include route

theorem congr {other : Files} (same : other.workingDir = files.workingDir) :
    placement.Route other base names first last :=
  ⟨route.dir.congr same, route.draft.congr same, route.goal.congr same, route.differ⟩

theorem target_dir : files.target placement.dir = base ++ names := route.dir.target

theorem target_draft : files.target placement.draft = base ++ names ++ [first] := by
  rw [route.draft.target, List.append_assoc]

theorem target_goal : files.target placement.goal = base ++ names ++ [last] := by
  rw [route.goal.target, List.append_assoc]

section

variable {other made drafted : Files} {content : Bytes}

theorem paved_changed (paved : other.Paved made (base ++ names)) :
    other.Changed made (placement.change files false none) := by
  refine ⟨paved.home, fun here => ?_⟩
  rw [paved.entries, change, route.target_dir]
  split
  · rfl
  · simp

theorem erased_changed (sound : other.Sound)
    (free : other.entry? (base ++ names ++ [first]) ≠ some .directory)
    (draft : other.Drafted drafted (base ++ names) first content) :
    other.Changed (drafted.erase (base ++ names ++ [first]))
      (placement.change files true none) := by
  refine ⟨draft.home, fun here => ?_⟩
  rw [draft.erase sound free, change, route.target_dir, route.target_draft]
  split
  · rfl
  · split <;> simp_all

theorem placed_changed {after : Files}
    (draft : other.Drafted drafted (base ++ names) first content)
    (home : after.workingDir = drafted.workingDir)
    (moved : ∀ there, after.entry? there =
      if there = base ++ names ++ [last] then some (.file content)
      else if there = base ++ names ++ [first] then none else drafted.entry? there) :
    other.Changed after (placement.change files true (some content)) := by
  refine ⟨home.trans draft.home, fun here => ?_⟩
  rw [moved, draft.entries, change, route.target_dir, route.target_draft, route.target_goal]
  have apart : ∀ name, here = base ++ names ++ [name] → ¬ here <+: base ++ names := by
    rintro name rfl
    exact Files.not_on_way _ name
  have differ : here = base ++ names ++ [last] → here ≠ base ++ names ++ [first] := by
    rintro rfl same
    exact route.differ (List.singleton_inj.mp (List.append_cancel_left same)).symm
  by_cases goal : here = base ++ names ++ [last]
  · rw [if_pos goal, if_neg (apart last goal), if_neg fun draft => differ goal draft.2, if_pos goal]
    rfl
  rw [if_neg goal, if_neg goal]
  by_cases draft : here = base ++ names ++ [first]
  · rw [if_pos draft, if_neg (apart first draft), if_pos ⟨rfl, draft⟩]
    rfl
  rw [if_neg draft, if_neg draft]
  by_cases goes : here <+: base ++ names
  · rw [if_pos goes, if_pos goes]
    rfl
  · rw [if_neg goes, if_neg goes, if_neg fun same => draft same.2]
    rfl

/-- A draft that nothing hinders, and what is found once it is written. -/
theorem drafts (alike : placement.Alike files other) (paved : other.Paved made (base ++ names))
    (short : ∀ name ∈ names, name.length ≤ Files.maxName)
    (arrived : Files.arrive placement.draft (base ++ names) first = .ok (base ++ names ++ [first]))
    (free : other.entry? (base ++ names ++ [first]) ≠ some .directory) (content : Bytes) :
    ∃ drafted, made.write placement.draft content = .ok drafted ∧
      other.Drafted drafted (base ++ names) first content ∧
      drafted.locate placement.draft = .ok (base ++ names ++ [first]) ∧
      drafted.locate placement.goal = Files.arrive placement.goal (base ++ names) last := by
  have draft := paved.draft alike.sound free content
  have home := draft.home.trans alike.home
  refine ⟨_, Files.write_ok ((alike.locate paved short route.draft).trans arrived) ?_ _,
    draft, ?_, ?_⟩
  · rw [Files.isDirectory, paved.entries, if_neg (Files.not_on_way _ _)]
    exact decide_eq_false free
  · rw [(route.draft.congr home).locate_name draft.sound short draft.directory, arrived]
  · exact (route.goal.congr home).locate_name draft.sound short draft.directory

end

theorem draft_open {other : Files} (alike : placement.Alike files other)
    (free : files.isDirectory (files.target placement.draft) = false) :
    other.entry? (base ++ names ++ [first]) ≠ some .directory := by
  rw [← route.target_draft]
  exact of_decide_eq_false (alike.draft.trans free)

/-- With drafts in all trees that are alike, the goal decides whether they get there. -/
theorem course_drafted {content : Bytes}
    (clear : ∀ here, here <+: files.target placement.dir → files.isFile here = false)
    (free : files.isDirectory (files.target placement.draft) = false)
    (drafts : ∀ other, placement.Alike files other → ∃ made drafted,
      other.mkdirAll placement.dir = .ok made ∧ made.write placement.draft content = .ok drafted ∧
        other.Drafted drafted (base ++ names) first content ∧
        drafted.locate placement.draft = .ok (base ++ names ++ [first]) ∧
        drafted.locate placement.goal = Files.arrive placement.goal (base ++ names) last) :
    placement.Course files content := by
  cases reached : Files.arrive placement.goal (base ++ names) last with
  | error refusal =>
    refine .unplaced ⟨"rename", [placement.draft, placement.goal], refusal⟩ clear free
      fun other alike => ?_
    obtain ⟨made, drafted, done, written, draft, begins, ends⟩ := drafts other alike
    have failed := Files.rename_error begins draft.here (ends.trans reached)
    refine ⟨made, drafted, done, written, failed, ?_⟩
    rw [Files.removeAll_ok begins]
    exact route.erased_changed alike.sound (route.draft_open alike free) draft
  | ok location =>
    obtain rfl := Files.arrive_ok reached
    have goal : ∀ other drafted, placement.Alike files other →
        other.Drafted drafted (base ++ names) first content →
          drafted.isDirectory (base ++ names ++ [last]) =
            files.isDirectory (files.target placement.goal) := by
      intro other drafted alike draft
      rw [← alike.goal, Files.isDirectory, draft.other route.differ, ← route.target_goal]
      rfl
    by_cases blocked : files.isDirectory (files.target placement.goal) = true
    · refine .unplaced ⟨"rename", [placement.draft, placement.goal], .alreadyThere⟩ clear free
        fun other alike => ?_
      obtain ⟨made, drafted, done, written, draft, begins, ends⟩ := drafts other alike
      have failed := Files.rename_directory begins draft.here (ends.trans reached)
        (of_decide_eq_true ((goal other drafted alike draft).trans blocked))
      refine ⟨made, drafted, done, written, failed, ?_⟩
      rw [Files.removeAll_ok begins]
      exact route.erased_changed alike.sound (route.draft_open alike free) draft
    · have open_ : files.isDirectory (files.target placement.goal) = false :=
        Bool.not_eq_true _ |>.mp blocked
      refine .placed clear free open_ fun other alike => ?_
      obtain ⟨made, drafted, done, written, draft, begins, ends⟩ := drafts other alike
      obtain ⟨after, moved, home, entries⟩ := Files.rename_ok begins draft.here draft.sound
        (ends.trans reached) (of_decide_eq_false ((goal other drafted alike draft).trans open_))
        (by simpa using route.differ)
      exact ⟨made, drafted, after, done, written, moved, route.placed_changed draft home entries⟩

/-- How a placement goes is decided by the first of two trees that are alike. -/
theorem course (sound : files.Sound) (content : Bytes) : placement.Course files content := by
  have same : ∀ other, placement.Alike files other →
      Files.makeFault other.isFile base placement.dir names.reverse =
        Files.makeFault files.isFile base placement.dir names.reverse := by
    intro other alike
    refine Files.makeFault_congr (fun here goes => alike.way here ?_) _
    rwa [route.target_dir, ← names.reverse_reverse]
  cases outcome : Files.makeFault files.isFile base placement.dir names.reverse with
  | some fault =>
    refine .undirected fault fun other alike => ?_
    exact Files.mkdirAll_error alike.sound (route.dir.congr alike.home)
      ((same other alike).trans outcome)
  | none =>
    have clear : ∀ here, here <+: files.target placement.dir → files.isFile here = false := by
      rw [route.target_dir]
      simpa using Files.makeFault_clear (fun here goes =>
        Files.isFile_directory (sound.directory goes (route.dir.base_directory sound))) outcome
    have short := (Files.mkdirAll_ok sound route.dir outcome).1
    have pave : ∀ other, placement.Alike files other → ∃ made,
        other.mkdirAll placement.dir = .ok made ∧ other.Paved made (base ++ names) :=
      fun other alike => (Files.mkdirAll_ok alike.sound (route.dir.congr alike.home)
        ((same other alike).trans outcome)).2
    have located : ∀ other made, placement.Alike files other → other.Paved made (base ++ names) →
        made.locate placement.draft = Files.arrive placement.draft (base ++ names) first :=
      fun other made alike paved => alike.locate paved short route.draft
    cases arrived : Files.arrive placement.draft (base ++ names) first with
    | error refusal =>
      refine .undrafted ⟨"open", [placement.draft], refusal⟩ clear fun other alike => ?_
      obtain ⟨made, done, paved⟩ := pave other alike
      have refused := (located other made alike paved).trans arrived
      exact ⟨made, done, Files.write_error refused content, route.paved_changed paved⟩
    | ok location =>
      obtain rfl := Files.arrive_ok arrived
      by_cases hindered : files.isDirectory (files.target placement.draft) = true
      · refine .undrafted ⟨"open", [placement.draft], .isDirectory⟩ clear fun other alike => ?_
        obtain ⟨made, done, paved⟩ := pave other alike
        have there : made.isDirectory (base ++ names ++ [first]) = true := by
          rw [Files.isDirectory, paved.entries, if_neg (Files.not_on_way _ _), ← route.target_draft]
          exact alike.draft.trans hindered
        have reached := (located other made alike paved).trans arrived
        exact ⟨made, done, Files.write_directory reached there content, route.paved_changed paved⟩
      · have free : files.isDirectory (files.target placement.draft) = false :=
          Bool.not_eq_true _ |>.mp hindered
        refine route.course_drafted clear free fun other alike => ?_
        obtain ⟨made, done, paved⟩ := pave other alike
        obtain ⟨drafted, rest⟩ :=
          route.drafts alike paved short arrived (route.draft_open alike free) content
        exact ⟨made, drafted, done, rest⟩

end Route

/-- Where a placement can change a tree, and what it puts there. -/
structure Confined (files : Files) (placement : Placement) (change : Files.Change) : Prop where
  kinds : ∀ {here : Location} {entry : Option Entry}, change here = some entry →
    here <+: files.target placement.dir ∧ files.isFile here = false ∧ entry = some .directory ∨
    here = files.target placement.draft ∧ files.isDirectory here = false ∧ entry = none ∨
    here = files.target placement.goal ∧ files.isDirectory here = false ∧
      ∃ content, entry = some (.file content)
  paved : ∀ {here : Location}, change here ≠ none → ∀ there,
    there <+: files.target placement.dir → change there = some (some .directory)

/-- A change of a placement is on the way to its goal or to its draft. -/
theorem Confined.on_way {files : Files} {placement : Placement} {change : Files.Change}
    {base : Location} {names : List Bytes} {first last : Bytes}
    (confined : placement.Confined files change)
    (route : placement.Route files base names first last) {here : Location} {entry : Option Entry}
    (changed : change here = some entry) :
    here <+: files.target placement.goal ∨ here = files.target placement.draft := by
  rcases confined.kinds changed with ⟨way, -⟩ | ⟨draft, -⟩ | ⟨goal, -⟩
  · rw [route.target_dir] at way
    rw [route.target_goal]
    exact .inl (way.trans (List.prefix_append _ _))
  · exact .inr draft
  · exact .inl (goal ▸ List.prefix_rfl)

theorem confined_none (files : Files) (placement : Placement) :
    placement.Confined files fun _ => none := ⟨by simp, by simp⟩

theorem confined_change {files : Files} {placement : Placement}
    (clear : ∀ here, here <+: files.target placement.dir → files.isFile here = false)
    {drafted : Bool}
    (free : drafted = true → files.isDirectory (files.target placement.draft) = false)
    {placed : Option Bytes}
    (open_ : placed ≠ none → files.isDirectory (files.target placement.goal) = false) :
    placement.Confined files (placement.change files drafted placed) := by
  constructor
  · intro here entry changed
    unfold change at changed
    split at changed
    · next goes =>
      cases changed
      exact .inl ⟨goes, clear here goes, rfl⟩
    split at changed
    · next draft =>
      cases changed
      exact .inr (.inl ⟨draft.2, draft.2 ▸ free draft.1, rfl⟩)
    split at changed
    · next goal =>
      obtain ⟨content, rfl, rfl⟩ := Option.map_eq_some_iff.mp changed
      exact .inr (.inr ⟨goal, goal ▸ open_ (by simp), content, rfl⟩)
    · cases changed
  · intro here _ there goes
    rw [change, if_pos goes]

/-- A placement makes a tree grow. -/
theorem Confined.grows {files other after : Files} {placement : Placement} {change : Files.Change}
    {base : Location} {names : List Bytes} {first last : Bytes}
    (confined : placement.Confined files change)
    (route : placement.Route files base names first last) (alike : placement.Alike files other)
    (changed : other.Changed after change) : other.Grows after := by
  refine ⟨changed.home, ?_, ?_⟩
  · intro here directory
    rw [changed.entries]
    cases there : change here with
    | none => exact directory
    | some entry =>
      rcases confined.kinds there with ⟨-, -, rfl⟩ | ⟨rfl, free, -⟩ | ⟨rfl, free, -⟩
      · rfl
      · rw [← alike.draft] at free
        exact absurd directory (of_decide_eq_false free)
      · rw [← alike.goal] at free
        exact absurd directory (of_decide_eq_false free)
  · intro here name entry there old
    rw [changed.entries, old] at there
    rw [changed.entries]
    have touched : change (here ++ [name]) ≠ none := by
      intro same
      rw [same] at there
      cases there
    have goes : here <+: files.target placement.dir := by
      obtain ⟨placed, same⟩ := Option.ne_none_iff_exists'.mp touched
      rcases confined.kinds same with ⟨goes, -⟩ | ⟨-, -, rfl⟩ | ⟨goal, -⟩
      · exact (List.prefix_append here [name]).trans goes
      · rw [same] at there
        cases there
      · rw [route.target_goal] at goal
        rw [route.target_dir, (List.append_inj' goal rfl).1]
    rw [confined.paved touched here goes]
    rfl

/-- A placement gets to its goal when nothing is in its way. -/
theorem Route.placed {files : Files} {placement : Placement} {base : Location}
    {names : List Bytes} {first last : Bytes}
    (route : placement.Route files base names first last) (sound : files.Sound)
    (paves : Files.makeFault files.isFile base placement.dir names.reverse = none)
    (drafts : Files.arrive placement.draft (base ++ names) first = .ok (base ++ names ++ [first]))
    (arrives : Files.arrive placement.goal (base ++ names) last = .ok (base ++ names ++ [last]))
    (free : files.isDirectory (files.target placement.draft) = false)
    (open_ : files.isDirectory (files.target placement.goal) = false) (content : Bytes) :
    ∃ made drafted after, files.mkdirAll placement.dir = .ok made ∧
      made.write placement.draft content = .ok drafted ∧
      drafted.rename placement.draft placement.goal = .ok after ∧
      files.Changed after (placement.change files true (some content)) ∧ after.Sound := by
  have alike : placement.Alike files files := ⟨sound, rfl, fun _ _ => rfl, rfl, rfl⟩
  obtain ⟨short, made, done, paved⟩ := Files.mkdirAll_ok sound route.dir paves
  obtain ⟨drafted, written, draft, begins, ends⟩ :=
    route.drafts alike paved short drafts (route.draft_open alike free) content
  obtain ⟨after, moved, home, entries⟩ := Files.rename_ok begins draft.here draft.sound
    (ends.trans arrives) (by
      rw [draft.other route.differ, ← route.target_goal]
      exact of_decide_eq_false open_)
    (by simpa using route.differ)
  have changed := route.placed_changed draft home entries
  have clear := Files.makeFault_clear (fun here goes =>
    Files.isFile_directory (sound.directory goes (route.dir.base_directory sound))) paves
  rw [List.reverse_reverse, ← route.target_dir] at clear
  have confined := @confined_change files placement clear true (fun _ => free) (some content)
    fun _ => open_
  exact ⟨made, drafted, after, done, written, moved, changed,
    sound.grows (confined.grows route alike changed)⟩

/-- On the way to the goal, the goal alone is a file then. -/
theorem Route.placed_isFile {files after : Files} {placement : Placement} {base : Location}
    {names : List Bytes} {first last content : Bytes}
    (route : placement.Route files base names first last)
    (changed : files.Changed after (placement.change files true (some content)))
    {here : Location} (goes : here <+: files.target placement.goal) :
    after.isFile here = decide (here = files.target placement.goal) := by
  rw [Files.isFile, changed.entries, change]
  rw [route.target_goal, List.prefix_concat_iff] at goes
  rcases goes with rfl | goes
  · have differ : base ++ names ++ [last] ≠ base ++ names ++ [first] := fun same =>
      route.differ (List.singleton_inj.mp (List.append_cancel_left same)).symm
    rw [route.target_dir, if_neg (Files.not_on_way _ _), route.target_draft,
      if_neg (by simpa using differ), route.target_goal, if_pos rfl]
    simp
  · have apart : here ≠ files.target placement.goal := by
      rw [route.target_goal]
      rintro rfl
      exact Files.not_on_way _ _ goes
    rw [if_pos (by rwa [route.target_dir]), decide_eq_false apart]
    rfl

/-- A placement is clear of another whose draft or goal it does not hinder. -/
structure Clear (files : Files) (placement other : Placement) : Prop where
  draft : ¬ files.target placement.draft <+: files.target other.dir
  goal : ¬ files.target placement.goal <+: files.target other.dir
  draft_goal : files.target placement.draft ≠ files.target other.goal
  goals : files.target placement.goal ≠ files.target other.goal

/-- A change beside a placement: it is that of a placement, and both are clear of each other. The
drafts may be one file, since a draft is gone when its placement is over. -/
def Beside (files : Files) (placement : Placement) (change : Files.Change) : Prop :=
  (∀ here, change here = none) ∨
    ∃ other : Placement, other.Confined files change ∧ placement.Clear files other ∧
      other.Clear files placement

/-- Placements clear of each other agree where both change something. -/
theorem Confined.agree {files : Files} {placement : Placement} {change other : Files.Change}
    (confined : placement.Confined files change) (beside : placement.Beside files other)
    {here : Location} {entry old : Option Entry} (first : change here = some entry)
    (second : other here = some old) : entry = old := by
  rcases beside with nothing | ⟨neighbour, inside, clear, apart⟩
  · rw [nothing] at second
    cases second
  rcases confined.kinds first with ⟨goes, -, rfl⟩ | ⟨rfl, -, rfl⟩ | ⟨rfl, -, -⟩ <;>
    rcases inside.kinds second with ⟨way, -, rfl⟩ | ⟨place, -, rfl⟩ | ⟨place, -, -⟩
  · rfl
  · exact absurd (place ▸ goes) apart.draft
  · exact absurd (place ▸ goes) apart.goal
  · exact absurd way clear.draft
  · rfl
  · exact absurd place clear.draft_goal
  · exact absurd way clear.goal
  · exact absurd place.symm apart.draft_goal
  · exact absurd place clear.goals

end Placement

namespace Files

/-- Some changes were made to a tree, in some order. -/
structure Joined (files : Files) (done : Change → Prop) (after : Files) : Prop where
  sound : after.Sound
  home : after.workingDir = files.workingDir
  shows : ∀ {change : Change}, done change → ∀ {here : Location} {entry : Option Entry},
    change here = some entry → after.entry? here = entry
  rest : ∀ {here : Location}, (∀ change, done change → change here = none) →
    after.entry? here = files.entry? here

namespace Joined

variable {files after : Files} {done : Change → Prop}

theorem start (sound : files.Sound) (none_ : ∀ change, ¬ done change) : files.Joined done files :=
  ⟨sound, rfl, fun member => absurd member (none_ _), fun _ => rfl⟩

variable (joined : files.Joined done after)

include joined

theorem cases (here : Location) : after.entry? here = files.entry? here ∨
    ∃ change, done change ∧ change here = some (after.entry? here) := by
  by_cases touched : ∃ change, done change ∧ change here ≠ none
  · obtain ⟨change, member, some_⟩ := touched
    obtain ⟨entry, there⟩ := Option.ne_none_iff_exists'.mp some_
    exact .inr ⟨change, member, by rw [there, joined.shows member there]⟩
  · refine .inl (joined.rest fun change member => ?_)
    by_contra some_
    exact touched ⟨change, member, some_⟩

/-- Changes beside a placement leave it a tree like the first. -/
theorem alike {placement : Placement}
    (beside : ∀ change, done change → placement.Beside files change) :
    placement.Alike files after := by
  have origin : ∀ here, after.entry? here = files.entry? here ∨ ∃ other : Placement,
      placement.Clear files other ∧ other.Clear files placement ∧
      (here <+: files.target other.dir ∧ files.isFile here = false ∧
          after.entry? here = some .directory ∨
        here = files.target other.draft ∧ files.isDirectory here = false ∧
          after.entry? here = none ∨
        here = files.target other.goal) := by
    intro here
    rcases joined.cases here with same | ⟨change, member, there⟩
    · exact .inl same
    rcases beside change member with nothing | ⟨other, confined, clear, apart⟩
    · rw [nothing] at there
      cases there
    · exact .inr ⟨other, clear, apart,
        (confined.kinds there).imp_right (Or.imp_right And.left)⟩
  refine ⟨joined.sound, joined.home, ?_, ?_, ?_⟩
  · intro here goes
    rcases origin here with same | ⟨other, -, apart, ⟨-, old, now⟩ | ⟨rfl, -⟩ | rfl⟩
    · rw [isFile, isFile, same]
    · rw [isFile_directory now, old]
    · exact absurd goes apart.draft
    · exact absurd goes apart.goal
  · rcases origin (files.target placement.draft) with
      same | ⟨other, clear, -, ⟨goes, -⟩ | ⟨-, old, now⟩ | goal⟩
    · rw [isDirectory, isDirectory, same]
    · exact absurd goes clear.draft
    · rw [isDirectory, now, old]
      rfl
    · exact absurd goal clear.draft_goal
  · rcases origin (files.target placement.goal) with
      same | ⟨other, clear, apart, ⟨goes, -⟩ | ⟨place, -⟩ | goal⟩
    · rw [isDirectory, isDirectory, same]
    · exact absurd goes clear.goal
    · exact absurd place.symm apart.draft_goal
    · exact absurd goal clear.goals

/-- One more change, of a placement beside which the others are. -/
theorem add {later : Files} {placement : Placement} {change : Change} {base : Location}
    {names : List Bytes} {first last : Bytes}
    (route : placement.Route files base names first last)
    (beside : ∀ other, done other → placement.Beside files other)
    (confined : placement.Confined files change) (changed : after.Changed later change) :
    files.Joined (fun other => done other ∨ other = change) later := by
  refine ⟨joined.sound.grows (confined.grows route (joined.alike beside) changed),
    changed.home.trans joined.home, ?_, ?_⟩
  · rintro other (member | rfl) here entry there
    · rw [changed.entries]
      cases again : change here with
      | none => exact joined.shows member there
      | some old => exact confined.agree (beside other member) again there
    · rw [changed.entries, there]
      rfl
  · intro here untouched
    rw [changed.entries, untouched change (.inr rfl)]
    exact joined.rest fun other member => untouched other (.inl member)

/-- A change of nothing. -/
theorem idle {later : Files} {change : Change} (nothing : ∀ here, change here = none)
    (changed : after.Changed later change) :
    files.Joined (fun other => done other ∨ other = change) later := by
  have same : ∀ here, later.entry? here = after.entry? here := by
    intro here
    rw [changed.entries, nothing]
    rfl
  refine ⟨joined.sound.grows ⟨changed.home, ?_, ?_⟩, changed.home.trans joined.home, ?_, ?_⟩
  · intro here directory
    rwa [same]
  · intro here name entry there old
    rw [same, old] at there
    cases there
  · rintro other (member | rfl) here entry there
    · rw [same]
      exact joined.shows member there
    · rw [nothing] at there
      cases there
  · intro here untouched
    rw [same]
    exact joined.rest fun other member => untouched other (.inl member)

/-- Changes of nothing do not count. -/
theorem congr {other : Change → Prop} (more : ∀ change, other change → done change)
    (fewer : ∀ change, done change → other change ∨ ∀ here, change here = none) :
    files.Joined other after := by
  refine ⟨joined.sound, joined.home, fun member => joined.shows (more _ member), ?_⟩
  exact fun untouched => joined.rest fun change member =>
    (fewer change member).elim (untouched change) fun nothing => nothing _

/-- What was done is all that matters, not the order. -/
theorem unique {later : Files} (other : files.Joined done later) (here : Location) :
    after.entry? here = later.entry? here := by
  rcases joined.cases here with same | ⟨change, member, there⟩
  · rcases other.cases here with still | ⟨change, member, there⟩
    · rw [same, still]
    · exact joined.shows member there
  · exact (other.shows member there).symm

end Joined

end Files

end Minilang
