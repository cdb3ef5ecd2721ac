import Mathlib.Data.List.Infix
import Minilang.Proofs.OutputPaths

/-! What the operations on a tree of files do, location by location. In a sound tree every entry
lies in a directory. A path that goes up first and then only down meets nothing but directories on
its way up, so what an operation on it answers depends on the few locations of its way down. -/

namespace Minilang

namespace Bytes

/-- A byte of a text that is taken apart at others is in one of the pieces. -/
theorem mem_split {byte b : UInt8} (differ : b ≠ byte) {text : Bytes} (member : b ∈ text) :
    ∃ part ∈ split byte text, b ∈ part := by
  by_cases inside : byte ∈ text
  · obtain ⟨before, behind, rfl, absent⟩ := List.eq_append_cons_of_mem inside
    rw [split_line absent]
    simp only [List.mem_append, List.mem_cons, differ, false_or] at member
    rcases member with first | rest
    · exact ⟨before, List.mem_cons_self, first⟩
    · obtain ⟨part, later, found⟩ := mem_split differ rest
      exact ⟨part, List.mem_cons_of_mem _ later, found⟩
  · rw [split_of_absent inside]
    exact ⟨text, List.mem_cons_self, member⟩
termination_by text.length
decreasing_by simp_all; omega

end Bytes

namespace Path

/-- What stands before the last name of a path: nothing, or something that ends in a slash. -/
def IsFront (front : Bytes) : Prop := front = [] ∨ ∃ above, front = above ++ [47]

theorem exists_front (path : Bytes) :
    ∃ front name, path = front ++ name ∧ IsFront front ∧ 47 ∉ name := by
  obtain ⟨name, absent, -, ⟨whole, -⟩ | ⟨above, whole, -⟩⟩ := split_last path
  · exact ⟨[], name, whole, .inl rfl, absent⟩
  · exact ⟨above ++ [47], name, by simpa using whole, .inr ⟨above, rfl⟩, absent⟩

section

variable {front name : Bytes}

theorem dropWhile_name (ends : IsFront front) (absent : 47 ∉ name) :
    (front ++ name).reverse.dropWhile (· != 47) = front.reverse := by
  have free : ∀ b ∈ name.reverse, (b != 47) = true := by
    intro b member
    rw [bne_iff_ne]
    rintro rfl
    exact absent (List.mem_reverse.mp member)
  rw [List.reverse_append, List.dropWhile_append_of_pos free]
  rcases ends with rfl | ⟨above, rfl⟩
  · rfl
  · rw [List.reverse_append, List.reverse_singleton, List.singleton_append,
      List.dropWhile_cons_of_neg (by decide)]

theorem takeWhile_name (ends : IsFront front) (absent : 47 ∉ name) :
    (front ++ name).reverse.takeWhile (· != 47) = name.reverse := by
  have whole := List.takeWhile_append_dropWhile (p := (· != 47)) (l := (front ++ name).reverse)
  rw [dropWhile_name ends absent, List.reverse_append] at whole
  rw [List.reverse_append]
  exact List.append_cancel_right whole

theorem bare_name (some_ : name ≠ []) (absent : 47 ∉ name) (front : Bytes) :
    (front ++ name).reverse.dropWhile (· == 47) = (front ++ name).reverse := by
  rw [List.reverse_append]
  cases back : name.reverse with
  | nil => exact absurd (List.reverse_eq_nil_iff.mp back) some_
  | cons b rest =>
    have member : b ∈ name := List.mem_reverse.mp (back ▸ List.mem_cons_self)
    have differ : b ≠ 47 := fun same => absent (same ▸ member)
    rw [List.cons_append, List.dropWhile_cons_of_neg (by simpa using differ)]

end

end Path

namespace Files


/-- Every entry lies in a directory, and relative paths start in one. -/
structure Sound (files : Files) : Prop where
  parent : ∀ {here : Location} {name : Bytes} {entry : Entry},
    files.entry? (here ++ [name]) = some entry → files.entry? here = some .directory
  home : files.entry? (Path.components files.workingDir) = some .directory

@[simp] theorem entry?_nil (files : Files) : files.entry? [] = some .directory := rfl

theorem entry?_of_ne {location : Location} (below : location ≠ []) (files : Files) :
    files.entry? location = files.entries.lookup location := by
  cases location with
  | nil => exact absurd rfl below
  | cons name rest => rfl

theorem entry?_of_mem {files : Files} {item : Location × Entry} (member : item ∈ files.entries)
    (below : item.1 ≠ []) : ∃ entry, files.entry? item.1 = some entry := by
  rw [entry?_of_ne below, ← Option.isSome_iff_exists, List.lookup_isSome_iff]
  exact ⟨item, member, beq_self_eq_true _⟩

theorem Sound.of_entries {files : Files}
    (inside : ∀ item ∈ files.entries, files.isDirectory item.1.dropLast = true)
    (home : files.isDirectory (Path.components files.workingDir) = true) : files.Sound := by
  refine ⟨fun {here name entry} there => ?_, of_decide_eq_true home⟩
  rw [entry?_of_ne (by simp)] at there
  obtain ⟨before, behind, whole, -⟩ := List.lookup_eq_some_iff.mp there
  have directory := inside (here ++ [name], entry)
    (whole ▸ List.mem_append_right _ List.mem_cons_self)
  rw [List.dropLast_concat] at directory
  exact of_decide_eq_true directory

/-- Whether there is a file at a location. -/
def isFile (files : Files) (location : Location) : Bool :=
  (files.entry? location).any (· ≠ .directory)

namespace Sound

variable {files : Files} (sound : files.Sound)

include sound

theorem above {here down : Location} {entry : Entry} (some_ : down ≠ [])
    (there : files.entry? (here ++ down) = some entry) : files.entry? here = some .directory := by
  induction down using List.reverseRecOn generalizing entry with
  | nil => exact absurd rfl some_
  | append_singleton down name ih =>
    rw [← List.append_assoc] at there
    have parent := sound.parent there
    cases down with
    | nil => simpa using parent
    | cons first down => exact ih (List.cons_ne_nil _ _) parent

/-- What leads to a directory is one. -/
theorem directory {here there : Location} (goes : here <+: there)
    (directory : files.entry? there = some .directory) : files.entry? here = some .directory := by
  obtain ⟨down, rfl⟩ := goes
  cases down with
  | nil => simpa using directory
  | cons name down => exact sound.above (List.cons_ne_nil _ _) directory

/-- There is nothing below a file. -/
theorem below_file {here there : Location} (goes : here <+: there) (differ : here ≠ there)
    (other : files.entry? here ≠ some .directory) : files.entry? there = none := by
  obtain ⟨down, rfl⟩ := goes
  cases found : files.entry? (here ++ down) with
  | none => rfl
  | some entry =>
    refine absurd (sound.above ?_ found) other
    rintro rfl
    exact differ (List.append_nil here).symm

end Sound

private theorem lookup_item (there at_ : Location) (old : Entry)
    (entries : List (Location × Entry)) :
    List.lookup there ((at_, old) :: entries) =
      if there = at_ then some old else entries.lookup there := by
  rw [List.lookup_cons]
  by_cases here : there = at_
  · rw [if_pos here, beq_iff_eq.mpr here]
  · rw [if_neg here, beq_eq_false_iff_ne.mpr here]

theorem entry?_set {location : Location} (below : location ≠ []) (files : Files) (entry : Entry)
    (there : Location) :
    entry? (files.set location entry) there =
      if there = location then some entry else files.entry? there := by
  by_cases root : there = []
  · subst root
    rw [if_neg (Ne.symm below)]
    rfl
  rw [entry?_of_ne root, entry?_of_ne root]
  unfold set
  split
  · next found =>
    have mapped : ∀ entries : List (Location × Entry), List.lookup there
        (entries.map fun item => (item.1, if item.1 = location then entry else item.2)) =
          if there = location then (entries.lookup there).map fun _ => entry
          else entries.lookup there := by
      intro entries
      induction entries with
      | nil => simp
      | cons item entries ih =>
        rw [List.map_cons, lookup_item, lookup_item, ih]
        by_cases here : there = item.1
        · by_cases same : item.1 = location <;> simp [here, same]
        · rw [if_neg here, if_neg here]
    refine (mapped files.entries).trans ?_
    by_cases same : there = location
    · subst same
      obtain ⟨old, found⟩ := Option.isSome_iff_exists.mp found
      rw [if_pos rfl, if_pos rfl, found]
      rfl
    · rw [if_neg same, if_neg same]
  · next missing =>
    dsimp only
    rw [List.lookup_append, lookup_item]
    by_cases same : there = location
    · subst same
      rw [Option.not_isSome_iff_eq_none.mp missing, if_pos rfl, Option.none_or, if_pos rfl]
    · rw [if_neg same, if_neg same, List.lookup_nil, Option.or_none]

theorem entry?_erase {location : Location} (below : location ≠ []) (files : Files)
    (there : Location) :
    entry? (files.erase location) there =
      if location <+: there then none else files.entry? there := by
  by_cases root : there = []
  · subst root
    rw [if_neg (by rwa [List.prefix_nil])]
    rfl
  rw [entry?_of_ne root, entry?_of_ne root]
  change List.lookup there (files.entries.filter fun item => !location.isPrefixOf item.1) = _
  induction files.entries with
  | nil => simp
  | cons item entries ih =>
    rw [List.filter_cons, lookup_item, apply_ite (List.lookup there), lookup_item, ih]
    by_cases inside : location <+: item.1
    · by_cases here : there = item.1 <;> simp [here, inside]
    · by_cases here : there = item.1 <;> simp [here, inside]

/-- Entries of which one is given another location that is free. -/
theorem lookup_moved {start goal : Location} (entries : List (Location × Entry))
    (alone : ∀ item ∈ entries, start <+: item.1 → item.1 = start)
    (free : ∀ item ∈ entries, item.1 ≠ goal) (there : Location) :
    List.lookup there (entries.map fun item =>
      (if start.isPrefixOf item.1 then goal ++ item.1.drop start.length else item.1, item.2)) =
        if there = goal then entries.lookup start
        else if there = start then none else entries.lookup there := by
  induction entries with
  | nil => simp
  | cons item entries ih =>
    rw [List.forall_mem_cons] at alone free
    rw [List.map_cons, lookup_item, ih alone.2 free.2, lookup_item, lookup_item]
    by_cases moved : start <+: item.1
    · have here := alone.1 moved
      rw [if_pos (List.isPrefixOf_iff_prefix.mpr moved), here, List.drop_length, List.append_nil]
      by_cases same : there = goal
      · rw [if_pos same, if_pos same, if_pos rfl]
      · rw [if_neg same, if_neg same, if_neg same]
        by_cases old : there = start
        · rw [if_pos old, if_pos old]
        · rw [if_neg old, if_neg old, if_neg old]
    · have apart : start ≠ item.1 := fun same => moved (same ▸ List.prefix_rfl)
      have stays : ¬ start.isPrefixOf item.1 = true := by rwa [List.isPrefixOf_iff_prefix]
      rw [if_neg stays, if_neg apart]
      by_cases same : there = item.1
      · subst same
        rw [if_pos rfl, if_neg free.1, if_neg (Ne.symm apart), if_pos rfl]
      · rw [if_neg same, if_neg same]

theorem walk_append (files : Files) (here : Location) (parts more : List Bytes) :
    files.walk here (parts ++ more) =
      files.walk here parts >>= fun there => files.walk there more := by
  induction parts generalizing here with
  | nil => rfl
  | cons part parts ih =>
    rw [List.cons_append, walk, walk]
    cases files.entry? here with
    | none => rfl
    | some entry =>
      cases entry with
      | file content => rfl
      | directory =>
        dsimp only
        repeat' split
        all_goals first | exact ih _ | rfl

/-- From a directory, every way up or to the same place is open. -/
theorem walk_up {files : Files} (sound : files.Sound) {parts : List Bytes}
    (up : ∀ part ∈ parts, ¬ IsPlain part) {here : Location}
    (directory : files.entry? here = some .directory) :
    files.walk here parts = .ok (parts.foldl Location.enter here) ∧
      files.entry? (parts.foldl Location.enter here) = some .directory := by
  induction parts generalizing here with
  | nil => exact ⟨rfl, directory⟩
  | cons part parts ih =>
    rw [List.forall_mem_cons] at up
    rw [walk, directory, List.foldl_cons, Location.enter]
    dsimp only
    split
    · exact ih up.2 directory
    · next moves =>
      have up_ : part = ".." := by
        simp only [Bool.or_eq_true, decide_eq_true_eq, not_or] at moves
        by_contra down
        exact up.1 ⟨moves.1, moves.2, down⟩
      rw [if_pos up_, if_pos up_]
      exact ih up.2 (sound.directory (List.dropLast_prefix here) directory)

theorem walk_name {files : Files} {here : Location} {name : Bytes} (plain : IsPlain name)
    (directory : files.entry? here = some .directory) :
    files.walk here [name] =
      if maxName < name.length then .error .nameTooLong else .ok (here ++ [name]) := by
  rw [walk, directory]
  simp [plain.1, plain.2.1, plain.2.2, walk]

/-- Short names lead to a directory. -/
theorem walk_down {files : Files} (sound : files.Sound) {here : Location} {names : List Bytes}
    (plain : ∀ name ∈ names, IsPlain name) (short : ∀ name ∈ names, name.length ≤ maxName)
    (directory : files.entry? (here ++ names) = some .directory) :
    files.walk here names = .ok (here ++ names) := by
  induction names using List.reverseRecOn with
  | nil => simp [walk]
  | append_singleton names name ih =>
    rw [List.forall_mem_append] at plain short
    rw [← List.append_assoc] at directory
    have above := sound.parent directory
    rw [walk_append, ih plain.1 short.1 above]
    simp only [ok_bind]
    rw [walk_name (plain.2 name List.mem_cons_self) above, if_neg, List.append_assoc]
    exact Nat.not_lt.mpr (short.2 name List.mem_cons_self)

/-- What a walk over names has found. -/
theorem walk_down_ok {files : Files} {here goal : Location} {names : List Bytes}
    (plain : ∀ name ∈ names, IsPlain name) (reached : files.walk here names = .ok goal) :
    ∀ name ∈ names, name.length ≤ maxName := by
  induction names generalizing here with
  | nil => simp
  | cons name names ih =>
    rw [List.forall_mem_cons] at plain ⊢
    rw [walk] at reached
    split at reached
    · cases reached
    · cases reached
    · rw [if_neg (by simp [plain.1.1, plain.1.2.1]), if_neg plain.1.2.2] at reached
      split at reached
      · cases reached
      · next short => exact ⟨Nat.not_lt.mp short, ih plain.2 reached⟩

/-- A path that goes up to a base, or stays there, and then down by names. -/
structure Leads (files : Files) (path : Bytes) (base : Location) (names : List Bytes) : Prop where
  some_ : path ≠ []
  parts : ∃ up, Bytes.split 47 path = up ++ names ∧ (∀ part ∈ up, ¬ IsPlain part) ∧
    base = up.foldl Location.enter (files.start path)
  plain : ∀ name ∈ names, IsPlain name

theorem Sound.start {files : Files} (sound : files.Sound) (path : Bytes) :
    files.entry? (files.start path) = some .directory := by
  unfold Files.start
  split
  · rfl
  · exact sound.home

/-- Where a path arrives that ends in a name of a directory. -/
def arrive (path : Bytes) (way : Location) (name : Bytes) : Except Refusal Location :=
  if path.contains 0 then .error .invalidPath
  else if maxName < name.length then .error .nameTooLong
  else .ok (way ++ [name])

theorem arrive_ok {path : Bytes} {way location : Location} {name : Bytes}
    (reached : arrive path way name = .ok location) : location = way ++ [name] := by
  unfold arrive at reached
  split at reached
  · cases reached
  split at reached
  · cases reached
  · cases reached
    rfl

namespace Leads

variable {files : Files} {path : Bytes} {base : Location} {names : List Bytes}

theorem target (leads : files.Leads path base names) : files.target path = base ++ names := by
  obtain ⟨up, whole, -, rfl⟩ := leads.parts
  rw [Files.target, whole, List.foldl_append]
  have down : ∀ (names : List Bytes) (here : Location), (∀ name ∈ names, IsPlain name) →
      names.foldl Location.enter here = here ++ names := by
    intro names
    induction names with
    | nil => simp
    | cons name names ih =>
      intro here plain
      rw [List.forall_mem_cons] at plain
      rw [List.foldl_cons, Location.enter_plain plain.1, ih _ plain.2]
      simp
  exact down _ _ leads.plain

theorem base_directory (leads : files.Leads path base names) (sound : files.Sound) :
    files.entry? base = some .directory := by
  obtain ⟨up, -, steps, rfl⟩ := leads.parts
  exact (walk_up sound steps (sound.start path)).2

theorem locate (leads : files.Leads path base names) (sound : files.Sound) :
    files.locate path =
      if path.contains 0 then .error .invalidPath else files.walk base names := by
  obtain ⟨up, whole, steps, rfl⟩ := leads.parts
  rw [Files.locate, if_neg (by simpa using leads.some_)]
  split
  · rfl
  · change files.walk (files.start path) _ = _
    rw [whole, walk_append, (walk_up sound steps (sound.start path)).1]
    rfl

/-- With the directory there, what a path leads to depends on the path alone. -/
theorem locate_name {name : Bytes} (leads : files.Leads path base (names ++ [name]))
    (sound : files.Sound) (short : ∀ name ∈ names, name.length ≤ maxName)
    (directory : files.entry? (base ++ names) = some .directory) :
    files.locate path = arrive path (base ++ names) name := by
  have plain := List.forall_mem_append.mp leads.plain
  rw [leads.locate sound, walk_append, walk_down sound plain.1 short directory]
  simp only [ok_bind]
  rw [walk_name (plain.2 name List.mem_cons_self) directory]
  rfl

theorem congr {after : Files} (leads : files.Leads path base names)
    (same : after.workingDir = files.workingDir) : after.Leads path base names := by
  obtain ⟨up, whole, steps, start⟩ := leads.parts
  refine ⟨leads.some_, ⟨up, whole, steps, ?_⟩, leads.plain⟩
  rw [start, Files.start, Files.start, same]

end Leads

/-- Directories stay, and what is new lies in one. -/
structure Grows (files after : Files) : Prop where
  home : after.workingDir = files.workingDir
  stays : ∀ {here : Location}, files.entry? here = some .directory →
    after.entry? here = some .directory
  inside : ∀ {here : Location} {name : Bytes} {entry : Entry},
    after.entry? (here ++ [name]) = some entry → files.entry? (here ++ [name]) = none →
      after.entry? here = some .directory

theorem Sound.grows {files after : Files} (sound : files.Sound) (grows : files.Grows after) :
    after.Sound := by
  refine ⟨?_, ?_⟩
  · intro here name entry there
    cases old : files.entry? (here ++ [name]) with
    | none => exact grows.inside there old
    | some entry => exact grows.stays (sound.parent old)
  · rw [grows.home]
    exact grows.stays sound.home

/-- The directories down to a location are there, and nothing else has changed. -/
structure Paved (files after : Files) (way : Location) : Prop where
  home : after.workingDir = files.workingDir
  entries : ∀ here, after.entry? here =
    if here <+: way then some .directory else files.entry? here

theorem Paved.grows {files after : Files} {way : Location} (paved : files.Paved after way) :
    files.Grows after := by
  refine ⟨paved.home, ?_, ?_⟩
  · intro here directory
    rw [paved.entries, directory, ite_self]
  · intro here name entry there old
    rw [paved.entries, old] at there
    rw [paved.entries, if_pos]
    by_contra apart
    rw [if_neg fun goes => apart ((List.prefix_append here [name]).trans goes)] at there
    cases there

/-- The last name is behind a front, and what is before it is in front of it. -/
theorem Leads.name {files : Files} {path : Bytes} {base : Location} {names : List Bytes}
    {name : Bytes} (leads : files.Leads path base (names ++ [name])) :
    ∃ front, path = front ++ name ∧ Path.IsFront front ∧ 47 ∉ name ∧
      (front.dropLast = [] ∧ names = [] ∨ files.Leads front.dropLast base names) := by
  obtain ⟨up, whole, steps, start⟩ := leads.parts
  obtain ⟨front, last, rfl, ends, absent⟩ := Path.exists_front path
  have plain := List.forall_mem_append.mp leads.plain
  rcases ends with rfl | ⟨above, rfl⟩
  · rw [List.nil_append, Bytes.split_of_absent absent, ← List.append_assoc] at whole
    rw [← List.nil_append [last]] at whole
    obtain ⟨none_, same⟩ := List.append_inj' whole rfl
    obtain ⟨rfl, rfl⟩ := List.append_eq_nil_iff.mp none_.symm
    obtain rfl := List.singleton_inj.mp same
    exact ⟨[], rfl, .inl rfl, absent, .inl ⟨rfl, rfl⟩⟩
  · rw [List.append_assoc, List.singleton_append, Bytes.split_append, Bytes.split_of_absent absent,
      ← List.append_assoc] at whole
    obtain ⟨parts, same⟩ := List.append_inj' whole rfl
    obtain rfl := List.singleton_inj.mp same
    refine ⟨above ++ [47], rfl, .inr ⟨above, rfl⟩, absent, ?_⟩
    rw [List.dropLast_concat]
    cases above with
    | nil =>
      -- a path below the root: all that is in front of the name is the empty part
      refine .inl ⟨rfl, List.eq_nil_iff_forall_not_mem.mpr fun part member => ?_⟩
      have empty : part ∈ Bytes.split 47 [] := parts ▸ List.mem_append_right up member
      rw [Bytes.split_nil, List.mem_singleton] at empty
      exact (plain.1 part member).1 empty
    | cons b above =>
      exact .inr ⟨List.cons_ne_nil _ _, ⟨up, parts, steps, start⟩, plain.1⟩

/-- Why a directory cannot be made, where the names above it are in reverse: the first fault on
the way down. It depends on the path and on which locations are files. -/
def makeFault (isFile : Location → Bool) (base : Location) : Bytes → List Bytes → Option FileFault
  | _, [] => none
  | path, name :: above =>
      (makeFault isFile base (parentPath path) above).or <|
        (if path.contains 0 then some .invalidPath
          else if maxName < name.length then some .nameTooLong
          else if isFile (base ++ (name :: above).reverse) then some .notDirectory
          else none).map (FileFault.mk "mkdir" [path])

theorem makeFault_congr {isFile other : Location → Bool} {base : Location} {names : List Bytes}
    (same : ∀ here, here <+: base ++ names.reverse → isFile here = other here) (path : Bytes) :
    makeFault isFile base path names = makeFault other base path names := by
  induction names generalizing path with
  | nil => rfl
  | cons name above ih =>
    rw [makeFault, makeFault, same _ List.prefix_rfl, ih]
    intro here goes
    refine same here (goes.trans ?_)
    rw [List.reverse_cons, ← List.append_assoc]
    exact List.prefix_append _ _

theorem mem_of_parentPath {path : Bytes} {b : UInt8} (member : b ∈ parentPath path) : b ∈ path := by
  rw [parentPath, List.mem_reverse] at member
  have inside := (List.dropWhile_sublist _).subset (List.mem_of_mem_drop member)
  exact List.mem_reverse.mp ((List.dropWhile_sublist _).subset inside)

/-- Without a file on the way, short names can be made. -/
theorem makeFault_none {isFile : Location → Bool} {base : Location} {names : List Bytes}
    (clear : ∀ here, here <+: base ++ names.reverse → isFile here = false)
    (short : ∀ name ∈ names, name.length ≤ maxName) {path : Bytes} (absent : 0 ∉ path) :
    makeFault isFile base path names = none := by
  induction names generalizing path with
  | nil => rfl
  | cons name above ih =>
    rw [List.forall_mem_cons] at short
    have above_ : ∀ here, here <+: base ++ above.reverse → isFile here = false := by
      intro here goes
      refine clear here (goes.trans ?_)
      rw [List.reverse_cons, ← List.append_assoc]
      exact List.prefix_append _ _
    rw [makeFault, ih above_ short.2 (fun member => absent (mem_of_parentPath member)),
      if_neg (by simpa using absent), if_neg (Nat.not_lt.mpr short.1),
      if_neg (by rw [clear _ List.prefix_rfl]; decide)]
    rfl

/-- Where directories can be made, there is no file on the way. -/
theorem makeFault_clear {isFile : Location → Bool} {base : Location}
    (start : ∀ here, here <+: base → isFile here = false) {names : List Bytes} {path : Bytes}
    (none_ : makeFault isFile base path names = none) :
    ∀ here, here <+: base ++ names.reverse → isFile here = false := by
  induction names generalizing path with
  | nil => simpa using start
  | cons name above ih =>
    rw [makeFault, Option.or_eq_none_iff] at none_
    intro here goes
    rw [List.reverse_cons, ← List.append_assoc, List.prefix_concat_iff] at goes
    rcases goes with rfl | goes
    · have last := none_.2
      rw [Option.map_eq_none_iff, List.reverse_cons, ← List.append_assoc] at last
      split at last
      · cases last
      split at last
      · cases last
      split at last
      · cases last
      · next clear => exact Bool.not_eq_true _ |>.mp clear
    · exact ih none_.1 here goes

theorem stat_ok {files : Files} {path : Bytes} {location : Location} {entry : Entry}
    (reached : files.locate path = .ok location) (there : files.entry? location = some entry) :
    files.stat path = .ok entry := by
  rw [stat, reached]
  simp only [withAction, ok_bind, there]

theorem stat_error {files : Files} {path : Bytes}
    (missing : ∀ location, files.locate path = .ok location → files.entry? location = none) :
    ∃ fault, files.stat path = .error fault := by
  rw [stat]
  cases reached : files.locate path with
  | error refusal => exact ⟨_, rfl⟩
  | ok location =>
    simp only [withAction, ok_bind, missing location reached]
    exact ⟨_, rfl⟩

theorem Leads.zero_absent {files : Files} {path : Bytes} {base : Location}
    (leads : files.Leads path base []) : path.contains 0 = false := by
  obtain ⟨up, whole, steps, -⟩ := leads.parts
  rw [List.append_nil] at whole
  rw [← Bool.not_eq_true, List.contains_iff_mem]
  intro member
  obtain ⟨part, inside, zero⟩ := Bytes.mem_split (show (0 : UInt8) ≠ 47 by decide) member
  refine steps part (whole ▸ inside) ?_
  refine ⟨?_, ?_, ?_⟩ <;> rintro rfl <;> exact absurd zero (by decide)

theorem Paved.refl {files : Files} (sound : files.Sound) {way : Location}
    (directory : files.entry? way = some .directory) : files.Paved files way := by
  refine ⟨rfl, fun here => ?_⟩
  split
  · next goes => exact sound.directory goes directory
  · rfl

/-- One more directory at the end of the way. -/
theorem Paved.set {files after : Files} {way : Location} (paved : files.Paved after way)
    (name : Bytes) : files.Paved (after.set (way ++ [name]) .directory) (way ++ [name]) := by
  refine ⟨(set_workingDir ..).trans paved.home, fun here => ?_⟩
  rw [entry?_set (by simp), paved.entries]
  by_cases last : here = way ++ [name]
  · rw [if_pos last, if_pos (last ▸ List.prefix_rfl)]
  · rw [if_neg last]
    by_cases goes : here <+: way
    · rw [if_pos goes, if_pos (goes.trans (List.prefix_append _ _))]
    · rw [if_neg goes, if_neg fun inside => (List.prefix_concat_iff.mp inside).elim last goes]

theorem isFile_directory {files : Files} {here : Location}
    (directory : files.entry? here = some .directory) : files.isFile here = false := by
  rw [isFile, directory]
  rfl

theorem isFile_eq_true {files : Files} {here : Location} :
    files.isFile here = true ↔ ∃ content, files.entry? here = some (.file content) := by
  unfold isFile
  cases files.entry? here with
  | none => simp
  | some entry => cases entry <;> simp

section

variable {files : Files} {front name : Bytes} (some_ : name ≠ []) (absent : 47 ∉ name)

include some_ absent

theorem mkdir_error {refusal : Refusal} (refused : files.locate (front ++ name) = .error refusal) :
    files.mkdir (front ++ name) = .error ⟨"mkdir", [front ++ name], refusal⟩ := by
  rw [mkdir, Path.bare_name some_ absent, List.reverse_reverse,
    if_neg (by simp [some_]), refused]
  rfl

theorem mkdir_new {location : Location} (reached : files.locate (front ++ name) = .ok location)
    (missing : files.entry? location = none) :
    files.mkdir (front ++ name) = .ok (files.set location .directory) := by
  rw [mkdir, Path.bare_name some_ absent, List.reverse_reverse,
    if_neg (by simp [some_]), reached]
  simp only [withAction, ok_bind, missing]

theorem parentPath_name (ends : Path.IsFront front) :
    parentPath (front ++ name) = front.dropLast := by
  rw [parentPath, Path.bare_name some_ absent, Path.dropWhile_name ends absent, List.drop_one,
    List.tail_reverse, List.reverse_reverse]

end

/-- The path of the parent leads to it, unless the name is the whole path. -/
theorem Leads.parent {files : Files} {path name : Bytes} {base : Location} {names : List Bytes}
    (leads : files.Leads path base (names ++ [name])) :
    parentPath path = [] ∧ names = [] ∨
      files.Leads (parentPath path) base names ∧ (parentPath path).length < path.length := by
  obtain ⟨front, rfl, ends, absent, above⟩ := leads.name
  have some_ := (List.forall_mem_append.mp leads.plain).2 name List.mem_cons_self |>.1
  rw [parentPath_name some_ absent ends]
  refine above.imp id fun above => ⟨above, ?_⟩
  have size := List.length_pos_iff.mpr some_
  rw [List.length_dropLast, List.length_append]
  omega

theorem mkdirAllLoop_missing {files : Files} {path : Bytes}
    (missing : ∃ fault, files.stat path = .error fault) (fuel : Nat) :
    mkdirAllLoop (fuel + 1) files path =
      (if (parentPath path).isEmpty then .ok files
        else mkdirAllLoop fuel files (parentPath path)) >>= fun made => made.mkdir path := by
  obtain ⟨fault, stated⟩ := missing
  rw [mkdirAllLoop, stated]
  dsimp only
  split <;> rfl

section

variable {files : Files} (sound : files.Sound) {path name : Bytes} {base : Location}
  {names : List Bytes} (leads : files.Leads path base (names ++ [name]))

include sound leads

/-- There is nothing at the end of a way on which something cannot be made. -/
theorem stat_blocked {fault : FileFault}
    (first : makeFault files.isFile base (parentPath path) names.reverse = some fault) :
    ∃ missing, files.stat path = .error missing := by
  refine stat_error fun location reached => ?_
  obtain rfl := locate_target reached
  cases there : files.entry? (files.target path) with
  | none => rfl
  | some entry =>
    rw [leads.target, ← List.append_assoc] at there
    rw [leads.locate sound] at reached
    split at reached
    · cases reached
    · next zero =>
      have short := List.forall_mem_append.mp (walk_down_ok leads.plain reached)
      have clear : ∀ here, here <+: base ++ names.reverse.reverse →
          files.isFile here = false := by
        intro here goes
        rw [List.reverse_reverse] at goes
        exact isFile_directory (sound.directory goes (sound.parent there))
      have absent : 0 ∉ parentPath path := by
        intro member
        exact zero (List.contains_iff_mem.mpr (mem_of_parentPath member))
      rw [makeFault_none clear (by simpa using short.1) absent] at first
      cases first

/-- There is nothing at a path that holds a zero or ends in a name too long. -/
theorem stat_refused (refused : path.contains 0 = true ∨ maxName < name.length) :
    ∃ missing, files.stat path = .error missing := by
  refine stat_error fun location reached => ?_
  rw [leads.locate sound] at reached
  split at reached
  · cases reached
  · next zero =>
    have fits := (List.forall_mem_append.mp (walk_down_ok leads.plain reached)).2
    exact absurd (refused.resolve_left zero) (Nat.not_lt.mpr (fits name List.mem_cons_self))

/-- With the parents made, the last directory is made unless something is wrong with its name or
it is a file. -/
theorem mkdirAllLoop_last {after : Files} (paved : files.Paved after (base ++ names))
    (short : ∀ name ∈ names, name.length ≤ maxName) {fuel : Nat}
    (made : (if (parentPath path).isEmpty then .ok files
      else mkdirAllLoop fuel files (parentPath path)) = .ok after) {refusal? : Option Refusal}
    (refusal : refusal? = if path.contains 0 then some .invalidPath
      else if maxName < name.length then some .nameTooLong
      else if files.isFile (base ++ names ++ [name]) then some .notDirectory else none) :
    (∀ refusal, refusal? = some refusal →
      mkdirAllLoop (fuel + 1) files path = .error ⟨"mkdir", [path], refusal⟩) ∧
    (refusal? = none → name.length ≤ maxName ∧ ∃ last,
      mkdirAllLoop (fuel + 1) files path = .ok last ∧
        files.Paved last (base ++ names ++ [name])) := by
  have grown := sound.grows paved.grows
  have directory : after.entry? (base ++ names) = some .directory := by
    rw [paved.entries, if_pos List.prefix_rfl]
  have located := (leads.congr paved.home).locate_name grown short directory
  unfold arrive at located
  obtain ⟨front, rfl, -, absent, -⟩ := leads.name
  have plain := List.forall_mem_append.mp leads.plain
  have some_ := (plain.2 name List.mem_cons_self).1
  subst refusal
  by_cases zero : (front ++ name).contains 0 = true
  · rw [if_pos zero] at located ⊢
    refine ⟨fun refusal same => ?_, by simp⟩
    cases same
    rw [mkdirAllLoop_missing (stat_refused sound leads (.inl zero)), made]
    exact mkdir_error some_ absent located
  rw [if_neg zero] at located ⊢
  by_cases long : maxName < name.length
  · rw [if_pos long] at located ⊢
    refine ⟨fun refusal same => ?_, by simp⟩
    cases same
    rw [mkdirAllLoop_missing (stat_refused sound leads (.inr long)), made]
    exact mkdir_error some_ absent located
  rw [if_neg long] at located ⊢
  have found : ∀ entry, files.entry? (base ++ names ++ [name]) = some entry →
      files.stat (front ++ name) = .ok entry := by
    intro entry there
    refine stat_ok ?_ there
    rw [leads.locate_name sound short (sound.parent there), arrive, if_neg zero, if_neg long]
  by_cases file : files.isFile (base ++ names ++ [name]) = true
  · obtain ⟨content, there⟩ := isFile_eq_true.mp file
    rw [if_pos file]
    refine ⟨fun refusal same => ?_, by simp⟩
    cases same
    rw [mkdirAllLoop, found _ there]
    rfl
  rw [if_neg file]
  refine ⟨by simp, fun _ => ⟨Nat.not_lt.mp long, ?_⟩⟩
  cases there : files.entry? (base ++ names ++ [name]) with
  | none =>
    have missing : ∃ fault, files.stat (front ++ name) = .error fault := by
      refine stat_error fun location reached => ?_
      rw [locate_target reached, leads.target, ← List.append_assoc, there]
    have free : after.entry? (base ++ names ++ [name]) = none := by
      rw [paved.entries, there, ite_eq_right_iff]
      intro goes
      exact absurd goes.length_le (by simp)
    refine ⟨_, ?_, paved.set name⟩
    rw [mkdirAllLoop_missing missing, made]
    exact mkdir_new some_ absent located free
  | some entry =>
    cases entry with
    | file content => exact absurd (isFile_eq_true.mpr ⟨content, there⟩) file
    | directory =>
      refine ⟨files, ?_, .refl sound there⟩
      rw [mkdirAllLoop, found _ there]

end

/-- Directories are made down to the first fault. Without one, all of them are there. -/
theorem mkdirAllLoop_spec {files : Files} (sound : files.Sound) {path : Bytes} {base : Location}
    {names : List Bytes} (leads : files.Leads path base names) {fuel : Nat}
    (enough : path.length < fuel) :
    (∀ fault, makeFault files.isFile base path names.reverse = some fault →
      mkdirAllLoop fuel files path = .error fault) ∧
    (makeFault files.isFile base path names.reverse = none →
      (∀ name ∈ names, name.length ≤ maxName) ∧
        ∃ after, mkdirAllLoop fuel files path = .ok after ∧ files.Paved after (base ++ names)) := by
  induction names using List.reverseRecOn generalizing path fuel with
  | nil =>
    have reached : files.locate path = .ok base := by
      rw [leads.locate sound, leads.zero_absent]
      rfl
    have directory := leads.base_directory sound
    refine ⟨by simp [makeFault], fun _ => ⟨by simp, files, ?_, ?_⟩⟩
    on_goal 2 => exact .refl sound (by simpa using directory)
    obtain ⟨fuel, rfl⟩ := Nat.exists_eq_add_of_lt enough
    rw [mkdirAllLoop, stat_ok reached directory]
  | append_singleton names name ih =>
    obtain ⟨fuel, rfl⟩ : ∃ less, fuel = less + 1 := Nat.exists_eq_add_one.mpr (by omega)
    rw [List.reverse_append, List.reverse_singleton, List.singleton_append, makeFault,
      List.reverse_cons, List.reverse_reverse, ← List.append_assoc]
    -- The parents come first, unless the name is the whole path.
    obtain ⟨fails, makes⟩ : (∀ fault,
        makeFault files.isFile base (parentPath path) names.reverse = some fault →
          (if (parentPath path).isEmpty then .ok files
            else mkdirAllLoop fuel files (parentPath path)) = .error fault) ∧
        (makeFault files.isFile base (parentPath path) names.reverse = none →
          (∀ name ∈ names, name.length ≤ maxName) ∧ ∃ after,
            (if (parentPath path).isEmpty then .ok files
              else mkdirAllLoop fuel files (parentPath path)) = .ok after ∧
            files.Paved after (base ++ names)) := by
      rcases leads.parent with ⟨none_, rfl⟩ | ⟨above, shorter⟩
      · rw [none_]
        refine ⟨by simp [makeFault], fun _ => ⟨by simp, files, rfl, .refl sound ?_⟩⟩
        simpa using leads.base_directory sound
      · rw [if_neg (by simpa using above.some_)]
        exact ih above (by omega)
    cases first : makeFault files.isFile base (parentPath path) names.reverse with
    | some fault =>
      rw [mkdirAllLoop_missing (stat_blocked sound leads first), fails fault first]
      exact ⟨fun other same => congrArg Except.error (Option.some.inj same), by simp⟩
    | none =>
      obtain ⟨short, after, made, paved⟩ := makes first
      obtain ⟨fails, makes⟩ := mkdirAllLoop_last sound leads paved short made rfl
      rw [Option.none_or]
      refine ⟨fun fault same => ?_, fun none_ => ?_⟩
      · obtain ⟨refusal, found, rfl⟩ := Option.map_eq_some_iff.mp same
        exact fails refusal found
      · obtain ⟨fits, last, done, paved⟩ := makes (Option.map_eq_none_iff.mp none_)
        refine ⟨?_, last, done, paved⟩
        rw [List.forall_mem_append]
        exact ⟨short, by simpa using fits⟩

section

variable {files : Files} (sound : files.Sound) {path : Bytes} {base : Location}
  {names : List Bytes} (leads : files.Leads path base names)

include sound leads

theorem mkdirAll_error {fault : FileFault}
    (found : makeFault files.isFile base path names.reverse = some fault) :
    files.mkdirAll path = .error fault :=
  (mkdirAllLoop_spec sound leads (Nat.lt_succ_self _)).1 fault found

theorem mkdirAll_ok (none_ : makeFault files.isFile base path names.reverse = none) :
    (∀ name ∈ names, name.length ≤ maxName) ∧
      ∃ after, files.mkdirAll path = .ok after ∧ files.Paved after (base ++ names) :=
  (mkdirAllLoop_spec sound leads (Nat.lt_succ_self _)).2 none_

end

theorem write_error {files : Files} {path : Bytes} {refusal : Refusal}
    (refused : files.locate path = .error refusal) (content : Bytes) :
    files.write path content = .error ⟨"open", [path], refusal⟩ := by
  rw [write, refused]
  rfl

theorem write_directory {files : Files} {path : Bytes} {location : Location}
    (reached : files.locate path = .ok location) (directory : files.isDirectory location = true)
    (content : Bytes) : files.write path content = .error ⟨"open", [path], .isDirectory⟩ := by
  rw [write, reached]
  simp only [withAction, ok_bind, directory]
  rfl

theorem write_ok {files : Files} {path : Bytes} {location : Location}
    (reached : files.locate path = .ok location) (free : files.isDirectory location = false)
    (content : Bytes) : files.write path content = .ok (files.set location (.file content)) := by
  rw [write, reached]
  simp only [withAction, ok_bind, free]
  rfl

section

variable {files : Files} {source path content : Bytes} {start : Location}
  (begins : files.locate source = .ok start) (here : files.entry? start = some (.file content))

include begins here

theorem rename_error {refusal : Refusal} (refused : files.locate path = .error refusal) :
    files.rename source path = .error ⟨"rename", [source, path], refusal⟩ := by
  simp only [rename, begins, here, refused]

theorem rename_directory {goal : Location} (reached : files.locate path = .ok goal)
    (directory : files.entry? goal = some .directory) :
    files.rename source path = .error ⟨"rename", [source, path], .alreadyThere⟩ := by
  simp only [rename, begins, here, reached, directory]

/-- A file takes its new place, whether there was a file or nothing. -/
theorem rename_ok (sound : files.Sound) {goal : Location} (reached : files.locate path = .ok goal)
    (free : files.entry? goal ≠ some .directory) (differ : start ≠ goal) :
    ∃ after, files.rename source path = .ok after ∧ after.workingDir = files.workingDir ∧
      ∀ there, after.entry? there = if there = goal then some (.file content)
        else if there = start then none else files.entry? there := by
  have below : goal ≠ [] := fun root => free (root ▸ rfl)
  have down : start ≠ [] := by
    rintro rfl
    cases here
  let after : Files := { files.erase goal with
    entries := (files.erase goal).entries.map fun item =>
      (if start.isPrefixOf item.1 then goal ++ item.1.drop start.length else item.1, item.2) }
  have done : files.rename source path = .ok after := by
    cases there : files.entry? goal with
    | none =>
      simp only [rename, begins, here, reached, there, if_neg (Ne.symm differ)]
      rfl
    | some entry =>
      cases entry with
      | directory => exact absurd there free
      | file old =>
        simp only [rename, begins, here, reached, there, if_neg (Ne.symm differ)]
        rfl
  refine ⟨after, done, rfl, fun there => ?_⟩
  have cleared : entry? (files.erase goal) start = some (.file content) := by
    rw [entry?_erase below, here, ite_eq_right_iff]
    intro goes
    have nothing := sound.below_file goes (Ne.symm differ) free
    rw [here] at nothing
    cases nothing
  by_cases root : there = []
  · subst root
    rw [if_neg (Ne.symm below), if_neg (Ne.symm down)]
    rfl
  have alone : ∀ item ∈ (files.erase goal).entries, start <+: item.1 → item.1 = start := by
    intro item member goes
    by_contra apart
    have member := (List.mem_filter.mp member).1
    obtain ⟨entry, there⟩ := entry?_of_mem member fun root =>
      down (List.prefix_nil.mp (root ▸ goes))
    rw [sound.below_file goes (Ne.symm apart) (by simp [here])] at there
    cases there
  have vacant : ∀ item ∈ (files.erase goal).entries, item.1 ≠ goal := by
    intro item member same
    have kept : (!goal.isPrefixOf item.1) = true := (List.mem_filter.mp member).2
    rw [same, List.isPrefixOf_iff_prefix.mpr List.prefix_rfl] at kept
    cases kept
  rw [entry?_of_ne root, lookup_moved _ alone vacant, ← entry?_of_ne down, cleared,
    ← entry?_of_ne root, entry?_erase below]
  by_cases last : there = goal
  · rw [if_pos last, if_pos last]
  rw [if_neg last, if_neg last]
  by_cases first : there = start
  · rw [if_pos first, if_pos first]
  rw [if_neg first, if_neg first]
  split
  · next goes => exact (sound.below_file goes (Ne.symm last) free).symm
  · rfl

end

theorem removeAll_ok {files : Files} {path : Bytes} {location : Location}
    (reached : files.locate path = .ok location) : files.removeAll path = files.erase location := by
  rw [removeAll, reached]

theorem Leads.read_eq_ok {files : Files} {path : Bytes} {base : Location} {names : List Bytes}
    (leads : files.Leads path base names) (sound : files.Sound) {content : Bytes} :
    files.read path = .ok content ↔
      path.contains 0 = false ∧ (∀ name ∈ names, name.length ≤ maxName) ∧
        files.entry? (base ++ names) = some (.file content) := by
  constructor
  · intro found
    rw [read, bind_eq_ok] at found
    obtain ⟨location, reached, found⟩ := found
    have reached := withAction_eq_ok reached
    have place := locate_target reached
    rw [leads.target] at place
    subst place
    rw [leads.locate sound] at reached
    split at reached
    · cases reached
    · next zero =>
      refine ⟨by simpa using zero, walk_down_ok leads.plain reached, ?_⟩
      split at found
      · next there =>
        cases found
        exact there
      · cases found
      · cases found
  · rintro ⟨zero, short, there⟩
    rcases List.eq_nil_or_concat names with rfl | ⟨above, name, rfl⟩
    · rw [List.append_nil, leads.base_directory sound] at there
      cases there
    · rw [List.concat_eq_append] at *
      rw [← List.append_assoc] at there
      have short := List.forall_mem_append.mp short
      have fits := short.2 name List.mem_cons_self
      rw [read, leads.locate_name sound short.1 (sound.parent there), arrive, zero,
        if_neg (by decide), if_neg (Nat.not_lt.mpr fits)]
      simp only [withAction, ok_bind, there]

/-- The locations a path visits, one for each of its parts. -/
def visits (files : Files) (path : Bytes) : List Location :=
  (Bytes.split 47 path).scanl Location.enter (files.start path)

theorem walk_congr {files after : Files} {here : Location} {parts : List Bytes}
    (same : ∀ there ∈ parts.scanl Location.enter here, after.entry? there = files.entry? there) :
    after.walk here parts = files.walk here parts := by
  induction parts generalizing here with
  | nil => rfl
  | cons part parts ih =>
    rw [List.scanl_cons, List.forall_mem_cons] at same
    have rest := ih same.2
    rw [walk, walk, same.1]
    cases files.entry? here with
    | none => rfl
    | some entry =>
      cases entry with
      | file content => rfl
      | directory =>
        dsimp only
        rw [Location.enter] at rest
        repeat' split
        all_goals simp_all

/-- What is read depends on the locations visited. -/
theorem read_congr {files after : Files} (home : after.workingDir = files.workingDir) {path : Bytes}
    (same : ∀ there ∈ files.visits path, after.entry? there = files.entry? there) :
    after.read path = files.read path := by
  have start : after.start path = files.start path := by rw [Files.start, Files.start, home]
  have walks : after.locate path = files.locate path := by
    unfold locate
    split
    · rfl
    split
    · rfl
    change after.walk (after.start path) _ = files.walk (files.start path) _
    rw [start]
    exact walk_congr same
  rw [read, read, walks]
  cases reached : files.locate path with
  | error refusal => rfl
  | ok location =>
    have last : location ∈ files.visits path := by
      rw [locate_target reached]
      exact List.mem_of_getLast? List.getLast?_scanl
    simp only [withAction, ok_bind, same location last]

/-- A walk passes directories only, so it is the same once something else has another content. -/
theorem walk_set {files : Files} {at_ : Location} (below : at_ ≠ [])
    (other : files.entry? at_ ≠ some .directory) (entry : Entry) {here goal : Location}
    {parts : List Bytes} (reached : files.walk here parts = .ok goal) :
    (files.set at_ entry).walk here parts = .ok goal := by
  induction parts generalizing here with
  | nil => exact reached
  | cons part parts ih =>
    rw [walk] at reached ⊢
    split at reached
    · cases reached
    · cases reached
    next directory =>
      have differ : here ≠ at_ := fun same => other (same ▸ directory)
      rw [entry?_set below, if_neg differ, directory]
      dsimp only
      split at reached
      next stays => rw [if_pos stays]; exact ih reached
      next moves =>
        rw [if_neg moves]
        split at reached
        next up => rw [if_pos up]; exact ih reached
        next down =>
          rw [if_neg down]
          split at reached
          · cases reached
          next short => rw [if_neg short]; exact ih reached

theorem locate_set {files : Files} {at_ : Location} (below : at_ ≠ [])
    (other : files.entry? at_ ≠ some .directory) (entry : Entry) {path : Bytes} {goal : Location}
    (reached : files.locate path = .ok goal) : (files.set at_ entry).locate path = .ok goal := by
  unfold locate at reached ⊢
  rw [set_workingDir]
  split at reached
  · cases reached
  next some_ =>
    rw [if_neg some_]
    split at reached
    · cases reached
    next absent =>
      rw [if_neg absent]
      exact walk_set below other entry reached

/-- What a write has done. -/
theorem write_eq_ok {files after : Files} {path content : Bytes}
    (written : files.write path content = .ok after) :
    files.locate path = .ok (files.target path) ∧
      files.entry? (files.target path) ≠ some .directory ∧
        after = files.set (files.target path) (.file content) := by
  rw [write, bind_eq_ok] at written
  obtain ⟨location, reached, written⟩ := written
  have reached := withAction_eq_ok reached
  obtain rfl := locate_target reached
  split at written
  · cases written
  next free =>
    cases written
    exact ⟨reached, fun directory => free (decide_eq_true directory), rfl⟩

/-- A file keeps its content when another is written. -/
theorem read_written {files made after : Files} {path other content more : Bytes}
    (first : files.write path content = .ok made) (second : made.write other more = .ok after)
    (differ : files.target path ≠ files.target other) : after.read path = .ok content := by
  obtain ⟨reached, free, rfl⟩ := write_eq_ok first
  obtain ⟨-, clear, rfl⟩ := write_eq_ok second
  have below : ∀ {files : Files} {location : Location},
      files.entry? location ≠ some .directory → location ≠ [] := by
    rintro files location free rfl
    exact free rfl
  have there := locate_set (below clear) clear (.file more)
    (locate_set (below free) free (.file content) reached)
  have apart : files.target path ≠
      (files.set (files.target path) (.file content)).target other := by
    rwa [target_congr (set_workingDir ..)]
  rw [read, there]
  simp only [withAction, ok_bind]
  rw [entry?_set (below clear), if_neg apart, entry?_set (below free), if_pos rfl]

theorem target_join (files : Files) {dir name : Bytes} (some_ : dir ≠ []) (plain : IsPlain name)
    (absent : 47 ∉ name) : files.target (Path.join [dir, name]) = files.target dir ++ [name] := by
  rw [Path.join_pair some_ plain.1, target_clean, target_append files some_,
    Bytes.split_of_absent absent, List.foldl_cons, List.foldl_nil, Location.enter_plain plain]

end Files

end Minilang
