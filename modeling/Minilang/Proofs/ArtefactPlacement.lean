import Minilang.Proofs.CacheTransparency
import Minilang.Proofs.FilePlacement

/-! How artefacts get to their places: in the output tree and in a store. Both are put there by way
of a draft, at paths that lead to one directory. -/

namespace Minilang

namespace Placement

/-- A clean path to a name, and a draft that is another name in its directory. -/
theorem route_clean (files : Files) {above : Bytes} (some_ : above ≠ []) {name : Bytes}
    (plain : IsPlain name) (absent : 47 ∉ name) :
    (∀ tail, tail ≠ [] → 47 ∉ tail → IsPlain (name ++ tail) → ∃ base names,
      Route files ⟨Path.clean above, Path.clean (above ++ 47 :: name) ++ tail,
        Path.clean (above ++ 47 :: name)⟩ base names (name ++ tail) name) ∧
    ∀ other, IsPlain other → 47 ∉ other → other ≠ name → ∃ base names,
      Route files ⟨Path.clean above, Path.clean above ++ 47 :: other,
        Path.clean (above ++ 47 :: name)⟩ base names other name := by
  obtain ⟨base, names, dir, below⟩ := files.leads_clean_name some_
  obtain ⟨front, -, text⟩ := Path.clean_name some_
  refine ⟨fun tail more free down => ⟨base, names, dir, ?_, below name plain absent, ?_⟩,
    fun other down free differ => ⟨base, names, dir, dir.snoc down free, below name plain absent,
      differ⟩⟩
  · have slashless : 47 ∉ name ++ tail := by
      rw [List.mem_append, not_or]
      exact ⟨absent, free⟩
    have draft := below (name ++ tail) down slashless
    rwa [text _ down slashless, ← List.append_assoc, ← text name plain absent] at draft
  · simpa using more

end Placement

/-- Neither of two locations lies in the other. -/
def Location.Apart (here there : Location) : Prop := ¬ here <+: there ∧ ¬ there <+: here

instance (here there : Location) : Decidable (here.Apart there) :=
  inferInstanceAs (Decidable (_ ∧ _))

theorem Location.Apart.symm {here there : Location} (apart : here.Apart there) :
    there.Apart here := And.symm apart

theorem Location.Apart.append {here there : Location} (apart : here.Apart there)
    (down : Location) : here.Apart (there ++ down) := by
  refine ⟨fun goes => ?_, fun goes => apart.2 ((List.prefix_append there down).trans goes)⟩
  rcases List.prefix_or_prefix_of_prefix goes (List.prefix_append there down) with up | up
  · exact apart.1 up
  · exact apart.2 up

/-- A placement whose draft and goal are apart from the goal of another is clear of it. -/
theorem Placement.clear_of_apart {files : Files} {placement other : Placement} {base : Location}
    {names : List Bytes} {first last : Bytes} (route : other.Route files base names first last)
    (draft : Location.Apart (files.target placement.draft) (files.target other.goal))
    (goal : Location.Apart (files.target placement.goal) (files.target other.goal)) :
    placement.Clear files other := by
  have goes : files.target other.dir <+: files.target other.goal := by
    rw [route.target_dir, route.target_goal]
    exact List.prefix_append _ _
  exact ⟨fun inside => draft.1 (inside.trans goes), fun inside => goal.1 (inside.trans goes),
    fun same => draft.1 (same ▸ List.prefix_rfl), fun same => goal.1 (same ▸ List.prefix_rfl)⟩

namespace Cache.Store

/-- How the entry of a key is put at its place. -/
def placement (store : Store) (key : Bytes) : Placement :=
  { dir := Path.dir (store.entryPath key)
    draft := Path.dir (store.entryPath key) ++ "/tmp-"
    goal := store.entryPath key }

/-- The path of an entry is a clean path to its name. -/
theorem entryPath_eq (store : Store) {key : Bytes} (some_ : key ≠ []) : ∃ above, above ≠ [] ∧
    store.entryPath key = Path.clean (above ++ 47 :: (Bytes.hex key ++ Bytes.ofString ".mp")) := by
  have kept : (entryNames key).filter (!·.isEmpty) =
      [Bytes.ofString "artefacts", (Bytes.hex key).take 2] ++
        [Bytes.hex key ++ Bytes.ofString ".mp"] := by
    cases key with
    | nil => exact absurd rfl some_
    | cons b key =>
      simp only [entryNames, Bytes.hex_cons]
      rfl
  have solid : ∀ {first : Bytes}, first ≠ [] → ∀ rest, Bytes.join "/" (first :: rest) ≠ [] := by
    intro first more rest
    rw [Bytes.join]
    exact fun none_ => more (List.append_eq_nil_iff.mp none_).1
  change ∃ above, above ≠ [] ∧ Path.join (store.dir :: entryNames key) = _
  rw [Path.join]
  by_cases bare : store.dir = []
  · rw [bare, List.filter_cons_of_neg (by simp), kept]
    exact ⟨_, solid (by decide) _, congrArg Path.clean (Path.join_concat (by simp) _)⟩
  · rw [List.filter_cons_of_pos (by simp [bare]), kept, ← List.cons_append]
    exact ⟨_, solid bare _, congrArg Path.clean (Path.join_concat (by simp) _)⟩

theorem placement_route (store : Store) (files : Files) {key : Bytes} (some_ : key ≠ []) :
    ∃ base names,
      (store.placement key).Route files base names "tmp-" (Bytes.hex key ++ ".mp") := by
  have slashless : 47 ∉ Bytes.hex key ++ ".mp" := by
    rw [List.mem_append, not_or]
    exact ⟨Bytes.slash_not_mem_hex key, by decide⟩
  have plain : IsPlain (Bytes.hex key ++ ".mp") := by
    apply IsPlain.of_length
    rw [List.length_append]
    exact Nat.lt_add_left _ (by decide)
  obtain ⟨above, more, path⟩ := store.entryPath_eq some_
  have differ : ("tmp-" : Bytes) ≠ Bytes.hex key ++ ".mp" := by
    intro same
    have last := congrArg List.getLast? same
    rw [List.getLast?_append_of_ne_nil _ (by decide)] at last
    exact absurd last (by decide)
  rw [placement, path, Path.dir_clean_name more plain slashless]
  exact (Placement.route_clean files more plain slashless).2 _ (by decide) (by decide) differ

/-- Entries and their drafts are below the directory of their store. -/
theorem placement_below (store : Store) (files : Files) {key : Bytes} (some_ : key ≠ []) :
    ∃ first last, files.target (store.placement key).draft = files.target store.dir ++ first ∧
      files.target (store.placement key).goal = files.target store.dir ++ last := by
  obtain ⟨base, names, route⟩ := store.placement_route files some_
  have goal : files.target (store.placement key).goal = store.place files key :=
    store.target_entryPath files some_
  have way : base ++ names = files.target store.dir ++ [Bytes.ofString "artefacts",
      (Bytes.hex key).take 2] := by
    have whole := route.target_goal.symm.trans goal
    have parts : store.place files key = files.target store.dir ++ [Bytes.ofString "artefacts",
        (Bytes.hex key).take 2] ++ [Bytes.hex key ++ Bytes.ofString ".mp"] := by
      rw [place, List.append_assoc]
      rfl
    exact (List.append_inj' (whole.trans parts) rfl).1
  have draft : files.target (store.placement key).draft = files.target store.dir ++
      ([Bytes.ofString "artefacts", (Bytes.hex key).take 2] ++ [Bytes.ofString "tmp-"]) := by
    rw [route.target_draft, way, List.append_assoc]
  exact ⟨_, _, draft, goal⟩

/-- Entries of two keys are clear of each other, also where they share a draft. -/
theorem entries_clear (store : Store) (files : Files) {key other : Bytes} (some_ : key ≠ [])
    (more : other ≠ []) (differ : key ≠ other) :
    (store.placement key).Clear files (store.placement other) := by
  obtain ⟨base, names, route⟩ := store.placement_route files some_
  obtain ⟨root, folders, second⟩ := store.placement_route files more
  have here : files.target (store.placement key).goal = store.place files key :=
    store.target_entryPath files some_
  have there : files.target (store.placement other).goal = store.place files other :=
    store.target_entryPath files more
  have depth : (base ++ names).length = (root ++ folders).length := by
    have one := congrArg List.length (route.target_goal.symm.trans here)
    have two := congrArg List.length (second.target_goal.symm.trans there)
    simp only [place, entryNames, List.length_append, List.length_cons, List.length_nil]
      at one two ⊢
    omega
  constructor
  · rw [route.target_draft, second.target_dir]
    intro goes
    have size := goes.length_le
    rw [List.length_append, depth] at size
    exact absurd size (by simp)
  · rw [route.target_goal, second.target_dir]
    intro goes
    have size := goes.length_le
    rw [List.length_append, depth] at size
    exact absurd size (by simp)
  · rw [route.target_draft, second.target_goal]
    intro same
    exact second.differ (List.singleton_inj.mp (List.append_inj same depth).2)
  · rw [here, there]
    exact fun same => differ (place_inj same)

theorem put_eq (store : Store) (files : Files) (key : Bytes) (payload : Payload) :
    store.put files key payload = files.mkdirAll (store.placement key).dir >>= fun made =>
      made.write (store.placement key).draft payload.encode >>= fun drafted =>
        drafted.rename (store.placement key).draft (store.placement key).goal := rfl

/-- Putting an entry fails in all trees alike, or makes the same change in all of them. -/
theorem put_course (store : Store) {files : Files} (sound : files.Sound) {key : Bytes}
    (some_ : key ≠ []) (payload : Payload) :
    (∃ fault, ∀ other, (store.placement key).Alike files other →
      store.put other key payload = .error fault) ∨
    ∃ change, (store.placement key).Confined files change ∧
      ∀ other, (store.placement key).Alike files other →
        ∃ after, store.put other key payload = .ok after ∧ other.Changed after change := by
  obtain ⟨base, names, route⟩ := store.placement_route files some_
  cases route.course sound payload.encode with
  | undirected fault course =>
    refine .inl ⟨fault, fun other alike => ?_⟩
    rw [put_eq, course other alike]
    rfl
  | undrafted fault clear course =>
    refine .inl ⟨fault, fun other alike => ?_⟩
    obtain ⟨made, done, failed, -⟩ := course other alike
    rw [put_eq, done, ok_bind, failed]
    rfl
  | unplaced fault clear free course =>
    refine .inl ⟨fault, fun other alike => ?_⟩
    obtain ⟨made, drafted, done, written, failed, -⟩ := course other alike
    rw [put_eq, done, ok_bind, written, ok_bind, failed]
  | placed clear free open_ course =>
    refine .inr ⟨(store.placement key).change files true (some payload.encode),
      Placement.confined_change clear (fun _ => free) (fun _ => open_), fun other alike => ?_⟩
    obtain ⟨made, drafted, after, done, written, moved, changed⟩ := course other alike
    refine ⟨after, ?_, changed⟩
    rw [put_eq, done, ok_bind, written, ok_bind, moved]

theorem key_ne_nil (file : SourceFile) (options : CompileOptions) : key file options ≠ [] := by
  intro none_
  have size := Digest.length_sha256 (keyText file options)
  rw [← key_eq, none_] at size
  cases size

/-- What keeping an artefact changes is the same in all trees alike. -/
theorem keep_course (store : Store) {files : Files} (sound : files.Sound) (options : CompileOptions)
    (compilation : Compilation) : ∃ change,
    (store.placement (key compilation.file options)).Confined files change ∧
      ∀ other, (store.placement (key compilation.file options)).Alike files other →
        other.Changed (store.keep other options compilation).1 change := by
  unfold keep
  split
  · next code ok found =>
    dsimp only
    rcases store.put_course sound (key_ne_nil compilation.file options)
        { schema, target := targetNumber options, sourcePath := compilation.file.path
          sourceHash := compilation.file.hash, code } with
      ⟨fault, course⟩ | ⟨change, confined, course⟩
    · refine ⟨_, Placement.confined_none files _, fun other alike => ?_⟩
      rw [course other alike]
      exact .none other
    · refine ⟨change, confined, fun other alike => ?_⟩
      obtain ⟨after, done, changed⟩ := course other alike
      rw [done]
      exact changed
  · exact ⟨_, Placement.confined_none files _, fun other _ => .none other⟩

end Cache.Store

namespace Build

/-- How the artefact of a job is put at its place. -/
def Job.placement (job : Job) : Placement :=
  { dir := Path.dir job.output, draft := job.output ++ ".tmp", goal := job.output }

theorem Request.placement_route (request : Request) (workingDir file : Bytes) (files : Files) :
    ∃ base names first last,
      (request.job workingDir file).placement.Route files base names first last := by
  obtain ⟨slashless, long⟩ := request.ending_plain
  have ends : ∀ name : Bytes, IsPlain (name ++ request.ending) := by
    intro name
    apply IsPlain.of_length
    rw [List.length_append]
    exact Nat.lt_add_left _ long
  obtain ⟨above, name, some_, absent, path⟩ : ∃ above name, above ≠ [] ∧ 47 ∉ name ∧
      request.outputPath (stem file) = Path.clean (above ++ 47 :: (name ++ request.ending)) := by
    have more : request.artefact (stem file) ++ request.ending ≠ [] := (ends _).1
    rw [request.outputPath_eq, Path.join_pair request.outputDir_ne_nil more]
    obtain ⟨name, absent, -, ⟨whole, -⟩ | ⟨above, whole, -⟩⟩ :=
      Path.split_last (request.artefact (stem file))
    · exact ⟨request.outputDir, name, request.outputDir_ne_nil, absent, by rw [whole]⟩
    · refine ⟨request.outputDir ++ 47 :: above, name, by simp, absent, ?_⟩
      rw [whole]
      simp
  have free : 47 ∉ name ++ request.ending := by
    rw [List.mem_append, not_or]
    exact ⟨absent, slashless⟩
  have down : IsPlain (name ++ request.ending ++ Bytes.ofString ".tmp") := by
    apply IsPlain.of_length
    rw [List.length_append]
    exact Nat.lt_add_left _ (by decide)
  obtain ⟨base, names, route⟩ :=
    (Placement.route_clean files some_ (ends name) free).1 ".tmp" (by decide) (by decide) down
  refine ⟨base, names, name ++ request.ending ++ Bytes.ofString ".tmp", name ++ request.ending, ?_⟩
  rw [Job.placement, Request.job, path, Path.dir_clean_name some_ (ends name) free]
  exact route

/-- An artefact that gets to its place. -/
theorem Job.writeArtefact_ok {job : Job} {files made drafted after : Files} {code : Bytes}
    (done : files.mkdirAll job.placement.dir = .ok made)
    (written : made.write job.placement.draft code = .ok drafted)
    (moved : drafted.rename job.placement.draft job.placement.goal = .ok after) :
    Job.writeArtefact files job.output code = (.ok after, after) := by
  have way : Path.dir job.output = job.placement.dir := rfl
  have draft : job.output ++ Bytes.ofString ".tmp" = job.placement.draft := rfl
  rw [Job.writeArtefact, way, done]
  dsimp only
  rw [draft, written]
  dsimp only
  rw [show drafted.rename job.placement.draft job.output = _ from moved]

/-- Writing an artefact ends in the same way in all trees alike, with the same change. -/
theorem Job.writeArtefact_course {job : Job} {files : Files} (sound : files.Sound)
    {base : Location} {names : List Bytes} {first last : Bytes}
    (route : job.placement.Route files base names first last) (code : Bytes) :
    ∃ (fault : Option JobFault) (change : Files.Change), job.placement.Confined files change ∧
      ∀ other, job.placement.Alike files other → ∃ after, other.Changed after change ∧
        Job.writeArtefact other job.output code = (fault.elim (.ok after) .error, after) := by
  have way : Path.dir job.output = job.placement.dir := rfl
  have draft : job.output ++ Bytes.ofString ".tmp" = job.placement.draft := rfl
  cases route.course sound code with
  | undirected fault course =>
    refine ⟨some (.outputDir fault), _, Placement.confined_none files _, fun other alike => ?_⟩
    refine ⟨other, .none other, ?_⟩
    rw [Job.writeArtefact, way, course other alike]
    rfl
  | undrafted fault clear course =>
    refine ⟨some (.output job.output fault), job.placement.change files false none,
      Placement.confined_change clear (by simp) (by simp), fun other alike => ?_⟩
    obtain ⟨made, done, failed, changed⟩ := course other alike
    refine ⟨made, changed, ?_⟩
    rw [Job.writeArtefact, way, done]
    dsimp only
    rw [draft, failed]
    rfl
  | unplaced fault clear free course =>
    refine ⟨some (.output job.output fault), job.placement.change files true none,
      Placement.confined_change clear (fun _ => free) (by simp), fun other alike => ?_⟩
    obtain ⟨made, drafted, done, written, failed, changed⟩ := course other alike
    refine ⟨_, changed, ?_⟩
    rw [Job.writeArtefact, way, done]
    dsimp only
    rw [draft, written]
    dsimp only
    rw [show drafted.rename job.placement.draft job.output = _ from failed]
    rfl
  | placed clear free open_ course =>
    refine ⟨none, job.placement.change files true (some code),
      Placement.confined_change clear (fun _ => free) (fun _ => open_), fun other alike => ?_⟩
    obtain ⟨made, drafted, after, done, written, moved, changed⟩ := course other alike
    exact ⟨after, changed, Job.writeArtefact_ok done written moved⟩

end Build

namespace Path

section

variable {front name : Bytes} (ends : IsFront front)

include ends

theorem base_name (some_ : name ≠ []) (absent : 47 ∉ name) : base (front ++ name) = name := by
  have whole : base (front ++ name) =
      if (front ++ name).isEmpty then Bytes.ofString "."
      else if ((front ++ name).reverse.dropWhile (· == 47)).reverse.isEmpty then Bytes.ofString "/"
      else (((front ++ name).reverse.dropWhile (· == 47)).reverse.reverse.takeWhile
        (· != 47)).reverse := rfl
  rw [whole, bare_name some_ absent, if_neg (by simp [some_]), if_neg (by simp [some_]),
    List.reverse_reverse, takeWhile_name ends absent, List.reverse_reverse]

theorem ext_name (absent : 47 ∉ name) : ext (front ++ name) = ext name := by
  have alone : name.reverse.takeWhile (· != slash) = name.reverse :=
    takeWhile_name (.inl rfl) absent
  have behind : (front ++ name).reverse.takeWhile (· != slash) = name.reverse :=
    takeWhile_name ends absent
  simp only [ext, behind, alone]

end

end Path

/-- What is read has a name at the end of its path. -/
theorem Files.read_name {files : Files} (sound : files.Sound) {path content : Bytes}
    (found : files.read path = .ok content) : ∃ front name, path = front ++ name ∧
      Path.IsFront front ∧ IsPlain name ∧ 47 ∉ name ∧ 0 ∉ name := by
  obtain ⟨front, name, rfl, ends, absent⟩ := Path.exists_front path
  rw [read, bind_eq_ok] at found
  obtain ⟨location, reached, found⟩ := found
  have reached := withAction_eq_ok reached
  rw [locate] at reached
  split at reached
  · cases reached
  split at reached
  · cases reached
  next zero =>
  refine ⟨front, name, rfl, ends, ?_, absent, ?_⟩
  · by_contra stays
    obtain ⟨before, parts⟩ : ∃ before, Bytes.split 47 (front ++ name) = before ++ [name] := by
      rcases ends with rfl | ⟨above, rfl⟩
      · exact ⟨[], Bytes.split_of_absent absent⟩
      · refine ⟨Bytes.split 47 above, ?_⟩
        rw [List.append_assoc, List.singleton_append, Bytes.split_append,
          Bytes.split_of_absent absent]
    rw [parts, walk_append, bind_eq_ok] at reached
    obtain ⟨there, -, last⟩ := reached
    have directory : files.entry? there = some .directory := by
      rw [walk] at last
      split at last
      · cases last
      · cases last
      · assumption
    have up : ∀ part ∈ [name], ¬ IsPlain part := by simpa using stays
    obtain ⟨same, below⟩ := walk_up sound up directory
    rw [last] at same
    cases same
    simp only [below] at found
    cases found
  · intro member
    exact zero (List.contains_iff_mem.mpr (List.mem_append_right _ member))

namespace Build

/-- The base name of a file that was loaded tells its stem. -/
theorem loaded_name {files : Files} (sound : files.Sound) {path : Bytes} {sources : SourceSet}
    {file : SourceFile} (loaded : loadFile files path = .ok (sources, file)) :
    0 ∉ Path.base file.path ∧ stem path = stem (Path.base file.path) := by
  unfold loadFile at loaded
  split at loaded
  · next raw found =>
    obtain ⟨front, name, rfl, ends, plain, absent, zero⟩ := Files.read_name sound found
    have place : file.path = Path.clean (front ++ name) := by
      cases loaded
      rfl
    obtain ⟨other, again, text⟩ := Path.clean_last ends plain absent
    rw [place, text, Path.base_name again plain.1 absent]
    refine ⟨zero, ?_⟩
    have alone : Path.base name = name := Path.base_name (.inl rfl) plain.1 absent
    rw [stem, stem, Path.base_name ends plain.1 absent, Path.ext_name ends absent, alone]
  · cases loaded

end Build

end Minilang
