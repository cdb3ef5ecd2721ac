import Mathlib.Data.List.TakeWhile
import Minilang.Command.Build
import Minilang.Proofs.FileTrees

/-! Where the artefacts of a build go. A path of names leads from one location to another, and
what a job writes is told apart by the names it ends in. The check on stems keeps the files of two
jobs apart as long as stems and class names are names and no stem looks like a file of another
job; below those conditions an artefact never leaves the output tree. -/

namespace Minilang

namespace Location

def Below (here above : Location) : Prop := ∃ down, down ≠ [] ∧ here = above ++ down

/-- Names that do not lead up lead down, apart from those that stay. -/
theorem foldl_enter {parts : List Bytes} (level : (".." : Bytes) ∉ parts) (here : Location) :
    parts.foldl enter here = here ++ parts.filter (IsPlain ·) := by
  induction parts generalizing here with
  | nil => simp
  | cons part rest ih =>
    simp only [List.mem_cons, not_or] at level
    rw [List.foldl_cons, ih level.2]
    by_cases plain : IsPlain part
    · rw [enter_plain plain, List.filter_cons_of_pos (by simpa using plain)]
      simp
    · have stays : part = [] ∨ part = "." := by
        by_contra moves
        rw [not_or] at moves
        exact plain ⟨moves.1, moves.2, Ne.symm level.1⟩
      rw [List.filter_cons_of_neg (by simpa using plain), enter, if_pos (by simpa using stays)]

end Location

namespace Path

theorem clean_ne_nil (path : Bytes) : clean path ≠ [] := by
  unfold clean
  dsimp only
  split
  · exact nofun
  · split
    · decide
    · next some_ =>
      intro none_
      rw [none_] at some_
      exact some_ rfl

def folders (path : Bytes) : List Bytes := (Bytes.split 47 path).dropLast

theorem folders_of_absent {path : Bytes} (absent : 47 ∉ path) : folders path = [] := by
  rw [folders, Bytes.split_of_absent absent]
  rfl

/-- A name at the end of a path is its last component. -/
theorem components_name {above name : Bytes} (some_ : above ≠ []) (plain : IsPlain name)
    (absent : 47 ∉ name) :
    isAbsolute (above ++ 47 :: name) = isAbsolute above ∧
      components (above ++ 47 :: name) = components above ++ [name] := by
  have begins : isAbsolute (above ++ 47 :: name) = isAbsolute above := by
    cases above with
    | nil => exact absurd rfl some_
    | cons b above => rfl
  refine ⟨begins, ?_⟩
  rw [components, begins, slash, Bytes.split_append, Bytes.split_of_absent absent, List.foldl_append]
  simp [cleanStep, plain.1, plain.2.1, plain.2.2, components, slash]

theorem join_concat {parts : List Bytes} (some_ : parts ≠ []) (last : Bytes) :
    Bytes.join "/" (parts ++ [last]) = Bytes.join "/" parts ++ 47 :: last := by
  cases parts with
  | nil => exact absurd rfl some_
  | cons first rest =>
    rw [List.cons_append, Bytes.join, Bytes.join, List.flatMap_append]
    simp only [List.flatMap_cons, List.flatMap_nil, List.append_nil, List.append_assoc]
    rfl

/-- How the clean paths below a directory begin: with nothing, or with something that ends in a
slash and leads to the directory. -/
structure Front (above front : Bytes) : Prop where
  ends : front = [] ∨ ∃ start, front = start ++ [47]
  leads : ∀ (files : Files) (tail : Bytes), 47 ∉ tail →
    files.target (front ++ tail) = (files.target above).enter tail

theorem clean_name {above : Bytes} (some_ : above ≠ []) : ∃ front, Front above front ∧
    ∀ name, IsPlain name → 47 ∉ name → clean (above ++ 47 :: name) = front ++ name := by
  have below : Front above (clean above ++ [47]) := by
    refine ⟨.inr ⟨_, rfl⟩, ?_⟩
    intro files tail absent
    rw [List.append_assoc, List.singleton_append]
    rw [Files.target_append files (clean_ne_nil above), files.target_clean,
      Bytes.split_of_absent absent]
    rfl
  by_cases none_ : components above = []
  · by_cases absolute : isAbsolute above = true
    · have text : clean above = "/" := by
        rw [clean, if_pos absolute, none_]
        rfl
      refine ⟨"/", ⟨.inr ⟨[], rfl⟩, ?_⟩, ?_⟩
      · intro files tail absent
        have root : files.target "/" = [] := rfl
        rw [← files.target_clean above, text, root]
        change files.target ([] ++ 47 :: tail) = _
        rw [Files.target, Bytes.split_append, Bytes.split_of_absent absent]
        rfl
      · intro name plain absent
        obtain ⟨begins, parts⟩ := components_name some_ plain absent
        rw [clean, begins, if_pos absolute, parts, none_]
        simp [Bytes.join]
    · have text : clean above = "." := by
        rw [clean, if_neg absolute, none_]
        rfl
      refine ⟨[], ⟨.inl rfl, ?_⟩, ?_⟩
      · intro files tail absent
        have here : files.target "." = components files.workingDir := rfl
        have relative : isAbsolute tail = false := by
          cases tail with
          | nil => rfl
          | cons b tail =>
            have differ : b ≠ 47 := fun same => absent (same ▸ List.mem_cons_self)
            simp [isAbsolute, slash, differ]
        rw [← files.target_clean above, text, here, List.nil_append, Files.target, Files.start,
          relative, Bytes.split_of_absent absent]
        rfl
      · intro name plain absent
        obtain ⟨begins, parts⟩ := components_name some_ plain absent
        rw [clean, begins, if_neg absolute, parts, none_]
        simp [Bytes.join, plain.1]
  · refine ⟨_, below, ?_⟩
    intro name plain absent
    obtain ⟨begins, parts⟩ := components_name some_ plain absent
    rw [clean, clean, begins, parts, join_concat none_]
    split
    · simp
    · have first : Bytes.join "/" (components above) ≠ [] := by
        have tidy := components_tidy above
        cases cs : components above with
        | nil => exact absurd cs none_
        | cons part rest =>
          have begins := (tidy part (cs ▸ List.mem_cons_self)).1
          simp [Bytes.join, begins]
      simp [first]

theorem split_last (path : Bytes) : ∃ name, 47 ∉ name ∧
    Bytes.split 47 path = folders path ++ [name] ∧ (path = name ∧ folders path = [] ∨
      ∃ above, path = above ++ 47 :: name ∧ folders path = Bytes.split 47 above) := by
  by_cases slashed : 47 ∈ path.reverse
  · obtain ⟨last, before, back, apart⟩ := List.eq_append_cons_of_mem slashed
    have whole : path = before.reverse ++ 47 :: last.reverse := by
      rw [← List.reverse_reverse path, back]
      simp
    have apart : 47 ∉ last.reverse := by rwa [List.mem_reverse]
    have parts : Bytes.split 47 path = Bytes.split 47 before.reverse ++ [last.reverse] := by
      rw [whole, Bytes.split_append, Bytes.split_of_absent apart]
    have first : folders path = Bytes.split 47 before.reverse := by
      rw [folders, parts, List.dropLast_concat]
    exact ⟨_, apart, by rw [parts, first], .inr ⟨_, whole, first⟩⟩
  · rw [List.mem_reverse] at slashed
    have first := folders_of_absent slashed
    exact ⟨path, slashed, by rw [Bytes.split_of_absent slashed, first]; rfl, .inl ⟨rfl, first⟩⟩

theorem join_pair {dir path : Bytes} (some_ : dir ≠ []) (more : path ≠ []) :
    join [dir, path] = clean (dir ++ 47 :: path) := by
  rw [join, List.filter_cons_of_pos (by simp [some_]), List.filter_cons_of_pos (by simp [more])]
  simp only [List.filter_nil, Bytes.join, List.flatMap_cons, List.flatMap_nil, List.append_nil]
  rfl

theorem join_triple {dir path : Bytes} (some_ : dir ≠ []) (middle : Bytes) (more : path ≠ []) :
    join [dir, middle, path] = join [dir, if middle = [] then path else middle ++ 47 :: path] := by
  split
  · next none_ =>
    subst none_
    rfl
  · next between =>
    rw [join_pair some_ (by simp), join, List.filter_cons_of_pos (by simp [some_]),
      List.filter_cons_of_pos (by simp [between]), List.filter_cons_of_pos (by simp [more])]
    simp only [List.filter_nil, Bytes.join, List.flatMap_cons, List.flatMap_nil, List.append_nil]
    rfl

/-- A path below a directory whose last name has an ending of its own. -/
theorem join_ending {dir : Bytes} (some_ : dir ≠ []) (path : Bytes) {ending : Bytes}
    (absent : 47 ∉ ending) (long : 2 < ending.length) : ∃ above front name, Front above front ∧
      (∀ files : Files,
        files.target above = (folders path).foldl Location.enter (files.target dir)) ∧
      47 ∉ name ∧ Bytes.split 47 path = folders path ++ [name] ∧
      join [dir, path ++ ending] = front ++ (name ++ ending) := by
  obtain ⟨name, apart, parts, shape⟩ := split_last path
  have plain : IsPlain (name ++ ending) := by
    apply IsPlain.of_length
    rw [List.length_append]
    exact Nat.lt_add_left _ long
  have slashless : 47 ∉ name ++ ending := by
    rw [List.mem_append, not_or]
    exact ⟨apart, absent⟩
  have more : path ++ ending ≠ [] := by
    intro none_
    rw [(List.append_eq_nil_iff.mp none_).2] at long
    exact absurd long (by decide)
  rcases shape with ⟨whole, first⟩ | ⟨above, whole, first⟩
  · obtain ⟨front, leads, text⟩ := clean_name some_
    refine ⟨dir, front, name, leads, ?_, apart, parts, ?_⟩
    · intro files
      rw [first]
      rfl
    · rw [join_pair some_ more, whole, text _ plain slashless]
  · have longer : dir ++ 47 :: above ≠ [] := by simp
    obtain ⟨front, leads, text⟩ := clean_name longer
    refine ⟨_, front, name, leads, ?_, apart, parts, ?_⟩
    · intro files
      rw [files.target_append some_, first]
    · rw [join_pair some_ more, ← text _ plain slashless, whole]
      simp

end Path

namespace Bytes

/-- Taking an ending away takes it or leaves all as it is. -/
theorem withoutEnd_cases (ending text : Bytes) :
    text = withoutEnd ending text ++ ending ∨ withoutEnd ending text = text := by
  unfold withoutEnd before?
  split
  · next ends =>
    rw [List.isSuffixOf_iff_suffix] at ends
    obtain ⟨start, rfl⟩ := ends
    left
    simp
  · exact .inr rfl

theorem withoutEnd_append (text ending : Bytes) : withoutEnd ending (text ++ ending) = text := by
  rw [withoutEnd, before?_append]
  rfl

theorem mem_of_withoutEnd {ending text : Bytes} {b : UInt8} (member : b ∈ withoutEnd ending text) :
    b ∈ text := by
  rcases withoutEnd_cases ending text with taken | whole
  · rw [taken]
    exact List.mem_append_left _ member
  · rwa [whole] at member

/-- An ending without a slash belongs to the last name. -/
theorem withoutEnd_front {above front : Bytes} (leads : Path.Front above front) {ending : Bytes}
    (absent : 47 ∉ ending) (name : Bytes) :
    withoutEnd ending (front ++ name) = front ++ withoutEnd ending name := by
  by_cases ends : ending <:+ name
  · obtain ⟨start, rfl⟩ := ends
    rw [← List.append_assoc, withoutEnd_append, withoutEnd_append]
  · have apart : ¬ ending <:+ front ++ name := by
      intro whole
      rcases leads.ends with rfl | ⟨start, rfl⟩
      · exact ends whole
      · have last : 47 :: name <:+ start ++ [47] ++ name := ⟨start, by simp⟩
        rcases List.suffix_or_suffix_of_suffix whole last with inside | around
        · rcases List.suffix_cons_iff.mp inside with rfl | inside
          · exact absent List.mem_cons_self
          · exact ends inside
        · exact absent (around.subset List.mem_cons_self)
    rw [withoutEnd, before?, if_neg (by simpa using apart), withoutEnd, before?,
      if_neg (by simpa using ends)]
    rfl

private theorem findLast?_loop (byte : UInt8) (text : Bytes) (at_ : Nat) (found : Option Nat) :
    let last := text.foldl (fun (state : Nat × Option Nat) b =>
      (state.1 + 1, if b = byte then some state.1 else state.2)) (at_, found)
    last.1 = at_ + text.length ∧ (byte ∉ text → last.2 = found) := by
  induction text generalizing at_ found with
  | nil => exact ⟨rfl, fun _ => rfl⟩
  | cons b rest ih =>
    obtain ⟨place, kept⟩ := ih (at_ + 1) (if b = byte then some at_ else found)
    refine ⟨?_, ?_⟩
    · rw [List.foldl_cons, place, List.length_cons]
      omega
    · intro absent
      simp only [List.mem_cons, not_or] at absent
      rw [List.foldl_cons, kept absent.2, if_neg (Ne.symm absent.1)]

theorem findLast?_append {byte : UInt8} (text : Bytes) {tail : Bytes} (absent : byte ∉ tail) :
    findLast? byte (text ++ byte :: tail) = some text.length := by
  rw [findLast?, List.foldl_append, List.foldl_cons]
  have first := (findLast?_loop byte text 0 none).1
  rw [(findLast?_loop byte tail _ _).2 absent, if_pos rfl, first, Nat.zero_add]

end Bytes

theorem Path.ext_append (text : Bytes) {tail : Bytes} (dotless : 46 ∉ tail) (slashless : 47 ∉ tail) :
    ext (text ++ 46 :: tail) = 46 :: tail := by
  have free : ∀ b ∈ (46 :: tail).reverse, (b != slash) = true := by
    intro b member
    rw [List.mem_reverse, List.mem_cons] at member
    simp only [bne_iff_ne]
    rintro rfl
    exact member.elim (by decide) slashless
  have name : ((text ++ 46 :: tail).reverse.takeWhile (· != slash)).reverse =
      (text.reverse.takeWhile (· != slash)).reverse ++ 46 :: tail := by
    rw [List.reverse_append, List.takeWhile_append_of_pos free, List.reverse_append,
      List.reverse_reverse]
  rw [ext, name, Bytes.findLast?_append _ dotless]
  exact List.drop_left

namespace Build

/-- Only the root directory has a stem with a slash. -/
theorem stem_of_slash {file : Bytes} (slashed : 47 ∈ stem file) : stem file = "/" := by
  have inside : 47 ∈ Path.base file := Bytes.mem_of_withoutEnd slashed
  unfold stem
  unfold Path.base at inside ⊢
  split at inside
  · exact absurd inside (by decide)
  · next some_ =>
    rw [if_neg some_]
    dsimp only at inside ⊢
    split at inside
    · next bare =>
      rw [if_pos bare]
      change (file.reverse.dropWhile (· == Path.slash)).reverse.isEmpty = true at bare
      rw [List.isEmpty_iff, List.reverse_eq_nil_iff, List.dropWhile_eq_nil_iff] at bare
      have name : file.reverse.takeWhile (· != Path.slash) = [] := by
        cases back : file.reverse with
        | nil => rfl
        | cons b rest =>
          have same := bare b (back ▸ List.mem_cons_self)
          rw [List.takeWhile_cons_of_neg (by simpa using same)]
      have none_ : Path.ext file = [] := by
        rw [Path.ext, name]
        rfl
      rw [none_]
      rfl
    · rw [List.mem_reverse] at inside
      have differ := List.mem_takeWhile_imp inside
      exact absurd differ (by decide)

namespace Request

theorem outputDir_ne_nil (request : Request) : request.outputDir ≠ [] := by
  have named : ∀ (text : Bytes) (usual : String), Bytes.ofString usual ≠ [] →
      (if text.isEmpty then Bytes.ofString usual else text) ≠ [] := by
    intro text usual some_
    split
    · exact some_
    · next given => simpa using given
  rw [outputDir, Path.join_pair (named _ _ (by decide)) (named _ _ (by decide))]
  exact Path.clean_ne_nil _

def artefact (request : Request) (stem : Bytes) : Bytes :=
  if request.options.target = some .jvm then
    let name := ClassFile.generatedName request.options.className
    if stem = [] then name else stem ++ 47 :: name
  else stem

def ending (request : Request) : Bytes :=
  (if request.options.target = some .jvm then Target.jvm else Target.llvm).extension

theorem ending_plain (request : Request) : 47 ∉ request.ending ∧ 2 < request.ending.length := by
  unfold ending
  split <;> decide

theorem outputPath_eq (request : Request) (stem : Bytes) : request.outputPath stem =
    Path.join [request.outputDir, request.artefact stem ++ request.ending] := by
  unfold outputPath artefact ending
  split
  · have more : ClassFile.generatedName request.options.className ++ Target.jvm.extension ≠ [] := by
      simp [Target.extension, show Bytes.ofString ".class" ≠ [] by decide]
    rw [Path.join_triple request.outputDir_ne_nil stem more]
    dsimp only
    split
    · rfl
    · rw [List.append_assoc, List.cons_append]
  · rfl

theorem folders_artefact (request : Request) (stem : Bytes) :
    Path.folders (request.artefact stem) =
      if request.options.target = some .jvm then
        (if stem = [] then [] else Bytes.split 47 stem) ++
          Path.folders (ClassFile.generatedName request.options.className)
      else Path.folders stem := by
  unfold artefact
  split
  · dsimp only
    split
    · rfl
    · obtain ⟨name, _, parts, _⟩ :=
        Path.split_last (ClassFile.generatedName request.options.className)
      rw [Path.folders, Bytes.split_append, parts, ← List.append_assoc, List.dropLast_concat]
  · rfl

/-- An artefact is below the output tree unless a directory above it leads up. -/
theorem outputPath_below (request : Request) (files : Files) {stem : Bytes}
    (level : (".." : Bytes) ∉ Path.folders (request.artefact stem)) :
    (files.target (request.outputPath stem)).Below (files.target request.outputDir) := by
  obtain ⟨absent, long⟩ := request.ending_plain
  obtain ⟨above, front, name, leads, place, apart, _, text⟩ :=
    Path.join_ending request.outputDir_ne_nil (request.artefact stem) absent long
  have slashless : 47 ∉ name ++ request.ending := by
    rw [List.mem_append, not_or]
    exact ⟨apart, absent⟩
  have plain : IsPlain (name ++ request.ending) := by
    apply IsPlain.of_length
    rw [List.length_append]
    exact Nat.lt_add_left _ long
  rw [outputPath_eq, text, leads.leads files _ slashless, place files, Location.foldl_enter level,
    Location.enter_plain plain, List.append_assoc]
  exact ⟨_, by simp, rfl⟩

/-- The jobs of a plan are those of the files it takes, whose stems are new and different. -/
theorem planLoop_takes (request : Request) (workingDir : Bytes) (files : List Bytes)
    (seen : List (Bytes × Bytes)) (done : List Job) :
    ∃ taken rest, files = taken ++ rest ∧
      (request.planLoop workingDir files seen done).1 =
        done.reverse ++ taken.map (request.job workingDir) ∧
      (taken.map stem).Nodup ∧ (∀ file ∈ taken, seen.lookup (stem file) = none) ∧
      ((request.planLoop workingDir files seen done).2 = none → rest = []) := by
  induction files generalizing seen done with
  | nil => exact ⟨[], [], rfl, by simp [planLoop], List.nodup_nil, nofun, fun _ => rfl⟩
  | cons file files ih =>
    rw [planLoop]
    split
    · exact ⟨[], file :: files, rfl, by simp, List.nodup_nil, nofun, nofun⟩
    · next fresh =>
      obtain ⟨taken, rest, whole, jobs, distinct, unseen, all⟩ :=
        ih ((stem file, file) :: seen) (request.job workingDir file :: done)
      have later : ∀ other ∈ taken, stem other ≠ stem file ∧ seen.lookup (stem other) = none := by
        intro other member
        have missing := unseen other member
        rw [List.lookup_cons] at missing
        split at missing
        · cases missing
        · next differ => exact ⟨by simpa using differ, missing⟩
      refine ⟨file :: taken, rest, by rw [whole]; rfl, ?_, ?_, ?_, all⟩
      · rw [jobs]
        simp
      · rw [List.map_cons, List.nodup_cons]
        refine ⟨?_, distinct⟩
        intro member
        obtain ⟨other, inside, same⟩ := List.mem_map.mp member
        exact (later other inside).1 same
      · rw [List.forall_mem_cons]
        exact ⟨fresh, fun other member => (later other member).2⟩

end Request

def Job.writes (job : Job) (link : Bool) : List Bytes :=
  let executable := executablePath job.output
  [job.output, job.output ++ ".tmp"] ++ if link then [executable, objectPath executable] else []

def textNames (link : Bool) (stem : Bytes) : List Bytes :=
  [stem ++ ".ll", stem ++ (".ll" ++ ".tmp")] ++
    if link then [stem, Bytes.withoutEnd ".exe" stem ++ ".o"] else []

/-- A stem that no other file of another stem's job is called, and that shares no object with it. -/
def Unmistakable (stem other : Bytes) : Prop :=
  stem ≠ other ++ ".ll" ∧ stem ≠ other ++ (".ll" ++ ".tmp") ∧
    stem ≠ Bytes.withoutEnd ".exe" other ++ ".o" ∧ stem ≠ other ++ ".exe"

instance (stem other : Bytes) : Decidable (Unmistakable stem other) :=
  inferInstanceAs (Decidable (_ ∧ _))

theorem executablePath_append (text : Bytes) : executablePath (text ++ ".ll") = text := by
  have dotted : Path.ext (text ++ ".ll") = ".ll" :=
    @Path.ext_append text [108, 108] (by decide) (by decide)
  rw [executablePath, dotted, Bytes.withoutEnd_append]

private theorem getLast?_append {ending : Bytes} (some_ : ending ≠ []) (text : Bytes) :
    (text ++ ending).getLast? = ending.getLast? := by
  rw [List.getLast?_append, List.getLast?_eq_some_getLast some_]
  rfl

private theorem append_ne {ending other : Bytes} (last : ending.getLast? ≠ other.getLast?)
    (some_ : ending ≠ [] ∧ other ≠ []) (text word : Bytes) : text ++ ending ≠ word ++ other := by
  intro same
  apply last
  rw [← getLast?_append some_.1 text, same, getLast?_append some_.2 word]

/-- A name leads down if it does not end in a dot. -/
private theorem plain_append {ending : Bytes} (some_ : ending ≠ [])
    (last : ending.getLast? ≠ some 46) (text : Bytes) : IsPlain (text ++ ending) := by
  rw [← getLast?_append some_ text] at last
  refine ⟨by simp [some_], ?_, ?_⟩ <;> intro same <;> rw [same] at last <;> exact last rfl

/-- Without the ending of executables, two different stems are alike only if one has it. -/
private theorem object_ne {stem other : Bytes} (differ : stem ≠ other)
    (clear : Unmistakable stem other) (clean : Unmistakable other stem) :
    Bytes.withoutEnd ".exe" stem ++ ".o" ≠ Bytes.withoutEnd ".exe" other ++ ".o" := by
  intro same
  have same := List.append_cancel_right same
  rcases Bytes.withoutEnd_cases ".exe" stem with one | one <;>
    rcases Bytes.withoutEnd_cases ".exe" other with two | two
  · rw [same, ← two] at one
    exact differ one
  · rw [same, two] at one
    exact clear.2.2.2 one
  · rw [← same, one] at two
    exact clean.2.2.2 two
  · rw [one, two] at same
    exact differ same

/-- Different stems give different names. -/
theorem textNames_apart {link : Bool} {stem other : Bytes} (differ : stem ≠ other)
    (clear : link = true → Unmistakable stem other ∧ Unmistakable other stem) {name : Bytes}
    (first : name ∈ textNames link stem) : name ∉ textNames link other := by
  have text : ∀ ending : Bytes, stem ++ ending ≠ other ++ ending :=
    fun ending same => differ (List.append_cancel_right same)
  have drafts : ∀ one two : Bytes, one ++ ".ll" ≠ two ++ (".ll" ++ ".tmp") :=
    append_ne (by decide) (by decide)
  have objects : ∀ one two : Bytes, one ++ ".ll" ≠ two ++ ".o" := append_ne (by decide) (by decide)
  have mixed : ∀ one two : Bytes, one ++ (".ll" ++ ".tmp") ≠ two ++ ".o" :=
    append_ne (by decide) (by decide)
  intro second
  cases link with
  | false =>
    simp only [textNames, Bool.false_eq_true, if_false, List.append_nil, List.mem_cons,
      List.not_mem_nil, or_false] at first second
    rcases first with rfl | rfl <;> rcases second with same | same
    · exact text _ same
    · exact drafts _ _ same
    · exact drafts _ _ same.symm
    · exact text _ same
  | true =>
    obtain ⟨clear, clean⟩ := clear rfl
    simp only [textNames, if_true, List.cons_append, List.nil_append, List.mem_cons,
      List.not_mem_nil, or_false] at first second
    rcases first with rfl | rfl | rfl | rfl <;> rcases second with same | same | same | same
    · exact text _ same
    · exact drafts _ _ same
    · exact clean.1 same.symm
    · exact objects _ _ same
    · exact drafts _ _ same.symm
    · exact text _ same
    · exact clean.2.1 same.symm
    · exact mixed _ _ same
    · exact clear.1 same
    · exact clear.2.1 same
    · exact differ same
    · exact clear.2.2.1 same
    · exact objects _ _ same.symm
    · exact mixed _ _ same.symm
    · exact clean.2.2.1 same.symm
    · exact object_ne differ clear clean same

theorem textNames_plain {link : Bool} {stem : Bytes} (absent : 47 ∉ stem)
    (plain : link = true → IsPlain stem) {name : Bytes} (member : name ∈ textNames link stem) :
    IsPlain name ∧ 47 ∉ name := by
  have slashless : ∀ {text ending : Bytes}, 47 ∉ text → 47 ∉ ending → 47 ∉ text ++ ending := by
    intro text ending one two
    rw [List.mem_append, not_or]
    exact ⟨one, two⟩
  rw [textNames, List.mem_append, List.mem_cons, List.mem_singleton] at member
  rcases member with (rfl | rfl) | linked
  · exact ⟨plain_append (by decide) (by decide) _, slashless absent (by decide)⟩
  · exact ⟨plain_append (by decide) (by decide) _, slashless absent (by decide)⟩
  · cases link with
    | false => exact absurd linked List.not_mem_nil
    | true =>
      rw [if_pos rfl, List.mem_cons, List.mem_singleton] at linked
      rcases linked with rfl | rfl
      · exact ⟨plain rfl, absent⟩
      · refine ⟨plain_append (by decide) (by decide) _, slashless ?_ (by decide)⟩
        exact fun member => absent (Bytes.mem_of_withoutEnd member)

theorem writes_front {job : Job} {above front stem : Bytes} (leads : Path.Front above front)
    (output : job.output = front ++ (stem ++ ".ll")) (link : Bool) :
    job.writes link = (textNames link stem).map (front ++ ·) := by
  have executable : executablePath job.output = front ++ stem := by
    rw [output, ← List.append_assoc, executablePath_append]
  have object : objectPath (executablePath job.output) =
      front ++ (Bytes.withoutEnd ".exe" stem ++ ".o") := by
    rw [executable, objectPath, Bytes.withoutEnd_front leads (by decide), List.append_assoc]
  have draft : job.output ++ ".tmp" = front ++ (stem ++ (".ll" ++ ".tmp")) := by
    rw [output]
    simp only [List.append_assoc]
  rw [Job.writes, object, executable, draft, output, textNames]
  cases link <;> rfl

namespace Request

/-- Jobs of text write names in the output tree itself. -/
theorem text_writes {request : Request} (files : Files) {stem : Bytes} {job : Job}
    (text : request.options.target ≠ some .jvm) (absent : 47 ∉ stem)
    (plain : request.link = true → IsPlain stem) (made : job.output = request.outputPath stem)
    {path : Bytes} (written : path ∈ job.writes request.link) :
    ∃ name ∈ textNames request.link stem,
      files.target path = files.target request.outputDir ++ [name] := by
  obtain ⟨slashless, long⟩ := request.ending_plain
  obtain ⟨above, front, name, leads, place, _, parts, output⟩ :=
    Path.join_ending request.outputDir_ne_nil (request.artefact stem) slashless long
  have ending : request.ending = ".ll" := by
    rw [Request.ending, if_neg text]
    rfl
  have artefact : request.artefact stem = stem := by rw [Request.artefact, if_neg text]
  rw [artefact, Path.folders_of_absent absent] at place
  rw [artefact, Path.folders_of_absent absent, Bytes.split_of_absent absent, List.nil_append,
    List.cons.injEq, and_iff_left rfl] at parts
  rw [← outputPath_eq, ← made, ending, ← parts] at output
  rw [writes_front leads output, List.mem_map] at written
  obtain ⟨name, member, rfl⟩ := written
  obtain ⟨plain, absent⟩ := textNames_plain absent plain member
  refine ⟨name, member, ?_⟩
  rw [leads.leads files name absent, place files, List.foldl_nil, Location.enter_plain plain]

/-- Jobs of classes write below the directory of their stem. -/
theorem class_writes {request : Request} (files : Files) {stem : Bytes} {job : Job}
    (class_ : request.options.target = some .jvm) (absent : 47 ∉ stem) (plain : IsPlain stem)
    (level : (".." : Bytes) ∉ Path.folders (ClassFile.generatedName request.options.className))
    (made : job.output = request.outputPath stem) {path : Bytes}
    (written : path ∈ job.writes false) :
    (files.target path).Below (files.target request.outputDir ++ [stem]) := by
  obtain ⟨slashless, long⟩ := request.ending_plain
  obtain ⟨above, front, name, leads, place, apart, _, output⟩ :=
    Path.join_ending request.outputDir_ne_nil (request.artefact stem) slashless long
  rw [← outputPath_eq, ← made] at output
  have ending : request.ending = ".class" := by
    rw [Request.ending, if_pos class_]
    rfl
  rw [ending] at output slashless
  have down : ∀ tail : Bytes, tail.getLast? ≠ some 46 → 47 ∉ tail → tail ≠ [] →
      (files.target (front ++ (name ++ tail))).Below (files.target request.outputDir ++ [stem]) := by
    intro tail last free some_
    have free : 47 ∉ name ++ tail := by
      rw [List.mem_append, not_or]
      exact ⟨apart, free⟩
    rw [leads.leads files _ free, place files, folders_artefact, if_pos class_, if_neg plain.1,
      Bytes.split_of_absent absent, List.foldl_append, List.foldl_cons, List.foldl_nil,
      Location.enter_plain plain, Location.foldl_enter level,
      Location.enter_plain (plain_append some_ last name), List.append_assoc]
    exact ⟨_, by simp, rfl⟩
  rw [Job.writes, if_neg (by decide), List.append_nil, List.mem_cons, List.mem_singleton] at written
  rcases written with rfl | rfl
  · rw [output]
    exact down _ (by decide) slashless (by decide)
  · rw [output, List.append_assoc, List.append_assoc]
    exact down _ (by decide) (by decide) (by decide)

/-- A build that is to link makes text. -/
theorem link_text {request : Request} {files : Files} {tools : Option Toolchain}
    (prepared : request.prepare files = .ok tools) (link : request.link = true) :
    request.options.target ≠ some .jvm := by
  intro class_
  unfold prepare at prepared
  rw [link, class_] at prepared
  split at prepared
  · cases prepared
  · rw [if_neg (by decide), if_pos (by decide)] at prepared
    cases prepared

theorem writes_apart {request : Request} {files : Files} {tools : Option Toolchain}
    (prepared : request.prepare files = .ok tools) {stem other : Bytes} (differ : stem ≠ other)
    (absent : 47 ∉ stem ∧ 47 ∉ other)
    (plain : request.options.target = some .jvm ∨ request.link = true →
      IsPlain stem ∧ IsPlain other)
    (level : request.options.target = some .jvm →
      (".." : Bytes) ∉ Path.folders (ClassFile.generatedName request.options.className))
    (clear : request.link = true → Unmistakable stem other ∧ Unmistakable other stem)
    {job twin : Job} (made : job.output = request.outputPath stem)
    (born : twin.output = request.outputPath other) {path : Bytes}
    (written : path ∈ job.writes request.link) {place : Bytes}
    (drawn : place ∈ twin.writes request.link) : files.target path ≠ files.target place := by
  intro same
  by_cases class_ : request.options.target = some .jvm
  · have alone : request.link = false := by
      by_contra link
      exact link_text prepared (by simpa using link) class_
    rw [alone] at written drawn
    obtain ⟨one, two⟩ := plain (.inl class_)
    obtain ⟨down, _, here⟩ := class_writes files class_ absent.1 one (level class_) made written
    obtain ⟨deep, _, there⟩ := class_writes files class_ absent.2 two (level class_) born drawn
    rw [here, there, List.append_assoc, List.append_assoc] at same
    have stems := List.append_cancel_left same
    exact differ (List.cons.inj stems).1
  · obtain ⟨name, first, here⟩ :=
      text_writes files class_ absent.1 (fun link => (plain (.inr link)).1) made written
    obtain ⟨word, second, there⟩ :=
      text_writes files class_ absent.2 (fun link => (plain (.inr link)).2) born drawn
    rw [here, there] at same
    have names : name = word := by simpa using List.append_cancel_left same
    exact textNames_apart differ clear first (names ▸ second)

end Request

/-- The check on stems keeps what two jobs write apart, at different locations and so under
different paths, where every stem is a name (one without a slash is enough for text that is not
linked), the directories of the class name do not lead up, and no stem of linked text looks like
another file of some job. -/
theorem jobs_write_apart {request : Request} {files : Files} {tools : Option Toolchain}
    {jobs : List Job} (prepared : request.prepare files = .ok tools)
    (planned : request.plan files.workingDir = (jobs, none))
    (rootless : ∀ file ∈ request.files, stem file ≠ "/")
    (plain : request.options.target = some .jvm ∨ request.link = true →
      ∀ file ∈ request.files, IsPlain (stem file))
    (level : request.options.target = some .jvm →
      (".." : Bytes) ∉ Path.folders (ClassFile.generatedName request.options.className))
    (clear : request.link = true → ∀ file ∈ request.files, ∀ other ∈ request.files,
      Unmistakable (stem file) (stem other)) :
    jobs.length = request.files.length ∧
      jobs.Pairwise fun job twin => ∀ path ∈ job.writes request.link,
        ∀ place ∈ twin.writes request.link,
          path ≠ place ∧ files.target path ≠ files.target place := by
  obtain ⟨taken, rest, whole, made, distinct, _, all⟩ :=
    request.planLoop_takes files.workingDir request.files [] []
  change request.planLoop files.workingDir request.files [] [] = (jobs, none) at planned
  rw [planned] at made all
  rw [all rfl, List.append_nil] at whole
  rw [← whole, List.reverse_nil, List.nil_append] at made
  rw [← whole] at distinct
  dsimp only at made
  refine ⟨by rw [made, List.length_map], ?_⟩
  rw [made, List.pairwise_map]
  have slashless : ∀ file ∈ request.files, 47 ∉ stem file :=
    fun file member slashed => rootless file member (stem_of_slash slashed)
  have differ : request.files.Pairwise fun file other => stem file ≠ stem other :=
    List.pairwise_map.mp distinct
  apply differ.imp_of_mem
  intro file other first second differ path written place drawn
  have apart := Request.writes_apart prepared differ
    ⟨slashless file first, slashless other second⟩
    (fun named => ⟨plain named file first, plain named other second⟩) level
    (fun link => ⟨clear link file first other second, clear link other second file first⟩)
    rfl rfl written drawn
  exact ⟨fun same => apart (same ▸ rfl), apart⟩

/-- Stems that are no names pass the check and have one output. -/
example :
    let request : Request := { files := [".mini", "..mini"], options := { target := some .jvm } }
    (request.plan "/").2 = none ∧
      request.outputPath (stem ".mini") = request.outputPath (stem "..mini") := by
  decide

/-- The executable of one stem may be the text of another. -/
example : executablePath (Request.outputPath { files := [] } (stem "a.ll.mini")) =
    Request.outputPath { files := [] } (stem "a.mini") := by
  decide

def toolbox : Files :=
  { entries := [(["bin"], .directory), (["bin", "clang"], .file "#!/bin/sh")] }

def linkedPair : Request :=
  { files := ["a.mini", "s/a.o.exe.mini"], link := true, searchPath := ["/bin"] }

theorem linkedPair_writes_apart :
    (linkedPair.plan toolbox.workingDir).2 = none ∧
      (linkedPair.plan toolbox.workingDir).1.Pairwise fun job twin =>
        ∀ path ∈ job.writes true, ∀ place ∈ twin.writes true,
          path ≠ place ∧ toolbox.target path ≠ toolbox.target place := by
  have prepared : linkedPair.prepare toolbox = .ok (some { clang := "/bin/clang", llc := none }) := rfl
  have clear : (linkedPair.plan toolbox.workingDir).2 = none := by decide
  refine ⟨clear, ?_⟩
  exact (jobs_write_apart prepared (Prod.ext rfl clear) (by decide) (fun _ => by decide) nofun
    (fun _ => by decide)).2

end Build

namespace Command

open Build

/-- The name that a flag gives the class is empty or was found to be one. -/
theorem generationOptions_className {given : Given} {settings : Settings} {options : CompileOptions}
    (checked : generationOptions given settings = .ok options) :
    options.className = [] ∨ ClassFile.isClassName options.className = true := by
  unfold generationOptions at checked
  dsimp only at checked
  -- Whatever the target is, the check on the name comes last.
  split at checked
  on_goal 2 => split at checked
  all_goals
    obtain ⟨target, _, checked⟩ := bind_eq_ok.mp checked
    obtain ⟨dialect, _, checked⟩ := bind_eq_ok.mp checked
    split at checked
    · cases checked
    · next valid =>
      cases checked
      simpa [or_iff_not_imp_left] using valid

theorem folders_of_isClassName {name : Bytes} (named : ClassFile.isClassName name = true) :
    (".." : Bytes) ∉ Path.folders name := by
  intro member
  unfold ClassFile.isClassName at named
  have part := List.all_eq_true.mp named _ (List.dropLast_subset _ member)
  exact absurd part (by decide)

/-- A request is completed by a manifest, from which the class name comes if not from the flags. -/
theorem applyManifest_className {files : Files} {version base : Bytes} {given : Given}
    {request completed : Request}
    (applied : applyManifest files version given request = .ok (completed, base)) :
    ∃ manifest, Project.findAndLoad files files.workingDir = .ok (some manifest) ∧
      (completed.options.className = request.options.className ∨
        completed.options.className = manifest.settings.className) := by
  unfold applyManifest at applied
  dsimp only at applied
  obtain ⟨found, read, applied⟩ := bind_eq_ok.mp applied
  split at read
  · next loaded =>
    cases read
    cases found with
    | none => cases applied
    | some manifest =>
      refine ⟨manifest, loaded, ?_⟩
      dsimp only at applied
      split at applied
      · cases applied
      · obtain ⟨sources, _, applied⟩ := bind_eq_ok.mp applied
        cases applied
        dsimp only
        split
        · exact .inl rfl
        · exact .inr rfl
  · cases read

/-- A build from a manifest puts every artefact strictly below its output tree, whatever the files,
the output root and the profile are. For classes, the directories of the manifest's class name must
not lead up, and no stem may be the step up itself: the manifest's class name is not checked as that
of the flags is. -/
theorem manifest_build_stays_inside {files : Files} {version base : Bytes} {given : Given}
    {settings : Settings} {request completed : Request} {manifest : Project.Manifest}
    (checked : generationOptions given settings = .ok request.options)
    (loaded : Project.findAndLoad files files.workingDir = .ok (some manifest))
    (applied : applyManifest files version given request = .ok (completed, base))
    (sources : List Bytes)
    (level : completed.options.target = some .jvm →
      (".." : Bytes) ∉ Path.folders manifest.settings.className ∧
        ∀ file ∈ sources, stem file ≠ "..")
    (outputRoot profile : Bytes) :
    let built := { completed with files := sources, outputRoot, profile }
    ∀ job ∈ (built.plan files.workingDir).1,
      (files.target job.output).Below (files.target built.outputDir) := by
  intro built job planned
  obtain ⟨taken, rest, whole, jobs, _⟩ := built.planLoop_takes files.workingDir built.files [] []
  change job ∈ (built.planLoop files.workingDir built.files [] []).1 at planned
  rw [jobs, List.reverse_nil, List.nil_append, List.mem_map] at planned
  obtain ⟨file, member, rfl⟩ := planned
  have member : file ∈ sources := by
    change sources = taken ++ rest at whole
    rw [whole]
    exact List.mem_append_left _ member
  apply Request.outputPath_below
  rw [Request.folders_artefact]
  split
  · next class_ =>
    obtain ⟨packages, stems⟩ := level class_
    have named : (".." : Bytes) ∉ Path.folders completed.options.className := by
      obtain ⟨other, same, source⟩ := applyManifest_className applied
      rw [loaded] at same
      cases same
      rcases source with flag | configured
      · rw [flag]
        rcases generationOptions_className checked with none_ | valid
        · rw [none_]
          decide
        · exact folders_of_isClassName valid
      · rwa [configured]
    have generated :
        (".." : Bytes) ∉ Path.folders (ClassFile.generatedName completed.options.className) := by
      unfold ClassFile.generatedName
      split
      · decide
      · exact named
    rw [List.mem_append, not_or]
    refine ⟨?_, generated⟩
    split
    · exact List.not_mem_nil
    · by_cases slashed : 47 ∈ stem file
      · rw [stem_of_slash slashed]
        decide
      · rw [Bytes.split_of_absent slashed, List.mem_singleton]
        exact Ne.symm (stems file member)
  · by_cases slashed : 47 ∈ stem file
    · rw [stem_of_slash slashed]
      decide
    · rw [Path.folders_of_absent slashed]
      exact List.not_mem_nil

/-- A class name that leads up leaves the output tree. -/
example :
    let options : CompileOptions := { target := some .jvm, className := "../../../x" }
    Request.outputPath { files := [], options } "a" = "x.class" := by
  decide

def demo : Files :=
  { workingDir := "/demo"
    entries :=
      [(["demo"], .directory), (["demo", "a.mini"], .file "print 1;"),
        (["demo", "minicomp.toml"], .file <| "[package]\nname = \"demo\"\n[build]\n" ++
          "sources = [\"a.mini\"]\ntarget = \"jvm\"\nclass_name = \"demo/Main\"\n")] }

def plainRequest : Request := { files := [], options := { target := some .llvm } }

theorem demo_stays_inside : ∃ completed base,
    applyManifest demo "0.1.0" [] plainRequest = .ok (completed, base) ∧
      let built :=
        { completed with files := ["/demo/a.mini"], outputRoot := "out", profile := "debug" }
      (built.plan demo.workingDir).1.length = 1 ∧ ∀ job ∈ (built.plan demo.workingDir).1,
        (demo.target job.output).Below (demo.target built.outputDir) := by
  let settings : Settings :=
    { color := false, quiet := false, timings := false, maxDiagnostics := 0, format := .plain }
  have checked : generationOptions [] settings = .ok plainRequest.options := rfl
  have named : (Project.findAndLoad demo demo.workingDir).toOption.map
      (·.map (·.settings.className)) = some (some ("demo/Main" : Bytes)) := by
    decide +kernel
  obtain ⟨⟨completed, base⟩, applied⟩ := exists_ok
    (show (applyManifest demo "0.1.0" [] plainRequest).toOption.isSome = true by decide +kernel)
  obtain ⟨manifest, loaded, _⟩ := applyManifest_className applied
  have level : (".." : Bytes) ∉ Path.folders manifest.settings.className ∧
      ∀ file ∈ [("/demo/a.mini" : Bytes)], stem file ≠ ".." := by
    rw [loaded] at named
    have name : manifest.settings.className = "demo/Main" :=
      Option.some.inj (Option.some.inj named)
    rw [name]
    decide
  refine ⟨completed, base, applied, rfl, ?_⟩
  exact manifest_build_stays_inside checked loaded applied _ (fun _ => level) "out" "debug"

end Command

end Minilang
