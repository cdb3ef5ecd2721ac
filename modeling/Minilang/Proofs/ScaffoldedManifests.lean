import Minilang.Project.Scaffold
import Minilang.Proofs.ConfigurationLines
import Minilang.Proofs.TreeOperations
import Minilang.Proofs.VersionConditions

/-! New projects. The manifest that is written for a project reads back as what the project was made
with, unless its name holds a control character that only messages have an escape for. -/

namespace Minilang.Project

open Toml (Reads isPortable)

/-- The lines of a new manifest, each without its end. -/
def manifestLines (name toolchain : Bytes) : List Bytes := [
  91 :: (("package" : Bytes) ++ [93]),
  ("name" : Bytes) ++ 32 :: 61 :: 32 :: 34 :: (Toml.inQuotes name ++ [34]),
  ("toolchain" : Bytes) ++ 32 :: 61 :: 32 :: 34 :: ((">=" : Bytes) ++ toolchain ++ [34]),
  10 :: 91 :: (("build" : Bytes) ++ [93]),
  ("target" : Bytes) ++ 32 :: 61 :: 32 :: 34 :: (("llvm" : Bytes) ++ [34]),
  ("sources" : Bytes) ++ 32 :: 61 :: 32 :: 91 :: 34 :: (("main.mini" : Bytes) ++ [34, 93])]

/-- What the lines of a new manifest say. -/
def manifestRead (name toolchain : Bytes) : List Toml.Line := [
  .table ["package"],
  .assign ["name"] (.text name),
  .assign ["toolchain"] (.text (">=" ++ toolchain)),
  .table ["build"],
  .assign ["target"] (.text "llvm"),
  .assign ["sources"] (.array [.text "main.mini"])]

theorem manifestText_lines (name toolchain : Bytes) :
    manifestText name toolchain = (manifestLines name toolchain).flatMap (· ++ [10]) := by
  have first : ("[package]\nname = " : Bytes) =
      91 :: (("package" : Bytes) ++ [93]) ++ [10] ++ (("name" : Bytes) ++ [32, 61, 32]) := by
    decide
  have second : ("\ntoolchain = \">=" : Bytes) =
      10 :: (("toolchain" : Bytes) ++ [32, 61, 32, 34] ++ (">=" : Bytes)) := by
    decide
  have third : ("\"\n\n[build]\ntarget = \"llvm\"\nsources = [\"main.mini\"]\n" : Bytes) =
      34 :: 10 :: 10 :: 91 :: (("build" : Bytes) ++ [93]) ++ 10 :: (("target" : Bytes) ++
        32 :: 61 :: 32 :: 34 :: (("llvm" : Bytes) ++ 34 :: 10 :: (("sources" : Bytes) ++
          32 :: 61 :: 32 :: 91 :: 34 :: (("main.mini" : Bytes) ++ [34, 93, 10])))) := by
    decide
  rw [manifestText, first, second, third, Toml.quoted_eq]
  simp only [manifestLines, List.flatMap_cons, List.flatMap_nil, List.append_assoc,
    List.cons_append, List.nil_append, List.append_nil]

theorem version_ordinary {b : UInt8} (version : Semver.Spelling.isVersionByte b = true) :
    Toml.isOrdinary b = true ∧ Text.isSolid b = true := by
  revert b
  apply Bytes.forall_byte
  decide +kernel

section

variable {name toolchain : Bytes} (valid : Utf8.isValid name = true)
  (versioned : ∀ b ∈ toolchain, Semver.Spelling.isVersionByte b = true)

include valid versioned

theorem manifestText_clean : Toml.isClean (manifestText name toolchain) = true := by
  apply Toml.isClean_visible
  have fixed : ∀ b ∈ ("[package]\nname = " : Bytes) ++ ("\ntoolchain = \">=" : Bytes) ++
      ("\"\n\n[build]\ntarget = \"llvm\"\nsources = [\"main.mini\"]\n" : Bytes),
      b = 10 ∨ 32 ≤ b.toNat ∧ b.toNat ≠ 127 := by
    decide
  have inner : ∀ b ∈ Text.quoted name, b = 10 ∨ 32 ≤ b.toNat ∧ b.toNat ≠ 127 := by
    rw [Toml.quoted_eq]
    have quote : (34 : UInt8) = 10 ∨ 32 ≤ (34 : UInt8).toNat ∧ (34 : UInt8).toNat ≠ 127 := by decide
    refine List.forall_mem_cons.mpr ⟨quote, List.forall_mem_append.mpr ⟨?_, ?_⟩⟩
    · exact fun b member => .inr ((Toml.spells_inQuotes valid).clean b member)
    · exact List.forall_mem_singleton.mpr quote
  have condition : ∀ b ∈ toolchain, b = 10 ∨ 32 ≤ b.toNat ∧ b.toNat ≠ 127 := by
    intro b member
    have := Toml.ordinary_iff.mp (version_ordinary (versioned b member)).1
    exact .inr ⟨this.1, this.2.2.2⟩
  simp only [List.forall_mem_append] at fixed
  simp only [manifestText, List.forall_mem_append]
  exact ⟨⟨⟨⟨fixed.1.1, inner⟩, fixed.1.2⟩, condition⟩, fixed.2⟩

theorem manifestText_valid : Utf8.isValid (manifestText name toolchain) = true := by
  have condition : Utf8.isValid toolchain = true := by
    apply Utf8.isValid_of_ascii
    intro b member
    exact Text.ascii_of_solid (version_ordinary (versioned b member)).2
  refine Utf8.isValid_append (Utf8.isValid_append (Utf8.isValid_append (Utf8.isValid_append ?_
    (Toml.isValid_quoted valid)) ?_) condition) ?_
  all_goals
    apply Utf8.isValid_of_ascii
    decide

/-- The manifest is read line by line, but for a name that it does not spell. -/
theorem lines?_manifestText : Toml.lines? (manifestText name toolchain) =
    if (Utf8.codes name).all isPortable then some (manifestRead name toolchain) else none := by
  have bare : ∀ key ∈ [("package" : Bytes), "name", "toolchain", "build", "target", "sources"],
      key ≠ [] ∧ ∀ b ∈ key, Toml.isBareKey b = true := by
    decide
  have named : ∀ {key : Bytes}, (key ≠ [] ∧ ∀ b ∈ key, Toml.isBareKey b = true) →
      Toml.IsBare key := fun both => ⟨both.1, both.2⟩
  simp only [List.forall_mem_cons] at bare
  have plain : ∀ text ∈ [(">=" : Bytes), "llvm", "main.mini"],
      ∀ b ∈ text, Toml.isOrdinary b = true := by
    decide
  simp only [List.forall_mem_cons] at plain
  have condition : ∀ b ∈ (">=" : Bytes) ++ toolchain, Toml.isOrdinary b = true :=
    List.forall_mem_append.mpr
      ⟨plain.1, fun b member => (version_ordinary (versioned b member)).1⟩
  have package := Reads.table (named bare.1)
  have nameLine := Reads.text (named bare.2.1) (Toml.spells_inQuotes valid)
  have toolchainLine := Reads.text (named bare.2.2.1) (Toml.spells_ordinary condition)
  have build := (Reads.table (named bare.2.2.2.1)).behind
  have target := Reads.text (named bare.2.2.2.2.1) (Toml.spells_ordinary plain.2.1)
  have sources := Reads.list (named bare.2.2.2.2.2.1) (Toml.spells_ordinary plain.2.2.1)
  have begins : Toml.withoutMark (manifestText name toolchain) = manifestText name toolchain := rfl
  have long : 7 ≤ (manifestText name toolchain).length := by
    have first : ("[package]\nname = " : Bytes).length = 17 := by decide
    simp only [manifestText, List.length_append]
    omega
  obtain ⟨fuel, enough⟩ := Nat.exists_eq_add_of_le' long
  rw [Toml.lines?, begins, manifestText_clean valid versioned, manifestText_valid valid versioned,
    Bool.true_and, if_pos rfl, enough, manifestText_lines]
  split
  next portable =>
    rw [if_pos portable] at nameLine
    have each : ∀ item ∈ (manifestLines name toolchain).zip (manifestRead name toolchain),
        Reads item.1 (some item.2) := by
      simp only [manifestLines, manifestRead, List.zip_cons_cons, List.zip_nil_left,
        List.forall_mem_cons]
      exact ⟨package, nameLine, toolchainLine, build, target, sources, nofun⟩
    have read := Toml.linesLoop_reads each (fuel + 2) [] []
    rw [List.append_nil] at read
    exact read
  next foreign =>
    rw [if_neg foreign] at nameLine
    rw [manifestLines, List.flatMap_cons, List.append_assoc, List.singleton_append, package.step,
      List.flatMap_cons, List.append_assoc, List.singleton_append]
    exact nameLine.refused _ _ _

end

/-- The tables of a new manifest. -/
def manifestRoot (name toolchain : Bytes) : Toml.Fields := [
  ("package", .table [("name", .value (.text name)),
    ("toolchain", .value (.text (">=" ++ toolchain)))]),
  ("build", .table [("target", .value (.text "llvm")),
    ("sources", .value (.array [.text "main.mini"]))])]

def manifestKeys : List Toml.Key := [
  ["package"], ["package", "name"], ["package", "toolchain"],
  ["build"], ["build", "target"], ["build", "sources"]]

theorem foldlM_manifestRead (name toolchain : Bytes) :
    ∃ draft, (manifestRead name toolchain).foldlM Toml.Draft.line? {} = some draft ∧
      draft.Shows (manifestRoot name toolchain) ["build"] manifestKeys.reverse := by
  have start : ({} : Toml.Draft).Shows [] [] [] := ⟨rfl, rfl, rfl⟩
  obtain ⟨one, first, shows⟩ := start.table "package" rfl
  obtain ⟨two, second, shows⟩ := Toml.Draft.Shows.assign [] shows rfl rfl
    (Toml.Draft.isKept_text "name" name)
  obtain ⟨three, third, shows⟩ := Toml.Draft.Shows.assign [] shows rfl rfl
    (Toml.Draft.isKept_text "toolchain" (">=" ++ toolchain))
  obtain ⟨four, fourth, shows⟩ := shows.table "build" rfl
  obtain ⟨five, fifth, shows⟩ := shows.assign _ rfl rfl (Toml.Draft.isKept_text "target" "llvm")
  obtain ⟨six, sixth, shows⟩ := shows.assign _ rfl rfl
    (Toml.Draft.isKept_texts "sources" ["main.mini"])
  refine ⟨six, ?_, shows⟩
  rw [List.map_singleton] at sixth
  rw [manifestRead]
  simp only [List.foldlM_cons, first, second, third, fourth, fifth, sixth, Option.bind_eq_bind,
    Option.bind_some, List.foldlM_nil, Option.pure_def]

/-- The settings of a new project. -/
def newSettings (name toolchain : Bytes) : Settings where
  name := name
  toolchain := ">=" ++ toolchain
  target := "llvm"
  sources := ["main.mini"]

theorem settings?_manifestRoot (name toolchain : Bytes) (keys : List Toml.Key) :
    settings? ⟨manifestRoot name toolchain, keys⟩ = some (newSettings name toolchain) := by
  have tables : isSetting "package" "package" = true ∧ isSetting "package" "build" = false ∧
      isSetting "build" "build" = true := by
    decide +kernel
  have fields : isSetting "name" "name" = true ∧ isSetting "name" "toolchain" = false ∧
      isSetting "toolchain" "toolchain" = true ∧ isSetting "target" "target" = true ∧
      isSetting "target" "sources" = false ∧ isSetting "sources" "sources" = true := by
    decide +kernel
  simp only [settings?, manifestRoot, List.foldlM_cons, List.foldlM_nil, rootField, packageField,
    buildField, tables, fields, if_true, Bool.false_eq_true, if_false, text?, texts?,
    List.mapM_cons, List.mapM_nil, Option.map_some, Option.bind_eq_bind, Option.bind_some,
    Option.pure_def]
  rfl

/-- The settings of a new project make sense. -/
theorem validate_newSettings (name : Bytes) {toolchain : Bytes} {v : Semver.Version}
    (parsed : Semver.Version.parse toolchain = .ok v) :
    (newSettings name toolchain).validate = .ok () := by
  have target : Target.parse "llvm" = .ok .llvm := by decide
  have source : Path.ext "main.mini" = sourceExtension := by decide
  have phrase : Text.Phrase ((">=" : Bytes) ++ toolchain) := by
    apply Text.Phrase.of_solid
    · exact List.cons_ne_nil _ _
    · refine List.forall_mem_append.mpr ⟨by decide, fun b member => ?_⟩
      exact (version_ordinary (Semver.Version.parse_bytes parsed b member)).2
  obtain ⟨openness, metadata, condition⟩ := Semver.Constraint.parse_atLeast parsed
  have some_ : ("llvm" : Bytes).isEmpty = false ∧
      ((">=" : Bytes) ++ toolchain).isEmpty = false := ⟨rfl, rfl⟩
  have listed : [("main.mini" : Bytes)].find? (fun name => Path.ext name != sourceExtension) =
      none := by
    rw [List.find?_cons, source]
    simp
  simp only [Settings.validate, newSettings, Text.trim_phrase phrase, condition, some_, target,
    listed]
  rfl

theorem read?_manifestText {name toolchain : Bytes} (valid : Utf8.isValid name = true)
    (versioned : ∀ b ∈ toolchain, Semver.Spelling.isVersionByte b = true) :
    Toml.Document.read? (manifestText name toolchain) =
      if (Utf8.codes name).all isPortable then some ⟨manifestRoot name toolchain, manifestKeys⟩
      else none := by
  obtain ⟨draft, folded, root, -, order⟩ := foldlM_manifestRead name toolchain
  rw [Toml.Document.read?, lines?_manifestText valid versioned]
  split
  next =>
    simp only [Option.bind_eq_bind, Option.bind_some, folded, root, order, List.reverse_reverse]
    rfl
  next => rfl

/-- The manifest of a new project gives the settings that the project was made with, or is refused
for the way its name is written. -/
theorem parse_manifestText {name toolchain : Bytes} (valid : Utf8.isValid name = true)
    (some_ : Text.trim name ≠ []) {v : Semver.Version}
    (parsed : Semver.Version.parse toolchain = .ok v) :
    Settings.parse (manifestText name toolchain) =
      if (Utf8.codes name).all isPortable then .ok (newSettings name toolchain)
      else .error (.unreadable "syntax error") := by
  rw [Settings.parse, read?_manifestText valid (Semver.Version.parse_bytes parsed)]
  by_cases portable : (Utf8.codes name).all isPortable = true
  · have known : manifestKeys.find? (!isKnown ·) = none := by
      decide +kernel
    have package : (manifestRoot name toolchain).lookup ("package" : Bytes) =
        some (.table [("name", .value (.text name)),
          ("toolchain", .value (.text (">=" ++ toolchain)))]) := rfl
    have blank : (Text.trim (newSettings name toolchain).name).isEmpty = false := by
      simpa [newSettings] using some_
    rw [if_pos portable, if_pos portable]
    simp only [settings?_manifestRoot, known, package, blank, validate_newSettings name parsed]
    rfl
  · rw [if_neg portable, if_neg portable]
    rfl

/-- What a new project leaves in its manifest. -/
theorem scaffold_written {files after : Files} {dir name toolchain : Bytes} {created : List Bytes}
    (some_ : Text.trim name ≠ [])
    (made : scaffold files dir name toolchain = (.ok created, after)) :
    after.read (Path.join [dir, manifestName]) = .ok (manifestText name toolchain) := by
  have named : (Text.trim name).isEmpty = false := by simpa using some_
  have plain : (IsPlain manifestName ∧ 47 ∉ manifestName) ∧
      IsPlain (("main" : Bytes) ++ sourceExtension) ∧ 47 ∉ ("main" : Bytes) ++ sourceExtension ∧
        manifestName ≠ ("main" : Bytes) ++ sourceExtension := by
    decide
  rw [scaffold, named] at made
  simp only [Bool.false_eq_true, if_false] at made
  split at made
  · cases made
  next there directory =>
    have inside : dir ≠ [] := by
      rintro rfl
      cases directory
    split at made
    · cases made
    · cases made
    split at made
    · cases made
    next first =>
    split at made
    · cases made
    next second =>
      cases made
      apply Files.read_written first second
      rw [Files.target_join there inside plain.1.1 plain.1.2,
        Files.target_join there inside plain.2.1 plain.2.2.1]
      intro same
      exact plain.2.2.2 (List.singleton_inj.mp (List.append_cancel_left same))

/-- The manifest of a new project is loaded with the name and the compiler that the project was made
with exactly when every control character of the name has an escape that configuration files know.
Otherwise the file that was just written is refused. -/
theorem scaffold_loads {files after : Files} {dir name toolchain : Bytes} {created : List Bytes}
    {v : Semver.Version} (valid : Utf8.isValid name = true) (some_ : Text.trim name ≠ [])
    (parsed : Semver.Version.parse toolchain = .ok v)
    (made : scaffold files dir name toolchain = (.ok created, after)) :
    Manifest.load after (Path.join [dir, manifestName]) =
      if (Utf8.codes name).all Toml.isPortable then
        .ok {
          path := Path.join [dir, manifestName]
          root := Path.dir (Path.join [dir, manifestName])
          settings := newSettings name toolchain }
      else .error (.unreadable "syntax error") := by
  rw [Manifest.load, scaffold_written some_ made]
  simp only [parse_manifestText valid some_ parsed]
  split
  · rfl
  · rfl

/-- A name with quotes and a line feed comes back; one with a bell does not. -/
theorem quotedName_loads :
    (∃ created after manifest,
      scaffold {} "/work" "say \"hi\"\n" "0.1.0-dev" = (.ok created, after) ∧
        Manifest.load after (Path.join ["/work", manifestName]) = .ok manifest ∧
          manifest.settings.name = "say \"hi\"\n") ∧
    ∃ created after, scaffold {} "/work" "a\x07b" "0.1.0-dev" = (.ok created, after) ∧
      Manifest.load after (Path.join ["/work", manifestName]) =
        .error (.unreadable "syntax error") := by
  obtain ⟨v, parsed⟩ := exists_ok (show (Semver.Version.parse "0.1.0-dev").toOption.isSome = true by
    decide)
  obtain ⟨created, made⟩ := exists_ok
    (show (scaffold {} "/work" "say \"hi\"\n" "0.1.0-dev").1.toOption.isSome = true by
      decide +kernel)
  obtain ⟨other, again⟩ := exists_ok
    (show (scaffold {} "/work" "a\x07b" "0.1.0-dev").1.toOption.isSome = true by decide +kernel)
  constructor
  · have loaded := scaffold_loads (by decide +kernel) (by decide +kernel) parsed
      (Prod.ext made rfl : scaffold {} "/work" "say \"hi\"\n" "0.1.0-dev" = (.ok created, _))
    rw [if_pos (by decide +kernel)] at loaded
    exact ⟨_, _, _, Prod.ext made rfl, loaded, rfl⟩
  · have refused := scaffold_loads (by decide +kernel) (by decide +kernel) parsed
      (Prod.ext again rfl : scaffold {} "/work" "a\x07b" "0.1.0-dev" = (.ok other, _))
    rw [if_neg (by decide +kernel)] at refused
    exact ⟨_, _, Prod.ext again rfl, refused⟩

end Minilang.Project
