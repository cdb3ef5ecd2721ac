import Mathlib.Data.List.Infix
import Minilang.Proofs.PlainText
import Minilang.Proofs.Results
import Minilang.Semver.Constraint

/-! How versions are spelt. Reading undoes writing, also where the last numbers may be left open, so
what is read as a version can stand in a condition. -/

namespace Minilang.Semver

open Spelling (isPlain identifiers behind read?)

/-- At least one byte, and all of one kind. -/
structure IsRun (test : UInt8 → Bool) (text : Bytes) : Prop where
  some_ : text ≠ []
  passes : ∀ b ∈ text, test b = true

/-- Names with dots between. -/
inductive Dotted : Bytes → Prop where
  | one {name : Bytes} (named : IsRun isPlain name) : Dotted name
  | more {name others : Bytes} (named : IsRun isPlain name) (rest : Dotted others) :
      Dotted (name ++ 46 :: others)

/-- A run of bytes at the start of a text. -/
theorem takeWhile_split (test : UInt8 → Bool) (text : Bytes) :
    text = text.takeWhile test ++ text.drop (text.takeWhile test).length :=
  List.prefix_append_drop (List.takeWhile_prefix test)

theorem takeWhile_passes (test : UInt8 → Bool) (text : Bytes) :
    ∀ b ∈ text.takeWhile test, test b = true :=
  List.all_eq_true.mp List.all_takeWhile

private theorem append_dot (name others : Bytes) :
    name ++ ("." : Bytes) ++ others = name ++ 46 :: others :=
  List.append_assoc name [46] others

/-- Names are read again, whatever cannot continue them follows. -/
theorem Dotted.identifiers {names rest : Bytes} (dotted : Dotted names) {fuel : Nat}
    (enough : names.length < fuel)
    (stops : rest.head?.any (fun b => isPlain b || b == 46) = false) :
    Spelling.identifiers fuel (names ++ rest) = some (names, rest) := by
  induction dotted generalizing fuel with
  | @one name named =>
    obtain ⟨fuel, rfl⟩ := Nat.exists_eq_succ_of_ne_zero (Nat.ne_zero_of_lt enough)
    have ends : rest.head?.any isPlain = false := by
      cases rest with
      | nil => rfl
      | cons b rest => exact (Bool.or_eq_false_iff.mp stops).1
    rw [Spelling.identifiers, Bytes.takeWhile_stops named.passes ends,
      if_neg (by simpa using named.some_), List.drop_left]
    split
    · cases stops
    · rfl
  | @more name others named _ ih =>
    obtain ⟨fuel, rfl⟩ := Nat.exists_eq_succ_of_ne_zero (Nat.ne_zero_of_lt enough)
    have fits : others.length < fuel := by
      rw [List.length_append, List.length_cons] at enough
      omega
    rw [List.append_assoc, List.cons_append, Spelling.identifiers,
      Bytes.takeWhile_stops named.passes rfl, if_neg (by simpa using named.some_), List.drop_left]
    simp only [ih fits, append_dot]

/-- What is read as names are names. -/
theorem identifiers_dotted {fuel : Nat} {text names rest : Bytes}
    (read : identifiers fuel text = some (names, rest)) : Dotted names ∧ text = names ++ rest := by
  induction fuel generalizing text names rest with
  | zero => cases read
  | succ fuel ih =>
    have whole := takeWhile_split isPlain text
    rw [identifiers] at read
    split at read
    · cases read
    next some_ =>
      have named : IsRun isPlain (text.takeWhile isPlain) :=
        ⟨by simpa using some_, takeWhile_passes isPlain text⟩
      split at read
      next behind cut =>
        rw [cut] at whole
        split at read
        next others left later =>
          cases read
          obtain ⟨dotted, rfl⟩ := ih later
          rw [append_dot]
          refine ⟨.more named dotted, whole.trans ?_⟩
          rw [List.append_assoc, List.cons_append]
        next =>
          cases read
          exact ⟨.one named, whole⟩
      next =>
        cases read
        exact ⟨.one named, whole⟩

/-- A part with its separator, when it is there. -/
def part (separator : UInt8) (found : Option Bytes) : Bytes := found.elim [] (separator :: ·)

theorem part_stops {separator : UInt8} {test : UInt8 → Bool} (other : test separator = false)
    (found : Option Bytes) {rest : Bytes} (stops : rest.head?.any test = false) :
    (part separator found ++ rest).head?.any test = false := by
  cases found with
  | none => exact stops
  | some found => exact other

/-- A part that is there is read, and none where another separator follows. -/
theorem behind_part {separator : UInt8} {reads : Bytes → Option (Bytes × Bytes)}
    {found : Option Bytes} {rest : Bytes}
    (read : ∀ text ∈ found, reads (text ++ rest) = some (text, rest))
    (stops : found = none → rest.head?.any (· == separator) = false) :
    behind separator reads (part separator found ++ rest) = (found, rest) := by
  cases found with
  | none =>
    cases rest with
    | nil => rfl
    | cons b rest =>
      have differ : ¬ b = separator := by simpa using stops rfl
      simp [part, behind, differ]
  | some text =>
    have here := read text rfl
    simp [part, behind, here]

theorem behind_found {separator : UInt8} {reads : Bytes → Option (Bytes × Bytes)}
    {text rest : Bytes} {found : Option Bytes}
    (read : behind separator reads text = (found, rest)) :
    found = none ∧ text = rest ∨ ∃ part behind, found = some part ∧ text = separator :: behind ∧
      reads behind = some (part, rest) := by
  unfold behind at read
  split at read
  · cases read
    exact .inl ⟨rfl, rfl⟩
  split at read
  next same =>
    split at read
    next here =>
      cases read
      exact .inr ⟨_, _, rfl, congrArg (· :: _) same, here⟩
    next =>
      cases read
      exact .inl ⟨rfl, rfl⟩
  next =>
    cases read
    exact .inl ⟨rfl, rfl⟩

theorem isRun_zero : IsRun Bytes.isDigit "0" := ⟨nofun, List.forall_mem_singleton.mpr rfl⟩

theorem IsRun.not_wildcard {digits : Bytes} (number : IsRun Bytes.isDigit digits) :
    Constraint.isWildcard digits = false := by
  have fails : ∀ b : UInt8, Bytes.isDigit b = false → digits ≠ [b] := by
    rintro b other rfl
    rw [number.passes b List.mem_cons_self] at other
    cases other
  have x := fails 120 rfl
  have capital := fails 88 rfl
  have star := fails 42 rfl
  simp only [Constraint.isWildcard, Bool.or_eq_false_iff, decide_eq_false_iff_not]
  exact ⟨⟨x, capital⟩, star⟩

/-- What digits may be read with: all of them, and none of the separators. -/
structure Admits (admits : UInt8 → Bool) : Prop where
  digit : ∀ b, Bytes.isDigit b = true → admits b = true
  dot : admits 46 = false
  hyphen : admits 45 = false
  plus : admits 43 = false

theorem admits_digit : Admits Bytes.isDigit := ⟨fun _ digit => digit, rfl, rfl, rfl⟩

theorem admits_openDigit : Admits Constraint.isOpenDigit where
  digit := by
    intro b digit
    rw [Constraint.isOpenDigit, digit, Bool.true_or]
  dot := rfl
  hyphen := rfl
  plus := rfl

/-- The run of bytes that a number is read from. -/
def run (admits : UInt8 → Bool) (text : Bytes) : Option (Bytes × Bytes) :=
  let digits := text.takeWhile admits
  if digits.isEmpty then none else some (digits, text.drop digits.length)

theorem IsRun.run {strong admits : UInt8 → Bool} (weaker : ∀ b, strong b = true → admits b = true)
    {digits rest : Bytes} (number : IsRun strong digits) (stops : rest.head?.any admits = false) :
    Semver.run admits (digits ++ rest) = some (digits, rest) := by
  have passes : ∀ b ∈ digits, admits b = true := fun b member => weaker b (number.passes b member)
  rw [Semver.run, Bytes.takeWhile_stops passes stops, List.drop_left,
    if_neg (by simpa using number.some_)]

theorem isRun_run {admits : UInt8 → Bool} {text digits rest : Bytes}
    (read : run admits text = some (digits, rest)) :
    IsRun admits digits ∧ text = digits ++ rest := by
  rw [run] at read
  split at read
  · cases read
  next some_ =>
    cases read
    exact ⟨⟨by simpa using some_, takeWhile_passes _ text⟩, takeWhile_split _ text⟩

namespace Spelling

/-- The version as it is written. -/
def text (s : Spelling) : Bytes :=
  s.major ++ (part 46 s.minor ++ (part 46 s.patch ++ (part 45 s.pre ++ part 43 s.metadata)))

/-- Every part is written as it should be, and none without the one before it. -/
structure WellFormed (admits : UInt8 → Bool) (s : Spelling) : Prop where
  major : IsRun admits s.major
  minor : ∀ digits ∈ s.minor, IsRun admits digits
  patch : ∀ digits ∈ s.patch, IsRun admits digits
  ordered : s.minor = none → s.patch = none
  pre : ∀ names ∈ s.pre, Dotted names
  metadata : ∀ names ∈ s.metadata, Dotted names

theorem read?_eq (admits : UInt8 → Bool) (text : Bytes) : read? admits text =
    (run admits (Bytes.withoutStart "v" text)).map fun (major, rest) =>
      let (minor, rest) := behind 46 (run admits) rest
      let (patch, rest) := if minor.isSome then behind 46 (run admits) rest else (none, rest)
      let (pre, rest) := behind 45 (identifiers (rest.length + 1)) rest
      let (metadata, rest) := behind 43 (identifiers (rest.length + 1)) rest
      ({ major, minor, patch, pre, metadata }, rest) := by
  cases found : run admits (Bytes.withoutStart "v" text) with
  | none =>
    rw [run] at found
    simp only [Spelling.read?, found, Option.map_none]
  | some first =>
    rw [run] at found
    simp only [Spelling.read?, found, Option.map_some]
    rfl

private theorem withoutStart_v (text : Bytes) : Bytes.withoutStart "v" (118 :: text) = text := by
  rw [Bytes.withoutStart, show Bytes.after? "v" (118 :: text) = some text from
    Bytes.after?_append [118] text, Option.getD_some]

namespace WellFormed

variable {s : Spelling} (whole : WellFormed Bytes.isDigit s)

include whole

/-- Only a version that leads with the letter is written with it. -/
theorem withoutStart_text (rest : Bytes) :
    Bytes.withoutStart "v" (s.text ++ rest) = s.text ++ rest := by
  obtain ⟨b, digits, same⟩ := List.exists_cons_of_ne_nil whole.major.some_
  have digit := whole.major.passes b (same ▸ List.mem_cons_self)
  have differ : b ≠ 118 := by
    rintro rfl
    cases digit
  have none_ : Bytes.after? "v" (s.text ++ rest) = none := by
    rw [text, same]
    exact if_neg (Ne.symm differ)
  rw [Bytes.withoutStart, none_, Option.getD_none]

/-- A version that is written is read again. -/
theorem read? {admits : UInt8 → Bool} (fits : Admits admits) :
    Spelling.read? admits s.text = some (s, []) := by
  have start := whole.withoutStart_text []
  rw [List.append_nil] at start
  have ends : ∀ test : UInt8 → Bool, test 43 = false →
      (part 43 s.metadata).head?.any test = false := by
    intro test plus
    have stops : (part 43 s.metadata ++ []).head?.any test = false := part_stops plus s.metadata rfl
    rwa [List.append_nil] at stops
  have last : ∀ test : UInt8 → Bool, test 45 = false → test 43 = false →
      (part 45 s.pre ++ part 43 s.metadata).head?.any test = false :=
    fun test hyphen plus => part_stops hyphen s.pre (ends test plus)
  have admitted := last admits fits.hyphen fits.plus
  have major := whole.major.run fits.digit
    (part_stops fits.dot s.minor (part_stops fits.dot s.patch admitted))
  have minor : behind 46 (run admits) (part 46 s.minor ++ (part 46 s.patch ++
      (part 45 s.pre ++ part 43 s.metadata))) =
        (s.minor, part 46 s.patch ++ (part 45 s.pre ++ part 43 s.metadata)) := by
    apply behind_part
    · exact fun digits there => (whole.minor digits there).run fits.digit
        (part_stops fits.dot s.patch admitted)
    · intro missing
      rw [whole.ordered missing]
      exact last _ rfl rfl
  have patch : behind 46 (run admits) (part 46 s.patch ++ (part 45 s.pre ++ part 43 s.metadata)) =
      (s.patch, part 45 s.pre ++ part 43 s.metadata) := by
    apply behind_part
    · exact fun digits there => (whole.patch digits there).run fits.digit admitted
    · exact fun _ => last _ rfl rfl
  have pre : behind 45 (identifiers ((part 45 s.pre ++ part 43 s.metadata).length + 1))
      (part 45 s.pre ++ part 43 s.metadata) = (s.pre, part 43 s.metadata) := by
    apply behind_part
    · intro names there
      apply (whole.pre names there).identifiers ?_ (ends _ rfl)
      rw [Option.mem_def.mp there]
      simp only [part, Option.elim_some, List.length_append, List.length_cons]
      omega
    · exact fun _ => ends _ rfl
  have metadata : behind 43 (identifiers ((part 43 s.metadata).length + 1))
      (part 43 s.metadata ++ []) = (s.metadata, []) := by
    apply behind_part
    · intro names there
      apply (whole.metadata names there).identifiers ?_ rfl
      rw [Option.mem_def.mp there]
      simp only [part, Option.elim_some, List.length_cons]
      omega
    · exact fun _ => rfl
  rw [List.append_nil] at metadata
  have patched : (if s.minor.isSome then behind 46 (run admits)
      (part 46 s.patch ++ (part 45 s.pre ++ part 43 s.metadata))
      else (none, part 46 s.patch ++ (part 45 s.pre ++ part 43 s.metadata))) =
        (s.patch, part 45 s.pre ++ part 43 s.metadata) := by
    split
    · exact patch
    next missing =>
      rw [whole.ordered (Option.not_isSome_iff_eq_none.mp missing)]
      rfl
  rw [read?_eq, start, text, major]
  simp only [Option.map_some, minor, patched, pre, metadata]

/-- A letter before the version changes nothing. -/
theorem read?_letter {admits : UInt8 → Bool} (fits : Admits admits) :
    Spelling.read? admits (118 :: s.text) = some (s, []) := by
  have start := whole.withoutStart_text []
  rw [List.append_nil] at start
  rw [← whole.read? fits, read?_eq, read?_eq, withoutStart_v, start]

end WellFormed

private theorem withoutStart_cases (text : Bytes) :
    text = Bytes.withoutStart "v" text ∨ text = 118 :: Bytes.withoutStart "v" text := by
  by_cases leads : ∃ rest, text = 118 :: rest
  · obtain ⟨rest, rfl⟩ := leads
    rw [withoutStart_v]
    exact .inr rfl
  · left
    cases text with
    | nil => rfl
    | cons b rest =>
      have differ : ¬ (118 : UInt8) = b := fun same => leads ⟨rest, same ▸ rfl⟩
      have none_ : Bytes.after? "v" (b :: rest) = none := if_neg differ
      rw [Bytes.withoutStart, none_, Option.getD_none]

private theorem found_part {separator : UInt8} {reads : Bytes → Option (Bytes × Bytes)}
    {good : Bytes → Prop} {text rest : Bytes} {found : Option Bytes}
    (each : ∀ {text names rest}, reads text = some (names, rest) →
      good names ∧ text = names ++ rest)
    (read : behind separator reads text = (found, rest)) :
    (∀ names ∈ found, good names) ∧ text = part separator found ++ rest := by
  obtain ⟨rfl, rfl⟩ | ⟨names, behind, rfl, rfl, here⟩ := behind_found read
  · exact ⟨nofun, rfl⟩
  · obtain ⟨named, rfl⟩ := each here
    exact ⟨fun _ same => Option.some.inj same ▸ named, rfl⟩

/-- What is read is well-formed, and is what was written, maybe behind a letter. -/
theorem read?_wellFormed {admits : UInt8 → Bool} {text rest : Bytes} {s : Spelling}
    (read : read? admits text = some (s, rest)) :
    WellFormed admits s ∧ (text = s.text ++ rest ∨ text = 118 :: (s.text ++ rest)) := by
  rw [read?_eq] at read
  obtain ⟨⟨major, afterMajor⟩, first, read⟩ := Option.map_eq_some_iff.mp read
  obtain ⟨majorNumber, start⟩ := isRun_run first
  rcases second : behind 46 (run admits) afterMajor with ⟨minor, afterMinor⟩
  obtain ⟨minorNumber, rfl⟩ := found_part isRun_run second
  rcases third : (if minor.isSome then behind 46 (run admits) afterMinor
    else (none, afterMinor)) with ⟨patch, afterPatch⟩
  have patchFound : ((∀ digits ∈ patch, IsRun admits digits) ∧
      afterMinor = part 46 patch ++ afterPatch) ∧ (minor = none → patch = none) := by
    split at third
    next present =>
      exact ⟨found_part isRun_run third, fun missing => by simp [missing] at present⟩
    next =>
      cases third
      exact ⟨⟨nofun, rfl⟩, fun _ => rfl⟩
  obtain ⟨⟨patchNumber, rfl⟩, ordered⟩ := patchFound
  rcases fourth : behind 45 (identifiers (afterPatch.length + 1)) afterPatch with ⟨pre, afterPre⟩
  obtain ⟨preDotted, tail⟩ := found_part identifiers_dotted fourth
  rcases fifth : behind 43 (identifiers (afterPre.length + 1)) afterPre with ⟨metadata, left⟩
  obtain ⟨metadataDotted, rfl⟩ := found_part identifiers_dotted fifth
  simp only [second, third, fourth, fifth, Prod.mk.injEq] at read
  obtain ⟨rfl, rfl⟩ := read
  refine ⟨⟨majorNumber, minorNumber, patchNumber, ordered, preDotted, metadataDotted⟩, ?_⟩
  have whole : Bytes.withoutStart "v" text =
      Spelling.text ⟨major, minor, patch, pre, metadata⟩ ++ left := by
    rw [start, tail, Spelling.text]
    simp only [List.append_assoc]
  rw [← whole]
  exact withoutStart_cases text

theorem WellFormed.parse {s : Spelling} (whole : WellFormed Bytes.isDigit s) :
    Version.parse s.text = Version.ofSpelling s := by
  rw [Version.parse, whole.read? admits_digit]

/-- The version with zeros for what is left open. Metadata goes with the last number. -/
def completed (s : Spelling) : Spelling :=
  { s with
    minor := some (s.minor.getD "0")
    patch := some (s.patch.getD "0")
    metadata := if s.patch.isSome then s.metadata else none }

theorem WellFormed.completed {s : Spelling} (whole : WellFormed Bytes.isDigit s) :
    WellFormed Bytes.isDigit s.completed where
  major := whole.major
  minor := by
    intro digits there
    obtain rfl := Option.some.inj there
    cases found : s.minor with
    | none => exact isRun_zero
    | some digits => exact whole.minor digits found
  patch := by
    intro digits there
    obtain rfl := Option.some.inj there
    cases found : s.patch with
    | none => exact isRun_zero
    | some digits => exact whole.patch digits found
  ordered := nofun
  pre := whole.pre
  metadata := by
    intro names there
    apply whole.metadata
    rw [Spelling.completed] at there
    split at there
    · exact there
    · cases there

theorem ofSpelling_completed (s : Spelling) : Version.ofSpelling s.completed =
    (Version.ofSpelling s).map fun v => { v with metadata := s.completed.metadata.getD [] } := by
  unfold Version.ofSpelling
  rw [show s.completed.minor.getD "0" = s.minor.getD "0" from rfl,
    show s.completed.patch.getD "0" = s.patch.getD "0" from rfl,
    show s.completed.pre = s.pre from rfl, show s.completed.major = s.major from rfl]
  cases Version.number s.major with
  | error fault => rfl
  | ok major =>
  cases Version.number (s.minor.getD "0") with
  | error fault => rfl
  | ok minor =>
  cases Version.number (s.patch.getD "0") with
  | error fault => rfl
  | ok patch =>
    simp only [ok_bind]
    split <;> rfl

private theorem join_three (a b c rest : Bytes) :
    Bytes.join "." [a, b, c] ++ rest = a ++ (46 :: b ++ (46 :: c ++ rest)) := by
  have joined : Bytes.join "." [a, b, c] = a ++ (46 :: b ++ (46 :: c ++ [])) := rfl
  rw [joined]
  simp

private theorem part_sign (found : Option Bytes) (sign : Bytes) {separator : UInt8}
    (same : sign = [separator]) : (found.map (sign ++ ·)).getD [] = part separator found := by
  subst same
  cases found <;> rfl

/-- A condition on a version that can be read is about that version. -/
theorem WellFormed.condition {s : Spelling} (whole : WellFormed Bytes.isDigit s) {v : Version}
    (ok : Version.ofSpelling s = .ok v) (relation : Relation) :
    ∃ openness, Constraint.condition relation s = .ok {
      relation, version := { v with metadata := s.completed.metadata.getD [] }, openness } := by
  have parsed : Version.parse s.completed.text =
      .ok { v with metadata := s.completed.metadata.getD [] } := by
    rw [whole.completed.parse, ofSpelling_completed, ok]
    rfl
  have fixed := whole.major.not_wildcard
  have pre : (s.pre.map (("-" : Bytes) ++ ·)).getD [] = part 45 s.pre := part_sign s.pre "-" rfl
  have metadata : (s.metadata.map (("+" : Bytes) ++ ·)).getD [] = part 43 s.metadata :=
    part_sign s.metadata "+" rfl
  have text : s.completed.text = s.major ++ (46 :: s.minor.getD "0" ++
      (46 :: s.patch.getD "0" ++ (part 45 s.pre ++ part 43 s.completed.metadata))) := rfl
  rw [text] at parsed
  unfold Constraint.condition
  -- How much is left open decides which numbers are zeros and whether metadata is kept.
  cases minor : s.minor with
  | none =>
    have patch := whole.ordered minor
    have tail : part 43 s.completed.metadata = [] := by simp [Spelling.completed, patch, part]
    rw [minor, patch, tail] at parsed
    refine ⟨.minor, ?_⟩
    simp only [fixed, Bool.false_eq_true, if_false, Option.map_none, Option.getD_none, if_true, pre,
      join_three, reduceCtorEq]
    rw [Option.getD_none] at parsed
    rw [parsed]
  | some digits =>
    have number := (whole.minor digits minor).not_wildcard
    cases patch : s.patch with
    | none =>
      have tail : part 43 s.completed.metadata = [] := by simp [Spelling.completed, patch, part]
      rw [minor, patch, tail, Option.getD_none, Option.getD_some] at parsed
      refine ⟨.patch, ?_⟩
      simp only [fixed, number, Bool.false_eq_true, if_false, Option.map_none, Option.map_some,
        Option.getD_none, Option.getD_some, if_true, pre, join_three, reduceCtorEq, parsed]
    | some last =>
      have closed := (whole.patch last patch).not_wildcard
      have tail : s.completed.metadata = s.metadata := by simp [Spelling.completed, patch]
      rw [minor, patch, tail, Option.getD_some, Option.getD_some] at parsed
      refine ⟨.none, ?_⟩
      simp only [fixed, number, closed, Bool.false_eq_true, if_false, Option.map_some,
        Option.getD_some, if_true, pre, metadata, join_three, tail, parsed]

/-- The bytes that versions are made of. -/
def isVersionByte (b : UInt8) : Bool := isPlain b || b == 46 || b == 43

theorem dotted_bytes {names : Bytes} (dotted : Dotted names) :
    ∀ b ∈ names, isVersionByte b = true := by
  have plain : ∀ {name : Bytes}, IsRun isPlain name → ∀ b ∈ name, isVersionByte b = true := by
    intro name named b member
    rw [isVersionByte, named.passes b member, Bool.true_or, Bool.true_or]
  induction dotted with
  | one named => exact plain named
  | more named _ ih =>
    exact List.forall_mem_append.mpr ⟨plain named, List.forall_mem_cons.mpr ⟨rfl, ih⟩⟩

theorem WellFormed.bytes {s : Spelling} (whole : WellFormed Bytes.isDigit s) :
    ∀ b ∈ s.text, isVersionByte b = true := by
  have digits : ∀ {text : Bytes}, IsRun Bytes.isDigit text →
      ∀ b ∈ text, isVersionByte b = true := by
    intro text number b member
    rw [isVersionByte, isPlain, number.passes b member]
    rfl
  have parts : ∀ {separator : UInt8} {found : Option Bytes}, isVersionByte separator = true →
      (∀ text ∈ found, ∀ b ∈ text, isVersionByte b = true) →
        ∀ b ∈ part separator found, isVersionByte b = true := by
    intro separator found sign each
    cases found with
    | none => exact nofun
    | some text => exact List.forall_mem_cons.mpr ⟨sign, each text rfl⟩
  simp only [text, List.forall_mem_append]
  exact ⟨digits whole.major, parts rfl fun _ there => digits (whole.minor _ there),
    parts rfl fun _ there => digits (whole.patch _ there),
    parts rfl fun _ there => dotted_bytes (whole.pre _ there),
    parts rfl fun _ there => dotted_bytes (whole.metadata _ there)⟩

end Spelling

/-- A version that can be read was spelt. -/
theorem Version.parse_spelling {text : Bytes} {v : Version} (parsed : parse text = .ok v) :
    ∃ s, Spelling.WellFormed Bytes.isDigit s ∧ (text = s.text ∨ text = 118 :: s.text) ∧
      ofSpelling s = .ok v := by
  rw [parse] at parsed
  split at parsed
  next s read =>
    obtain ⟨whole, written⟩ := Spelling.read?_wellFormed read
    rw [List.append_nil] at written
    exact ⟨s, whole, written, parsed⟩
  · cases parsed

theorem Version.parse_bytes {text : Bytes} {v : Version} (parsed : parse text = .ok v) :
    ∀ b ∈ text, Spelling.isVersionByte b = true := by
  obtain ⟨s, whole, rfl | rfl, -⟩ := parse_spelling parsed
  · exact whole.bytes
  · exact List.forall_mem_cons.mpr ⟨rfl, whole.bytes⟩

namespace Constraint

theorem skipSpaces_solid {text : Bytes} (solid : ∀ b ∈ text, isSpace b = false) :
    skipSpaces text = text := by
  cases text with
  | nil => rfl
  | cons b rest =>
    have first := solid b List.mem_cons_self
    rw [skipSpaces, List.dropWhile_cons_of_neg (by simp [first])]

/-- A range has white space around its hyphen. -/
theorem range?_solid {text : Bytes} (solid : ∀ b ∈ text, isSpace b = false) :
    range? text = none := by
  rw [range?, skipSpaces_solid solid]
  cases found : written? text with
  | none => rfl
  | some written =>
    obtain ⟨low, rest⟩ := written
    obtain ⟨⟨s, behind⟩, read, same⟩ := Option.map_eq_some_iff.mp found
    cases same
    have tail : ∀ b ∈ rest, isSpace b = false := by
      intro b member
      apply solid
      rcases (Spelling.read?_wellFormed read).2 with rfl | rfl
      · exact List.mem_append_right _ member
      · exact List.mem_cons_of_mem _ (List.mem_append_right _ member)
    simp only [Option.bind_eq_bind, Option.bind_some, skipSpaces_solid tail]
    cases Bytes.after? "-" rest <;> simp

theorem expandRanges_solid {text : Bytes} (solid : ∀ b ∈ text, isSpace b = false) :
    expandRanges text = text := by
  have none_ : ∀ fuel, ∀ text : Bytes, (∀ b ∈ text, isSpace b = false) → ranges fuel text = [] := by
    intro fuel
    induction fuel with
    | zero => exact fun _ _ => rfl
    | succ fuel ih =>
      intro text solid
      cases text with
      | nil => rfl
      | cons b rest =>
        unfold ranges
        rw [range?_solid solid]
        exact ih rest (List.forall_mem_cons.mp solid).2
  rw [expandRanges, none_ _ _ solid, List.foldl_nil]

theorem splitAlternatives_single {text : Bytes} (absent : 124 ∉ text) (piece : Bytes) :
    splitAlternatives text piece = [piece.reverse ++ text] := by
  induction text generalizing piece with
  | nil => simp [splitAlternatives]
  | cons b rest ih =>
    rw [List.mem_cons, not_or] at absent
    rw [splitAlternatives, ih absent.2]
    · simp
    · exact fun _ same => absurd same.symm absent.1

theorem isSpace_version {b : UInt8} (version : Spelling.isVersionByte b = true) :
    isSpace b = false ∧ b ≠ 124 := by
  revert b
  apply Bytes.forall_byte
  decide +kernel

theorem relation_atLeast (text : Bytes) : relation (">=" ++ text) = (.atLeast, text) := rfl

/-- Being at least a version that can be read is a condition, and about that version. -/
theorem parse_atLeast {text : Bytes} {v : Version} (parsed : Version.parse text = .ok v) :
    ∃ openness metadata, parse (">=" ++ text) =
      .ok ⟨[[{ relation := .atLeast, version := { v with metadata }, openness }]]⟩ := by
  have bytes := Version.parse_bytes parsed
  obtain ⟨s, whole, written, ok⟩ := Version.parse_spelling parsed
  have read : Spelling.read? isOpenDigit text = some (s, []) := by
    rcases written with rfl | rfl
    · exact whole.read? admits_openDigit
    · exact whole.read?_letter admits_openDigit
  have sign : ∀ b ∈ (">=" : Bytes), isSpace b = false ∧ b ≠ 124 := by decide
  have solid : ∀ b ∈ text, isSpace b = false ∧ b ≠ 124 :=
    fun b member => isSpace_version (bytes b member)
  have all := List.forall_mem_append.mpr ⟨sign, solid⟩
  obtain ⟨openness, condition⟩ := whole.condition ok .atLeast
  generalize s.completed.metadata.getD [] = metadata at condition
  have alternative_ : alternative (">=" ++ text) =
      .ok [{ relation := .atLeast, version := { v with metadata }, openness }] := by
    rw [alternative, spellings?, skipSpaces_solid fun b member => (all b member).1,
      relation_atLeast]
    simp only [skipSpaces_solid fun b member => (solid b member).1, read]
    simp only [skipSpaces, List.dropWhile_nil, Option.bind_eq_bind, Option.bind_some,
      Option.pure_def, List.mapM_cons, condition, List.mapM_nil]
    rfl
  refine ⟨openness, metadata, ?_⟩
  rw [parse, expandRanges_solid fun b member => (all b member).1,
    splitAlternatives_single fun member => (all 124 member).2 rfl]
  simp only [List.reverse_nil, List.nil_append, List.mapM_cons, List.mapM_nil, alternative_]
  rfl

end Constraint

end Minilang.Semver
