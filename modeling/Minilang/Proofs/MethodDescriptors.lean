import Mathlib.Data.List.Forall2
import Minilang.Proofs.Descriptors
import Minilang.Proofs.PlainText

/-! What method descriptors are made of, and what is read out of them. Every supported descriptor
is read with one type for each parameter, in order. Besides, a descriptor is let through whose array
has an element that is no type, or whose result has more behind it. -/

namespace Minilang

theorem Bytes.eq_of_cut? {byte : UInt8} {text before behind : Bytes}
    (cut : cut? byte text = some (before, behind)) :
    text = before ++ byte :: behind ∧ byte ∉ before := by
  have whole := List.takeWhile_append_dropWhile (p := (· != byte)) (l := text)
  have first := List.head?_dropWhile_not (· != byte) text
  rw [cut?] at cut
  split at cut
  · cases cut
  next b rest found =>
    cases cut
    rw [found] at whole first
    have same : b = byte := by simpa using first
    subst same
    refine ⟨whole.symm, fun member => ?_⟩
    simpa using List.all_eq_true.mp (List.all_takeWhile (p := (· != b)) (l := text)) b member

theorem Bytes.eq_of_before? {tail text before : Bytes} (ends : before? tail text = some before) :
    text = before ++ tail := by
  rw [before?] at ends
  split at ends
  next suffix =>
    cases ends
    obtain ⟨before, rfl⟩ := List.isSuffixOf_iff_suffix.mp suffix
    simp
  · cases ends

namespace ClassFile

def primitiveLetters : Bytes := "BCDFIJSZ"

def intLetters : Bytes := "IZBCS"

/-- A class name that ends where its descriptor does, and not earlier. -/
def IsPlainName (name : Bytes) : Prop := 59 ∉ name ∧ 41 ∉ name

instance (name : Bytes) : Decidable (IsPlainName name) :=
  inferInstanceAs (Decidable (59 ∉ name ∧ 41 ∉ name))

/-- What an array can be an array of. -/
inductive ElementText : Bytes → Prop where
  | primitive {letter : UInt8} (known : letter ∈ primitiveLetters) : ElementText [letter]
  | object {name : Bytes} (plain : IsPlainName name) : ElementText (76 :: name ++ [59])

/-- A supported field descriptor and the type it names. -/
inductive FieldText : Bytes → VType → Prop where
  | int {letter : UInt8} (known : letter ∈ intLetters) : FieldText [letter] .int
  | object {name : Bytes} (plain : IsPlainName name) :
      FieldText (76 :: name ++ [59]) (.object name)
  | array {depth : Nat} {element : Bytes} (deep : 0 < depth) (ends : ElementText element) :
      FieldText (List.replicate depth 91 ++ element) (.object (List.replicate depth 91 ++ element))

/-- A parameter that is let through although its element is no type: any byte will do. -/
inductive StrayParameter : Bytes → VType → Prop where
  | array {depth : Nat} {b : UInt8} (deep : 0 < depth) (unknown : b ∉ primitiveLetters)
      (element : b ≠ 91 ∧ b ≠ 76 ∧ b ≠ 41) :
      StrayParameter (List.replicate depth 91 ++ [b]) (.object (List.replicate depth 91 ++ [b]))

/-- A result that is let through although it is no field descriptor: only its first byte and, for a
class, its last one are looked at. -/
inductive StrayResult : Bytes → VType → Prop where
  | int {letter : UInt8} {rest : Bytes} (known : letter ∈ intLetters) (more : rest ≠ []) :
      StrayResult (letter :: rest) .int
  | object {name : Bytes} (odd : ¬ IsPlainName name) :
      StrayResult (76 :: name ++ [59]) (.object name)
  | array {rest : Bytes} (odd : ∀ type, ¬ FieldText (91 :: rest) type) :
      StrayResult (91 :: rest) (.object (91 :: rest))

/-- A method descriptor of given parameters and results, and what it says. -/
inductive SignatureText (parameter result : Bytes → VType → Prop) :
    Bytes → List VType → Option VType → Prop where
  | void {pieces : List Bytes} {params : List VType}
      (each : List.Forall₂ parameter pieces params) :
      SignatureText parameter result (40 :: pieces.flatten ++ [41, 86]) params none
  | value {pieces : List Bytes} {params : List VType} {last : Bytes} {type : VType}
      (each : List.Forall₂ parameter pieces params) (gives : result last type) :
      SignatureText parameter result (40 :: pieces.flatten ++ 41 :: last) params (some type)

theorem fieldType_int {letter : UInt8} (known : letter ∈ intLetters) (rest : Bytes) :
    fieldType (letter :: rest) = .ok .int := by
  have same : [73, 90, 66, 67, 83].contains letter = true := List.contains_iff_mem.mpr known
  rw [fieldType, if_pos same]

theorem fieldType_object (name : Bytes) :
    fieldType (76 :: name ++ [59]) = .ok (.object name) := by
  have closing : Bytes.before? ";" (name ++ [59]) = some name := Bytes.before?_append name [59]
  simp [fieldType, closing]

theorem fieldType_array (rest : Bytes) :
    fieldType (91 :: rest) = .ok (.object (91 :: rest)) := rfl

theorem fieldType_brackets {depth : Nat} (deep : 0 < depth) (element : Bytes) :
    fieldType (List.replicate depth 91 ++ element) =
      .ok (.object (List.replicate depth 91 ++ element)) := by
  obtain ⟨depth, rfl⟩ := Nat.exists_eq_succ_of_ne_zero (Nat.ne_of_gt deep)
  exact fieldType_array (List.replicate depth 91 ++ element)

theorem FieldText.fieldType {text : Bytes} {type : VType} (field : FieldText text type) :
    fieldType text = .ok type := by
  cases field with
  | int known => exact fieldType_int known []
  | object plain => exact fieldType_object _
  | array deep ends => exact fieldType_brackets deep _

theorem StrayParameter.fieldType {text : Bytes} {type : VType} (stray : StrayParameter text type) :
    fieldType text = .ok type := by
  cases stray with
  | array deep unknown element => exact fieldType_brackets deep _

theorem StrayResult.fieldType {text : Bytes} {type : VType} (stray : StrayResult text type) :
    fieldType text = .ok type := by
  cases stray with
  | int known more => exact fieldType_int known _
  | object odd => exact fieldType_object _
  | array odd => exact fieldType_array _

theorem fieldType_ok_iff {text : Bytes} {type : VType} :
    fieldType text = .ok type ↔ FieldText text type ∨ StrayResult text type := by
  refine ⟨fun named => ?_, fun either => either.elim FieldText.fieldType StrayResult.fieldType⟩
  unfold ClassFile.fieldType at named
  split at named
  · cases named
  next first rest =>
  split at named
  next known =>
    cases named
    have member : first ∈ intLetters := List.contains_iff_mem.mp known
    by_cases more : rest = []
    · subst more
      exact .inl (.int member)
    · exact .inr (.int member more)
  split at named
  next letter =>
    subst letter
    split at named
    next name closed =>
      cases named
      obtain rfl := Bytes.eq_of_before? closed
      by_cases plain : IsPlainName name
      · exact .inl (.object plain)
      · exact .inr (.object plain)
    · cases named
  split at named
  next bracket =>
    cases named
    subst bracket
    by_cases field : ∃ type, FieldText (91 :: rest) type
    · obtain ⟨type, field⟩ := field
      have same := field.fieldType
      rw [fieldType_array] at same
      cases same
      exact .inl field
    · exact .inr (.array (not_exists.mp field))
  · cases named

/-- What is cut off as the first field descriptor: brackets, then a byte or a class. -/
inductive Piece : Bytes → Prop where
  | letter {depth : Nat} {b : UInt8} (plain : b ≠ 91 ∧ b ≠ 76) :
      Piece (List.replicate depth 91 ++ [b])
  | object {depth : Nat} {name : Bytes} (absent : 59 ∉ name) :
      Piece (List.replicate depth 91 ++ (76 :: name ++ [59]))

theorem Piece.ne_nil {piece : Bytes} (cut : Piece piece) : piece ≠ [] := by
  cases cut <;> simp

private theorem length_brackets (depth : Nat) {text : Bytes}
    (stops : text.head?.any (· == 91) = false) :
    ((List.replicate depth 91 ++ text).takeWhile (· == 91)).length = depth := by
  rw [Bytes.takeWhile_stops (by simp) stops, List.length_replicate]

private theorem exists_brackets (text : Bytes) : ∃ depth behind,
    text = List.replicate depth 91 ++ behind ∧ behind.head?.any (· == 91) = false := by
  have whole := List.takeWhile_append_dropWhile (p := (· == 91)) (l := text)
  have brackets : text.takeWhile (· == 91) =
      List.replicate (text.takeWhile (· == 91)).length 91 :=
    List.eq_replicate_iff.mpr
      ⟨rfl, fun b member => by simpa using List.all_eq_true.mp List.all_takeWhile b member⟩
  refine ⟨(text.takeWhile (· == 91)).length, text.dropWhile (· == 91), ?_, ?_⟩
  · rw [← brackets, whole]
  · have stops := List.head?_dropWhile_not (· == 91) text
    cases first : (text.dropWhile (· == 91)).head? with
    | none => rfl
    | some b => simpa [first] using stops

/-- A piece is cut off, whatever follows. -/
theorem Piece.descriptorLength {piece : Bytes} (cut : Piece piece) (rest : Bytes) :
    descriptorLength (piece ++ rest) = piece.length := by
  cases cut with
  | @letter depth b plain =>
    have stops : (b :: rest).head?.any (· == 91) = false := by simpa using plain.1
    have length := length_brackets depth stops
    rw [List.append_assoc, List.singleton_append, ClassFile.descriptorLength, length,
      List.drop_left' List.length_replicate]
    simp [plain.2]
  | @object depth name absent =>
    have stops : (76 :: (name ++ 59 :: rest)).head?.any (· == 91) = false := rfl
    have length := length_brackets depth stops
    have closing : Bytes.cut? 59 (name ++ 59 :: rest) = some (name, rest) :=
      Bytes.cut?_append absent rest
    have shape : List.replicate depth 91 ++ (76 :: name ++ [59]) ++ rest =
        List.replicate depth 91 ++ 76 :: (name ++ 59 :: rest) := by simp
    rw [shape, ClassFile.descriptorLength, length, List.drop_left' List.length_replicate]
    simp [closing]
    omega

/-- What has a first field descriptor starts with a piece. -/
theorem exists_piece {text : Bytes} (found : descriptorLength text ≠ 0) :
    ∃ piece rest, text = piece ++ rest ∧ Piece piece := by
  obtain ⟨depth, behind, rfl, stops⟩ := exists_brackets text
  rw [descriptorLength, length_brackets depth stops, List.drop_left' List.length_replicate] at found
  split at found
  · exact absurd rfl found
  next rest =>
    split at found
    next name tail closing =>
      obtain ⟨rfl, absent⟩ := Bytes.eq_of_cut? closing
      exact ⟨List.replicate depth 91 ++ (76 :: name ++ [59]), tail, by simp, .object absent⟩
    · exact absurd rfl found
  next more notClass =>
    cases behind with
    | nil => exact absurd rfl more
    | cons b rest =>
      have plain : b ≠ 91 ∧ b ≠ 76 :=
        ⟨by simpa using stops, fun same => notClass rest (same ▸ rfl)⟩
      exact ⟨List.replicate depth 91 ++ [b], rest, by simp, .letter plain⟩

def IsParameter (text : Bytes) (type : VType) : Prop :=
  FieldText text type ∨ StrayParameter text type

def IsResult (text : Bytes) (type : VType) : Prop := FieldText text type ∨ StrayResult text type

theorem ElementText.closed {element : Bytes} (ends : ElementText element) : 41 ∉ element := by
  cases ends with
  | primitive known =>
    have other := ne_of_mem_of_not_mem known (by decide : 41 ∉ primitiveLetters)
    simpa using other.symm
  | object plain => simpa using plain.2

theorem ElementText.piece {element : Bytes} (ends : ElementText element) (depth : Nat) :
    Piece (List.replicate depth 91 ++ element) := by
  cases ends with
  | primitive known =>
    exact .letter
      ⟨ne_of_mem_of_not_mem known (by decide), ne_of_mem_of_not_mem known (by decide)⟩
  | object plain => exact .object plain.1

theorem IsParameter.closed {text : Bytes} {type : VType} (parameter : IsParameter text type) :
    41 ∉ text := by
  rcases parameter with field | stray
  · cases field with
    | int known =>
      have other := ne_of_mem_of_not_mem known (by decide : 41 ∉ intLetters)
      simpa using other.symm
    | object plain => simpa using plain.2
    | array deep ends => simpa using ends.closed
  · cases stray with
    | array deep unknown element => simpa [eq_comm] using element.2.2

theorem IsParameter.piece {text : Bytes} {type : VType} (parameter : IsParameter text type) :
    Piece text := by
  rcases parameter with field | stray
  · cases field with
    | @int letter known =>
      have plain : letter ≠ 91 ∧ letter ≠ 76 :=
        ⟨ne_of_mem_of_not_mem known (by decide), ne_of_mem_of_not_mem known (by decide)⟩
      exact @Piece.letter 0 letter plain
    | @object name plain => exact @Piece.object 0 name plain.1
    | array deep ends => exact ends.piece _
  · cases stray with
    | array deep unknown element => exact .letter ⟨element.1, element.2.1⟩

theorem IsParameter.fieldType {text : Bytes} {type : VType} (parameter : IsParameter text type) :
    fieldType text = .ok type :=
  parameter.elim FieldText.fieldType StrayParameter.fieldType

theorem Piece.parameter {piece : Bytes} {type : VType} (cut : Piece piece) (closed : 41 ∉ piece)
    (named : fieldType piece = .ok type) : IsParameter piece type := by
  cases cut with
  | @letter depth b plain =>
    rcases Nat.eq_zero_or_pos depth with rfl | deep
    · change ClassFile.fieldType [b] = _ at named
      by_cases known : b ∈ intLetters
      · cases (fieldType_int known []).symm.trans named
        exact .inl (.int known)
      · have unknown : ¬ [73, 90, 66, 67, 83].contains b = true :=
          fun member => known (List.contains_iff_mem.mp member)
        rw [ClassFile.fieldType, if_neg unknown, if_neg plain.2, if_neg plain.1] at named
        cases named
    · cases (fieldType_brackets deep [b]).symm.trans named
      by_cases known : b ∈ primitiveLetters
      · exact .inl (.array deep (.primitive known))
      · have inner : b ≠ 41 := fun same => closed (by simp [same])
        exact .inr (.array deep known ⟨plain.1, plain.2, inner⟩)
  | @object depth name absent =>
    have plain : IsPlainName name := ⟨absent, fun member => closed (by simp [member])⟩
    rcases Nat.eq_zero_or_pos depth with rfl | deep
    · cases (fieldType_object name).symm.trans named
      exact .inl (.object plain)
    · cases (fieldType_brackets deep (76 :: name ++ [59])).symm.trans named
      exact .inl (.array deep (.object plain))

theorem parameterTypes_piece {piece : Bytes} (cut : Piece piece) (whole rest : Bytes) (fuel : Nat)
    (done : List VType) :
    parameterTypes whole (fuel + 1) (piece ++ rest) done =
      (fieldType piece).bind fun type => parameterTypes whole fuel rest (type :: done) := by
  have length := cut.descriptorLength rest
  obtain ⟨first, behind, rfl⟩ := List.exists_cons_of_ne_nil cut.ne_nil
  rw [List.cons_append] at length ⊢
  rw [parameterTypes, length]
  · simp only [List.length_cons, ← List.cons_append, List.take_left' (List.length_cons ..),
      List.drop_left' (List.length_cons ..)]
    cases fieldType (first :: behind) <;> rfl
  · exact List.cons_ne_nil _ _

theorem parameterTypes_malformed {rest : Bytes} (malformed : descriptorLength rest = 0)
    (more : rest ≠ []) (whole : Bytes) (fuel : Nat) (done : List VType) :
    parameterTypes whole (fuel + 1) rest done = .error (.malformedMethod whole) := by
  obtain ⟨first, behind, rfl⟩ := List.exists_cons_of_ne_nil more
  rw [parameterTypes, malformed]
  · rfl
  · exact List.cons_ne_nil _ _

theorem parameterTypes_of_parameters {pieces : List Bytes} {params : List VType}
    (each : List.Forall₂ IsParameter pieces params) (whole : Bytes) {fuel : Nat}
    (enough : pieces.flatten.length ≤ fuel) (done : List VType) :
    parameterTypes whole fuel pieces.flatten done = .ok (done.reverse ++ params) := by
  induction each generalizing fuel done with
  | nil => simp [parameterTypes]
  | @cons piece type pieces params parameter _ ih =>
    have positive := List.length_pos_of_ne_nil parameter.piece.ne_nil
    rw [List.flatten_cons, List.length_append] at enough
    obtain ⟨fuel, rfl⟩ : ∃ less, fuel = less + 1 := ⟨fuel - 1, by omega⟩
    rw [List.flatten_cons, parameterTypes_piece parameter.piece, parameter.fieldType]
    change parameterTypes whole fuel pieces.flatten (type :: done) = _
    rw [ih (by omega)]
    simp

theorem parameters_of_parameterTypes {whole : Bytes} {fuel : Nat} {rest : Bytes}
    {done types : List VType} (enough : rest.length ≤ fuel) (closed : 41 ∉ rest)
    (read : parameterTypes whole fuel rest done = .ok types) :
    ∃ pieces params, rest = pieces.flatten ∧ List.Forall₂ IsParameter pieces params ∧
      types = done.reverse ++ params := by
  induction fuel generalizing rest done with
  | zero =>
    obtain rfl := List.eq_nil_of_length_eq_zero (Nat.le_zero.mp enough)
    cases read
    exact ⟨[], [], rfl, .nil, by simp⟩
  | succ fuel ih =>
    by_cases empty : rest = []
    · subst empty
      cases read
      exact ⟨[], [], rfl, .nil, by simp⟩
    · by_cases malformed : descriptorLength rest = 0
      · rw [parameterTypes_malformed malformed empty] at read
        cases read
      · -- The piece taken off is not empty, so what is left needs less fuel.
        obtain ⟨piece, behind, rfl, cut⟩ := exists_piece malformed
        have positive := List.length_pos_of_ne_nil cut.ne_nil
        rw [List.mem_append, not_or] at closed
        rw [List.length_append] at enough
        rw [parameterTypes_piece cut] at read
        obtain ⟨type, named, read⟩ := bind_eq_ok.mp read
        obtain ⟨pieces, params, rfl, each, rfl⟩ := ih (by omega) closed.2 read
        exact ⟨piece :: pieces, type :: params, rfl, .cons (cut.parameter closed.1 named) each,
          by simp⟩

theorem closed_of_parameters {pieces : List Bytes} {params : List VType}
    (each : List.Forall₂ IsParameter pieces params) : 41 ∉ pieces.flatten := by
  induction each with
  | nil => simp
  | cons parameter _ ih =>
    rw [List.flatten_cons, List.mem_append, not_or]
    exact ⟨parameter.closed, ih⟩

private theorem methodType_cut {params last : Bytes} (closed : 41 ∉ params) :
    methodType (40 :: params ++ 41 :: last) =
      (parameterTypes (40 :: params ++ 41 :: last) params.length params []).bind fun types =>
        if last = [86] then .ok (types, none)
        else (fieldType last).map fun type => (types, some type) := by
  have cut := Bytes.cut?_append closed last
  rw [List.cons_append, methodType]
  simp only [cut]
  cases parameterTypes (40 :: (params ++ 41 :: last)) params.length params [] with
  | error fault => rfl
  | ok types =>
    change (if last = [86] then _ else _) = if last = [86] then _ else _
    split
    · rfl
    · cases fieldType last <;> rfl

/-- What is read out of a method descriptor, and of which ones. -/
theorem methodType_ok_iff {text : Bytes} {params : List VType} {answer : Option VType} :
    methodType text = .ok (params, answer) ↔
      SignatureText IsParameter IsResult text params answer := by
  constructor
  · intro read
    obtain ⟨inner, last, rfl, closed⟩ : ∃ inner last,
        text = 40 :: inner ++ 41 :: last ∧ 41 ∉ inner := by
      unfold methodType at read
      split at read
      next tail =>
        split at read
        · cases read
        next inner last cut =>
          obtain ⟨rfl, closed⟩ := Bytes.eq_of_cut? cut
          exact ⟨inner, last, rfl, closed⟩
      · cases read
    rw [methodType_cut closed] at read
    obtain ⟨types, described, answered⟩ := bind_eq_ok.mp read
    obtain ⟨pieces, params, rfl, each, rfl⟩ :=
      parameters_of_parameterTypes (Nat.le_refl _) closed described
    clear read
    split at answered
    next void =>
      cases answered
      subst void
      exact .void each
    next value =>
      cases named : fieldType last with
      | error fault =>
        rw [named] at answered
        cases answered
      | ok type =>
        rw [named] at answered
        cases answered
        exact .value each (fieldType_ok_iff.mp named)
  · intro described
    cases described with
    | @void pieces params each =>
      rw [methodType_cut (closed_of_parameters each),
        parameterTypes_of_parameters each _ (Nat.le_refl _)]
      rfl
    | @value pieces params last type each gives =>
      rw [methodType_cut (closed_of_parameters each),
        parameterTypes_of_parameters each _ (Nat.le_refl _)]
      have named := fieldType_ok_iff.mpr gives
      have value : last ≠ [86] := by
        rintro rfl
        cases named
      change (if last = [86] then _ else _) = _
      rw [if_neg value, named]
      rfl

/-- A supported field descriptor is known by its first byte. -/
theorem FieldText.first {first : UInt8} {rest : Bytes} {type : VType}
    (field : FieldText (first :: rest) type) :
    (first ∈ intLetters ∧ rest = []) ∨
      (first = 76 ∧ ∃ name, rest = name ++ [59] ∧ IsPlainName name) ∨ first = 91 := by
  generalize same : first :: rest = text at field
  cases field with
  | int known =>
    cases same
    exact .inl ⟨known, rfl⟩
  | object plain =>
    cases same
    exact .inr (.inl ⟨rfl, _, rfl, plain⟩)
  | array deep ends =>
    obtain ⟨depth, rfl⟩ := Nat.exists_eq_succ_of_ne_zero (Nat.ne_of_gt deep)
    cases same
    exact .inr (.inr rfl)

theorem FieldText.last {text : Bytes} {type : VType} (field : FieldText text type) :
    ∃ front b, text = front ++ [b] ∧ b ≠ 86 := by
  cases field with
  | int known => exact ⟨[], _, rfl, ne_of_mem_of_not_mem known (by decide)⟩
  | object plain => exact ⟨_, 59, rfl, by decide⟩
  | array deep ends =>
    cases ends with
    | primitive known => exact ⟨_, _, rfl, ne_of_mem_of_not_mem known (by decide)⟩
    | @object name plain =>
      exact ⟨_ ++ (76 :: name), 59, (List.append_assoc ..).symm, by decide⟩

/-- An array of something that is no type is not supported. -/
theorem FieldText.not_strayParameter {text : Bytes} {type other : VType}
    (field : FieldText text type) : ¬ StrayParameter text other := by
  rintro @⟨depth, b, deep, unknown, -⟩
  generalize same : List.replicate depth 91 ++ [b] = text at field
  cases field with
  | int known =>
    have length := congrArg List.length same
    simp only [List.length_append, List.length_replicate, List.length_singleton] at length
    omega
  | object plain =>
    obtain ⟨depth, rfl⟩ := Nat.exists_eq_succ_of_ne_zero (Nat.ne_of_gt deep)
    cases same
  | array _ ends =>
    cases ends with
    | primitive known =>
      obtain ⟨-, last⟩ := List.append_inj' same rfl
      cases last
      exact unknown known
    | object plain =>
      rw [← List.append_assoc] at same
      obtain ⟨brackets, -⟩ := List.append_inj' same rfl
      have letter : (76 : UInt8) ∈ List.replicate depth 91 := by simp [brackets]
      exact absurd (List.eq_of_mem_replicate letter) (by decide)

theorem FieldText.not_strayResult {text : Bytes} {type other : VType}
    (field : FieldText text type) : ¬ StrayResult text other := by
  intro stray
  cases stray with
  | int known more =>
    rcases field.first with ⟨-, none⟩ | ⟨rfl, -⟩ | rfl
    · exact more none
    · exact absurd known (by decide)
    · exact absurd known (by decide)
  | object odd =>
    rcases field.first with ⟨known, -⟩ | ⟨-, name, same, plain⟩ | wrong
    · exact absurd known (by decide)
    · exact odd (List.append_cancel_right same ▸ plain)
    · cases wrong
  | array odd => exact odd _ field

/-- Where every result is supported, the descriptors without one are known by their last byte. -/
theorem SignatureText.last {parameter : Bytes → VType → Prop} {text : Bytes}
    {params : List VType} {answer : Option VType}
    (described : SignatureText parameter FieldText text params answer) :
    answer = none ↔ text.getLast? = some 86 := by
  cases described with
  | @void pieces _ each =>
    have shape : 40 :: pieces.flatten ++ [41, 86] = (40 :: pieces.flatten ++ [41]) ++ [86] := by
      simp
    rw [shape, List.getLast?_concat]
    exact iff_of_true rfl rfl
  | @value pieces _ _ _ each gives =>
    obtain ⟨front, b, rfl, other⟩ := gives.last
    have shape : 40 :: pieces.flatten ++ 41 :: (front ++ [b]) =
        (40 :: pieces.flatten ++ 41 :: front) ++ [b] := by simp
    rw [shape, List.getLast?_concat]
    simpa using other

theorem SignatureText.mono {parameter result wider larger : Bytes → VType → Prop}
    (parameters : ∀ text type, parameter text type → wider text type)
    (results : ∀ text type, result text type → larger text type) {text : Bytes}
    {params : List VType} {answer : Option VType}
    (described : SignatureText parameter result text params answer) :
    SignatureText wider larger text params answer := by
  cases described with
  | void each => exact .void (each.imp parameters)
  | value each gives => exact .value (each.imp parameters) (results _ _ gives)

/-- A method descriptor made of supported field descriptors is read, with one type for each
parameter, in order, and no result exactly when it ends in `V`. All that is read besides has a
parameter that is an array of no type, or a result of which only the first byte and, for a class,
the last one count; neither is a supported field descriptor. -/
theorem descriptors_are_read (text : Bytes) (params : List VType) (answer : Option VType) :
    (SignatureText FieldText FieldText text params answer →
      methodType text = .ok (params, answer) ∧ (answer = none ↔ text.getLast? = some 86)) ∧
    (methodType text = .ok (params, answer) ↔
      SignatureText (fun piece type => FieldText piece type ∨ StrayParameter piece type)
        (fun last type => FieldText last type ∨ StrayResult last type) text params answer) ∧
    ∀ piece type other, FieldText piece type →
      ¬ StrayParameter piece other ∧ ¬ StrayResult piece other := by
  refine ⟨fun described => ⟨methodType_ok_iff.mpr ?_, described.last⟩, methodType_ok_iff,
    fun piece type other field => ⟨field.not_strayParameter, field.not_strayResult⟩⟩
  exact described.mono (fun _ _ => .inl) (fun _ _ => .inl)

theorem three_parameters_are_read :
    SignatureText FieldText FieldText "(ILjava/io/InputStream;[I)I"
      [.int, .object "java/io/InputStream", .object "[I"] (some .int) ∧
    methodType "(ILjava/io/InputStream;[I)I" =
      .ok ([.int, .object "java/io/InputStream", .object "[I"], some .int) := by
  have first : FieldText "I" .int := .int (by decide)
  have second : FieldText "Ljava/io/InputStream;" (.object "java/io/InputStream") :=
    @FieldText.object "java/io/InputStream" (by decide)
  have third : FieldText "[I" (.object "[I") :=
    @FieldText.array 1 "I" Nat.one_pos (.primitive (by decide))
  have described := SignatureText.value (.cons first (.cons second (.cons third .nil))) first
  exact ⟨described, ((descriptors_are_read _ _ _).1 described).1⟩

-- Neither of these is a method descriptor: one goes on behind its result, the other has an array of
-- something that is no type.
example : methodType "()Ix" = .ok ([], some .int) := rfl

example : methodType "([x)V" = .ok ([.object "[x"], none) := rfl

end ClassFile

end Minilang
