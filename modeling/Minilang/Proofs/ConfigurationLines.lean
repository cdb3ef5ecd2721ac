import Minilang.Proofs.EscapedText
import Minilang.Toml.Document

/-! Reading configuration files of plain lines: headers of tables, and assignments of texts and of
lists of texts. Each line is read whatever follows it, and a document of such lines has the tables
and fields that they give. -/

namespace Minilang.Toml

/-- A byte that a line can begin with. -/
def isStart (b : UInt8) : Bool := !isBlank b && !isLineEnd b && b != 35

theorem skipBlanks_cons {b : UInt8} (visible : isBlank b = false) (rest : Bytes) :
    skipBlanks (b :: rest) = b :: rest := by
  rw [skipBlanks, List.dropWhile_cons_of_neg (by simp [visible])]

theorem skipAll_start {gap : Bytes} (empty : ∀ b ∈ gap, (isBlank b || isLineEnd b) = true)
    {b : UInt8} (start : isStart b = true) (rest : Bytes) :
    skipAll (gap ++ b :: rest) = b :: rest := by
  simp only [isStart, Bool.and_eq_true, Bool.not_eq_true', bne_iff_ne] at start
  rw [skipAll, skipLines, List.dropWhile_append_of_pos empty,
    List.dropWhile_cons_of_neg (by simp [start.1])]
  split
  next same => exact absurd (List.cons.inj same).1 start.2
  next => rfl

theorem skipAll_cons {b : UInt8} (start : isStart b = true) (rest : Bytes) :
    skipAll (b :: rest) = b :: rest :=
  skipAll_start (List.forall_mem_nil _) start rest

theorem isStart_bare {b : UInt8} (bare : isBareKey b = true) : isStart b = true := by
  simp only [isStart, isBlank, isLineEnd, Bool.and_eq_true, Bool.not_eq_true', Bool.or_eq_false_iff,
    beq_eq_false_iff_ne, bne_iff_ne]
  refine ⟨⟨⟨?_, ?_⟩, ?_, ?_⟩, ?_⟩
  all_goals
    rintro rfl
    cases bare

/-- A name that is written without quotes. -/
structure IsBare (name : Bytes) : Prop where
  some_ : name ≠ []
  bare : ∀ b ∈ name, isBareKey b = true

section

variable {name : Bytes} (named : IsBare name)

include named

theorem IsBare.head? (rest : Bytes) : (name ++ rest).head? ≠ some 91 := by
  obtain ⟨b, tail, rfl⟩ := List.exists_cons_of_ne_nil named.some_
  rintro ⟨⟩
  cases named.bare 91 List.mem_cons_self

variable {stop : UInt8} (ends : isBareKey stop = false)

include ends

theorem IsBare.keyPart? (rest : Bytes) :
    Toml.keyPart? (name ++ stop :: rest) = some (name, stop :: rest) := by
  have taken : (name ++ stop :: rest).takeWhile isBareKey = name :=
    Bytes.takeWhile_stops named.bare ends
  have plain : ∀ b tail, name ++ stop :: rest = b :: tail → isBareKey b = true := by
    intro b tail same
    obtain ⟨c, more, rfl⟩ := List.exists_cons_of_ne_nil named.some_
    rw [List.cons_append, List.cons.injEq] at same
    exact same.1 ▸ named.bare c List.mem_cons_self
  unfold Toml.keyPart?
  split
  next same => cases plain _ _ same
  next same => cases plain _ _ same
  next => rw [taken, if_neg (by simpa using named.some_), List.drop_left]

theorem IsBare.key? (rest : Bytes) (single : (skipBlanks (stop :: rest)).head? ≠ some 46) :
    Toml.key? (name ++ stop :: rest) = some ([name], skipBlanks (stop :: rest)) := by
  have begins : skipBlanks (name ++ stop :: rest) = name ++ stop :: rest := by
    obtain ⟨b, tail, rfl⟩ := List.exists_cons_of_ne_nil named.some_
    have start := isStart_bare (named.bare b List.mem_cons_self)
    simp only [isStart, Bool.and_eq_true, Bool.not_eq_true'] at start
    exact skipBlanks_cons start.1.1 (tail ++ stop :: rest)
  rw [Toml.key?, keyLoop, begins, named.keyPart? ends]
  simp only [Option.bind_eq_bind, Option.bind_some]
  split
  next same => exact absurd (same ▸ rfl) single
  next => rfl

end

theorem value?_blank (fuel : Nat) (text : Bytes) :
    value? (fuel + 1) (32 :: text) = value? (fuel + 1) text := by
  rw [value?, value?]
  rfl

theorem value?_text {raw : Bytes} {content : Option Bytes} (spells : Spells raw content)
    {rest : Bytes} (ends : rest.head? ≠ some 34) (fuel : Nat) :
    value? (fuel + 1) (34 :: (raw ++ 34 :: rest)) =
      content.map fun content => (.text content, rest) := by
  rw [value?, skipBlanks_cons rfl]
  simp only [spells.text? ends]
  cases content <;> rfl

/-- A list of one text. -/
theorem value?_list {raw : Bytes} {content : Option Bytes} (spells : Spells raw content)
    (rest : Bytes) (fuel : Nat) :
    value? (fuel + 3) (91 :: 34 :: (raw ++ 34 :: 93 :: rest)) =
      content.map fun content => (.array [.text content], rest) := by
  have begins := skipAll_cons (b := 34) rfl (raw ++ 34 :: 93 :: rest)
  have ends := skipAll_cons (b := 93) rfl rest
  have items : items? (fuel + 2) (34 :: (raw ++ 34 :: 93 :: rest)) [] =
      content.map fun content => ([.text content], rest) := by
    rw [items?, value?_text spells (by simp)]
    · cases content with
      | none => rfl
      | some content =>
        simp only [Option.map_some, Option.bind_eq_bind, Option.bind_some, ends]
        rfl
    · exact nofun
  rw [value?, skipBlanks_cons rfl]
  simp only [begins, items]
  cases content <;> rfl

theorem line?_table {name : Bytes} (named : IsBare name) (rest : Bytes) :
    line? (91 :: (name ++ 93 :: rest)) = some (.table [name], rest) := by
  have key : key? (name ++ 93 :: rest) = some ([name], 93 :: rest) := named.key? rfl rest nofun
  rw [line?]
  · rw [key]
    rfl
  · intro behind same
    exact named.head? (93 :: rest) (congrArg List.head? same)

theorem line?_assign {name : Bytes} (named : IsBare name) (rest : Bytes) :
    line? (name ++ 32 :: 61 :: rest) = (value? (2 * rest.length + 2) rest).map
      fun read => (.assign [name] read.1, read.2) := by
  have key : key? (name ++ 32 :: 61 :: rest) = some ([name], 61 :: rest) :=
    named.key? rfl (61 :: rest) nofun
  have equals : Bytes.after? "=" (61 :: rest) = some rest := Bytes.after?_append [61] rest
  have other := named.head? (32 :: 61 :: rest)
  rw [line?]
  · rw [key]
    simp only [Option.bind_eq_bind, Option.bind_some, equals]
    cases value? (2 * rest.length + 2) rest <;> rfl
  · intro behind same
    exact other (congrArg List.head? same)
  · intro behind same
    exact other (congrArg List.head? same)

/-- The bytes of a line, with the empty ones before it, and what they are read as. -/
inductive Reads : Bytes → Option Line → Prop where
  | line {gap : Bytes} {b : UInt8} {tail : Bytes} {line : Option Line}
      (empty : ∀ b ∈ gap, (isBlank b || isLineEnd b) = true) (start : isStart b = true)
      (read : ∀ rest, line? (b :: (tail ++ 10 :: rest)) = line.map fun line => (line, 10 :: rest)) :
      Reads (gap ++ b :: tail) line

namespace Reads

/-- A line with nothing before it. -/
theorem alone {b : UInt8} {tail : Bytes} {line : Option Line} (start : isStart b = true)
    (read : ∀ rest, line? (b :: (tail ++ 10 :: rest)) = line.map fun line => (line, 10 :: rest)) :
    Reads (b :: tail) line :=
  .line (List.forall_mem_nil _) start read

theorem behind {text : Bytes} {line : Option Line} (reads : Reads text line) :
    Reads (10 :: text) line := by
  obtain ⟨empty, start, read⟩ := reads
  rw [← List.cons_append]
  exact .line (List.forall_mem_cons.mpr ⟨rfl, empty⟩) start read

theorem table {name : Bytes} (named : IsBare name) :
    Reads (91 :: (name ++ [93])) (some (.table [name])) := by
  apply alone rfl
  intro rest
  rw [List.append_assoc, List.singleton_append, line?_table named]
  rfl

theorem assign {name : Bytes} (named : IsBare name) (written : Bytes) (value : Option Value)
    (read : ∀ fuel rest, value? (fuel + 3) (written ++ 10 :: rest) =
      value.map fun value => (value, 10 :: rest)) :
    Reads (name ++ 32 :: 61 :: 32 :: written) (value.map fun value => .assign [name] value) := by
  have whole : ∀ rest, line? (name ++ 32 :: 61 :: 32 :: written ++ 10 :: rest) =
      (value.map fun value => .assign [name] value).map fun line => (line, 10 :: rest) := by
    intro rest
    obtain ⟨fuel, enough⟩ :
        ∃ fuel, 2 * (32 :: (written ++ 10 :: rest)).length + 2 = fuel + 3 :=
      ⟨2 * (written ++ 10 :: rest).length + 1, rfl⟩
    rw [List.append_assoc, List.cons_append, List.cons_append, List.cons_append,
      line?_assign named, enough, value?_blank, read]
    cases value <;> rfl
  obtain ⟨b, tail, rfl⟩ := List.exists_cons_of_ne_nil named.some_
  exact alone (isStart_bare (named.bare b List.mem_cons_self)) whole

theorem text {name raw : Bytes} {content : Option Bytes} (named : IsBare name)
    (spells : Spells raw content) :
    Reads (name ++ 32 :: 61 :: 32 :: 34 :: (raw ++ [34]))
      (content.map fun content => .assign [name] (.text content)) := by
  have reads := assign named (34 :: (raw ++ [34])) (content.map .text) ?_
  · rwa [Option.map_map] at reads
  · intro fuel rest
    rw [List.cons_append, List.append_assoc, List.singleton_append, value?_text spells (by simp),
      Option.map_map]
    rfl

theorem list {name raw : Bytes} {content : Option Bytes} (named : IsBare name)
    (spells : Spells raw content) :
    Reads (name ++ 32 :: 61 :: 32 :: 91 :: 34 :: (raw ++ [34, 93]))
      (content.map fun content => .assign [name] (.array [.text content])) := by
  have reads := assign named (91 :: 34 :: (raw ++ [34, 93]))
    (content.map fun content => .array [.text content]) ?_
  · rwa [Option.map_map] at reads
  · intro fuel rest
    rw [List.cons_append, List.cons_append, List.append_assoc, List.cons_append,
      List.singleton_append, value?_list spells, Option.map_map]
    rfl

/-- A line that is read is the next of the file. -/
theorem step {text : Bytes} {line : Line} (reads : Reads text (some line)) (fuel : Nat)
    (rest : Bytes) (done : List Line) :
    linesLoop (fuel + 1) (text ++ 10 :: rest) done = linesLoop fuel rest (line :: done) := by
  obtain ⟨empty, start, read⟩ := reads
  rw [linesLoop, List.append_assoc, List.cons_append, skipAll_start empty start]
  simp only [read, Option.map_some, Option.bind_eq_bind, Option.bind_some]
  rw [lineEnd?, skipBlanks_cons rfl]
  rfl

/-- A line that is not read ends the file. -/
theorem refused {text : Bytes} (reads : Reads text none) (fuel : Nat) (rest : Bytes)
    (done : List Line) : linesLoop (fuel + 1) (text ++ 10 :: rest) done = none := by
  obtain ⟨empty, start, read⟩ := reads
  rw [linesLoop, List.append_assoc, List.cons_append, skipAll_start empty start]
  simp only [read, Option.map_none, Option.bind_eq_bind, Option.bind_none]

end Reads

/-- Lines that are read one after another. -/
theorem linesLoop_reads {written : List (Bytes × Line)}
    (each : ∀ item ∈ written, Reads item.1 (some item.2)) (fuel : Nat) (rest : Bytes)
    (done : List Line) :
    linesLoop (fuel + written.length) (written.flatMap (·.1 ++ [10]) ++ rest) done =
      linesLoop fuel rest ((written.map Prod.snd).reverse ++ done) := by
  induction written generalizing done with
  | nil => rfl
  | cons item written ih =>
    obtain ⟨here, later⟩ := List.forall_mem_cons.mp each
    rw [List.flatMap_cons, List.append_assoc, List.append_assoc, List.singleton_append,
      List.length_cons, ← Nat.add_assoc, here.step, ih later]
    simp

/-- Visible bytes and line feeds make a clean file. -/
theorem isClean_visible {text : Bytes}
    (visible : ∀ b ∈ text, b = 10 ∨ 32 ≤ b.toNat ∧ b.toNat ≠ 127) : isClean text = true := by
  induction text with
  | nil => rfl
  | cons b rest ih =>
    obtain ⟨here, later⟩ := List.forall_mem_cons.mp visible
    have clean : (b == 9 || b == 10 || (32 ≤ b && b != 127)) = true := by
      rcases here with rfl | ⟨low, other⟩
      · rfl
      · have low_ : 32 ≤ b := UInt8.le_iff_toNat_le.mpr low
        have other_ : b ≠ 127 := fun same => other (congrArg UInt8.toNat same)
        simp [low_, other_]
    rw [isClean, clean, ih later]
    · rfl
    · intro tail same
      subst same
      rcases here with other | ⟨low, -⟩
      · cases other
      · exact absurd low (by decide)

section

variable {name : Bytes}

theorem put_append {above : Fields} (absent : above.lookup name = none) (node : Node)
    (fields : Fields) : put name node (above ++ fields) = above ++ put name node fields := by
  induction above with
  | nil => rfl
  | cons field above ih =>
    rw [List.lookup_cons] at absent
    split at absent
    · cases absent
    next differ =>
      have other : ¬ field.1 = name := fun same => by simp [same] at differ
      rw [List.cons_append, put, if_neg other, ih absent, List.cons_append]

theorem put_self (old new : Node) (fields : Fields) :
    put name new ((name, old) :: fields) = (name, new) :: fields := by
  rw [put, if_pos rfl]

theorem lookup_append {above : Fields} (absent : above.lookup name = none) (fields : Fields) :
    (above ++ fields).lookup name = fields.lookup name := by
  rw [List.lookup_append, absent, Option.none_or]

theorem lookup_self (node : Node) (fields : Fields) :
    List.lookup name ((name, node) :: fields) = some node := by
  rw [List.lookup_cons, beq_self_eq_true]

end

namespace Draft

/-- What a draft holds, its present table and the keys it was given, latest first. -/
structure Shows (draft : Draft) (root : Fields) (context : Key) (keys : List Key) : Prop where
  root : draft.root = root
  context : draft.context = context
  order : draft.order = keys

/-- A name that the present table does not have is added to it. -/
theorem assign?_fresh {draft : Draft} {fields root : Fields} {name : Bytes} {node : Node}
    (here : fields? draft.context draft.root = some fields) (fresh : fields.lookup name = none)
    (changed : change (fun fields => some (put name node fields)) draft.context draft.root =
      some root) : draft.assign? name node = some { draft with root } := by
  rw [assign?, here]
  simp only [Option.bind_eq_bind, Option.bind_some, fresh, changed]
  rfl

/-- A header opens a table that is new. -/
theorem Shows.table {draft : Draft} {root : Fields} {context : Key} {keys : List Key}
    (shows : draft.Shows root context keys) (name : Bytes) (fresh : root.lookup name = none) :
    ∃ next, draft.line? (.table [name]) = some next ∧
      next.Shows (root ++ [(name, .table [])]) [name] ([name] :: keys) := by
  obtain ⟨rfl, -, rfl⟩ := shows
  have written := put_append fresh (.table []) []
  rw [List.append_nil] at written
  have opened : assign? { draft with context := [] } name (.table []) =
      some { draft with context := [], root := draft.root ++ [(name, .table [])] } :=
    assign?_fresh rfl fresh (congrArg some written)
  have entered : draft.enter? [name] false =
      some { draft with context := [name], root := draft.root ++ [(name, .table [])] } := by
    simp only [enter?, List.getLast?_singleton, List.dropLast_singleton, parents?,
      Option.bind_eq_bind, Option.bind_some, Bool.false_eq_true, if_false, opened]
    rfl
  rw [line?, entered]
  exact ⟨_, rfl, rfl, rfl, rfl⟩

/-- A field that is new is added to the present table. -/
theorem Shows.put {draft : Draft} {above fields : Fields} {table name : Bytes} {keys : List Key}
    (shows : draft.Shows (above ++ [(table, .table fields)]) [table] keys)
    (only : above.lookup table = none) (fresh : fields.lookup name = none) (node : Node) :
    ∃ next, draft.assign? name node = some next ∧
      next.Shows (above ++ [(table, .table (fields ++ [(name, node)]))]) [table] keys := by
  obtain ⟨root, context, rfl⟩ := shows
  have written := put_append fresh node []
  rw [List.append_nil] at written
  have found : (above ++ [(table, Node.table fields)]).lookup table = some (.table fields) := by
    rw [lookup_append only, lookup_self]
  have here : fields? draft.context draft.root = some fields := by
    rw [root, context, fields?, found]
    rfl
  have changed : change (fun fields => some (Toml.put name node fields)) draft.context draft.root =
      some (above ++ [(table, .table (fields ++ [(name, node)]))]) := by
    rw [root, context, change, found]
    simp only [change, written, Option.bind_eq_bind, Option.bind_some, put_append only, put_self]
    rfl
  exact ⟨_, assign?_fresh here fresh changed, rfl, context, rfl⟩

/-- A value that stays in the document as it was written. -/
def IsKept (name : Bytes) (value : Value) : Prop :=
  ∀ {draft : Draft} {root : Fields} {context : Key} {keys : List Key},
    draft.Shows root context keys → ∃ next isArray,
      draft.evaluate? name false value = some (next, .value value, isArray) ∧
        next.Shows root context keys

theorem isKept_text (name content : Bytes) : IsKept name (.text content) := by
  intro draft root context keys shows
  exact ⟨draft, false, rfl, shows⟩

theorem evaluateItems?_texts (draft : Draft) (name : Bytes) (texts : List Bytes) :
    draft.evaluateItems? name (texts.map .text) = some draft := by
  induction texts with
  | nil => rfl
  | cons text texts ih =>
    rw [List.map_cons, evaluateItems?]
    exact ih

theorem isKept_texts (name : Bytes) (texts : List Bytes) :
    IsKept name (.array (texts.map .text)) := by
  intro draft root context keys shows
  refine ⟨draft.mark name true, true, ?_, shows.root, shows.context, shows.order⟩
  rw [evaluate?, evaluateItems?_texts]
  rfl

/-- An assignment adds a field that is new to the present table. -/
theorem Shows.assign {draft : Draft} (above : Fields) {fields : Fields} {table name : Bytes}
    {keys : List Key} (shows : draft.Shows (above ++ [(table, .table fields)]) [table] keys)
    (only : above.lookup table = none) (fresh : fields.lookup name = none) {value : Value}
    (kept : IsKept name value) :
    ∃ next, draft.line? (.assign [name] value) = some next ∧
      next.Shows (above ++ [(table, .table (fields ++ [(name, .value value)]))]) [table]
        ([table, name] :: keys) := by
  have noted : (draft.note [table, name]).Shows (above ++ [(table, .table fields)]) [table]
      ([table, name] :: keys) :=
    ⟨shows.root, shows.context, congrArg _ shows.order⟩
  obtain ⟨marked, isArray, evaluated, there⟩ := kept noted
  obtain ⟨added, assigned, after⟩ := there.put only fresh (.value value)
  refine ⟨{ added.mark name isArray with context := draft.context }, ?_, after.root, shows.context,
    after.order⟩
  rw [line?, evaluateFields?]
  simp only [List.getLast?_singleton, List.dropLast_singleton, enterImplied?, Option.bind_eq_bind,
    Option.bind_some, shows.context, List.singleton_append, evaluated, assigned]
  rfl

end Draft

end Minilang.Toml
