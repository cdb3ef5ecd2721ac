import Minilang.Proofs.PoolBudget

/-! What a constant pool represents after any requests, also after it has become full. No constant
stands there twice, every entry refers to earlier ones, and an index that was given out keeps its
meaning; a request that finds no room gets zero, and then the pool has overflowed. -/

namespace Minilang.ClassFile

/-- The indices in a constant, each with the tag of what it has to refer to. -/
def Constant.references : Constant → List (UInt16 × Nat)
  | .utf8 _ | .integer _ => []
  | .classRef text | .string text => [(text, 1)]
  | .field owner member | .method owner member | .interfaceMethod owner member =>
      [(owner, 7), (member, 12)]
  | .nameAndType name descriptor => [(name, 1), (descriptor, 1)]

namespace Pool

/-- The index of an entry with a tag. -/
def HasTag (tag : Nat) (pool : Pool) (i : UInt16) : Prop :=
  ∃ constant, pool.get i = .ok constant ∧ constant.tag = tag

/-- A pool that finds exactly its entries, whose entries refer to earlier ones, and that overflows
only when it is full. -/
structure Faithful (pool : Pool) : Prop where
  found : ∀ (constant : Constant) i, pool.lookup[constant]? = some i ↔ pool.get i = .ok constant
  small : pool.count ≤ limit
  linked : ∀ i constant, pool.get i = .ok constant → ∀ reference ∈ constant.references,
    reference.1 ≠ 0 ∧ reference.1 < i ∧ pool.HasTag reference.2 reference.1
  full : pool.overflowed = true → limit ≤ pool.count

namespace Faithful

variable {pool : Pool}

theorem sound (faithful : pool.Faithful) : pool.Sound :=
  ⟨fun constant i => (faithful.found constant i).mp, faithful.small⟩

theorem empty : Faithful {} where
  found := by simp [Pool.get]
  small := by decide
  linked := by simp [Pool.get]
  full := nofun

end Faithful

theorem get_lt {pool : Pool} {i : UInt16} {constant : Constant} (found : pool.get i = .ok constant) :
    i ≠ 0 ∧ i.toNat < pool.count := by
  obtain ⟨nonzero, there⟩ := get_eq_ok.mp found
  have inside := (List.getElem?_eq_some_iff.mp there).1
  rw [Array.length_toList] at inside
  have positive : i.toNat ≠ 0 := fun zero => nonzero (UInt16.toNat_inj.mp zero)
  refine ⟨nonzero, ?_⟩
  rw [count]
  omega

theorem Extends.hasTag {old new : Pool} (extends_ : old.Extends new) {tag : Nat} {i : UInt16}
    (tagged : old.HasTag tag i) : new.HasTag tag i := by
  obtain ⟨constant, found, same⟩ := tagged
  exact ⟨constant, extends_.get found, same⟩

/-- The entries of a pool that has grown by one. -/
theorem append_get_iff {pool : Pool} {constant other : Constant} (room : pool.count < limit)
    {i : UInt16} : (pool.append constant).get i = .ok other ↔
      pool.get i = .ok other ∨ i = pool.count.toUInt16 ∧ constant = other := by
  constructor
  · intro found
    obtain ⟨nonzero, there⟩ := get_eq_ok.mp found
    have entries : (pool.append constant).entries.toList = pool.entries.toList ++ [constant] := by
      simp [append]
    rw [entries, List.getElem?_append] at there
    split at there
    next => exact .inl (get_eq_ok.mpr ⟨nonzero, there⟩)
    next behind =>
      obtain ⟨last, same⟩ := List.getElem?_eq_some_iff.mp there
      simp only [Array.length_toList, List.length_singleton] at behind last
      have positive : i.toNat ≠ 0 := fun zero => nonzero (UInt16.toNat_inj.mp zero)
      refine .inr ⟨UInt16.toNat_inj.mp ?_, by simpa using same⟩
      rw [limit] at room
      simp only [UInt16.toNat_ofNat', Nat.toUInt16_eq]
      rw [count] at *
      omega
  · rintro (found | ⟨rfl, rfl⟩)
    · obtain ⟨nonzero, there⟩ := get_eq_ok.mp found
      refine get_eq_ok.mpr ⟨nonzero, ?_⟩
      have entries : (pool.append constant).entries.toList = pool.entries.toList ++ [constant] := by
        simp [append]
      rw [entries, List.getElem?_append_left (List.getElem?_eq_some_iff.mp there).1, there]
    · exact append_get pool constant room

theorem Faithful.append {pool : Pool} (faithful : pool.Faithful) {constant : Constant}
    (new : pool.lookup[constant]? = none) (room : pool.count < limit)
    (fits : pool.overflowed = false)
    (supplied : ∀ reference ∈ constant.references, pool.HasTag reference.2 reference.1) :
    (pool.append constant).Faithful := by
  have extends_ := append_extends pool constant new
  refine ⟨fun other i => ?_, ?_, fun i other found reference member => ?_, fun exceeded => ?_⟩
  · rw [append_lookup pool constant other new, append_get_iff room]
    split
    next same =>
      subst same
      refine ⟨fun here => .inr ⟨(Option.some.inj here).symm, rfl⟩, ?_⟩
      rintro (known | ⟨rfl, -⟩)
      · rw [(faithful.found _ i).mpr known] at new
        cases new
      · rfl
    next different =>
      rw [faithful.found]
      exact ⟨.inl, fun known => known.resolve_right fun same => different same.2⟩
  · have grown : (pool.append constant).count = pool.count + 1 := by simp [Pool.append, count]
    omega
  · rcases (append_get_iff room).mp found with known | ⟨rfl, rfl⟩
    · obtain ⟨nonzero, before, tagged⟩ := faithful.linked i other known reference member
      exact ⟨nonzero, before, extends_.hasTag tagged⟩
    · have tagged := supplied reference member
      obtain ⟨target, there, -⟩ := tagged
      obtain ⟨nonzero, inside⟩ := get_lt there
      refine ⟨nonzero, UInt16.lt_iff_toNat_lt.mpr ?_, extends_.hasTag (supplied reference member)⟩
      rw [limit] at room
      simp only [UInt16.toNat_ofNat', Nat.toUInt16_eq]
      omega
  · have still : pool.overflowed = true := exceeded
    rw [fits] at still
    cases still

/-- An index that means something in a pool, or the zero that a full pool gives. -/
def Yields (means : Pool → UInt16 → Prop) (pool : Pool) (i : UInt16) : Prop :=
  i = 0 ∧ pool.overflowed = true ∨ i ≠ 0 ∧ means pool i

/-- An operation that keeps a pool faithful and gives an index that means something, now and later,
or zero once the pool has overflowed. Doing it again later changes nothing. -/
structure Answers (given : Pool → Prop) (intern : Pool → UInt16 × Pool)
    (means : Pool → UInt16 → Prop) : Prop where
  lasts : ∀ {pool larger i}, pool.Extends larger → means pool i → means larger i
  grows : ∀ {pool}, pool.Faithful → given pool →
    (intern pool).2.Faithful ∧ pool.Extends (intern pool).2
  answer : ∀ {pool}, pool.Faithful → given pool → Yields means (intern pool).2 (intern pool).1
  overflows : ∀ {pool}, pool.Faithful → given pool → (intern pool).2.overflowed = true →
    pool.overflowed = true ∨ (intern pool).1 = 0
  again : ∀ {pool larger}, pool.Faithful → given pool → larger.Faithful →
    (intern pool).2.Extends larger → intern larger = ((intern pool).1, larger)

theorem Yields.later {means : Pool → UInt16 → Prop}
    (lasts : ∀ {pool larger i}, pool.Extends larger → means pool i → means larger i)
    {pool larger : Pool} {i : UInt16} (extends_ : pool.Extends larger) (yields : Yields means pool i) :
    Yields means larger i := by
  rcases yields with ⟨zero, exceeded⟩ | ⟨nonzero, known⟩
  · exact .inl ⟨zero, extends_.overflowed exceeded⟩
  · exact .inr ⟨nonzero, lasts extends_ known⟩

/-- A pool whose references, as far as they are not zero, have the tags that a constant needs. -/
def Supplies (constant : Constant) (pool : Pool) : Prop :=
  ∀ reference ∈ constant.references, Yields (HasTag reference.2) pool reference.1

/-- Interning a constant either finds it, adds it, or finds a full pool without it. -/
private theorem intern_supplied {pool : Pool} (faithful : pool.Faithful) {constant : Constant}
    (supplied : pool.Supplies constant) :
    (∃ i, pool.get i = .ok constant ∧ pool.intern constant = (i, pool)) ∨
    (pool.lookup[constant]? = none ∧ pool.count = limit ∧
      pool.intern constant = (0, { pool with overflowed := true })) ∨
    (pool.lookup[constant]? = none ∧ pool.count < limit ∧ (pool.append constant).Faithful ∧
      pool.intern constant = (pool.count.toUInt16, pool.append constant)) := by
  rcases intern_cases pool constant with ⟨i, found, same⟩ | ⟨new, full, same⟩ | ⟨new, room, same⟩
  · exact .inl ⟨i, (faithful.found constant i).mp found, same⟩
  · exact .inr (.inl ⟨new, Nat.le_antisymm faithful.small full, same⟩)
  · have fits : pool.overflowed = false := by
      cases exceeded : pool.overflowed with
      | false => rfl
      | true =>
        have := faithful.full exceeded
        omega
    refine .inr (.inr ⟨new, room, faithful.append new room fits fun reference member => ?_, same⟩)
    rcases supplied reference member with ⟨-, exceeded⟩ | ⟨-, tagged⟩
    · rw [fits] at exceeded
      cases exceeded
    · exact tagged

/-- A full pool has no later entries. -/
private theorem Extends.full_entries {old new : Pool} (extends_ : old.Extends new)
    (full : old.count = limit) (small : new.count ≤ limit) : new.entries = old.entries := by
  obtain ⟨more, same⟩ := extends_.entries
  have length := congrArg List.length same
  simp only [List.length_append, Array.length_toList] at length
  rw [count] at full small
  have none : more = [] := List.eq_nil_of_length_eq_zero (by omega)
  rw [none, List.append_nil] at same
  exact Array.toList_inj.mp same.symm

theorem answers_intern (constant : Constant) :
    Answers (Supplies constant) (·.intern constant) (fun pool i => pool.get i = .ok constant) where
  lasts := fun extends_ => extends_.get
  grows := by
    intro pool faithful supplied
    have grows := (interns_intern constant).grows pool faithful.sound
    refine ⟨?_, grows⟩
    rcases intern_supplied faithful supplied with ⟨i, -, same⟩ | ⟨-, full, same⟩ | ⟨-, -, kept, same⟩
    · simpa [same] using faithful
    · simp only [same]
      exact ⟨faithful.found, faithful.small, faithful.linked, fun _ => full.ge⟩
    · simpa [same] using kept
  answer := by
    intro pool faithful supplied
    rcases intern_supplied faithful supplied with ⟨i, known, same⟩ | ⟨-, -, same⟩ |
      ⟨-, room, -, same⟩ <;> simp only [same]
    · exact .inr ⟨(get_lt known).1, known⟩
    · exact .inl ⟨rfl, rfl⟩
    · have known := append_get pool constant room
      exact .inr ⟨(get_lt known).1, known⟩
  overflows := by
    intro pool faithful supplied exceeded
    rcases intern_supplied faithful supplied with ⟨i, -, same⟩ | ⟨-, -, same⟩ | ⟨-, -, -, same⟩ <;>
      rw [same] at exceeded ⊢
    · exact .inl exceeded
    · exact .inr rfl
    · exact .inl exceeded
  again := by
    intro pool larger faithful supplied whole extends_
    rcases intern_supplied faithful supplied with ⟨i, known, same⟩ | ⟨new, full, same⟩ |
      ⟨-, room, -, same⟩ <;> simp only [same] at extends_ ⊢
    · exact intern_known ((whole.found _ i).mpr (extends_.get known))
    · have entries := extends_.full_entries full whole.small
      have absent : larger.lookup[constant]? = none := by
        cases found : larger.lookup[constant]? with
        | none => rfl
        | some i =>
          have there := (whole.found _ i).mp found
          rw [Pool.get, entries, ← Pool.get.eq_1 pool i] at there
          rw [(faithful.found _ i).mpr there] at new
          cases new
      have exceeded : larger.overflowed = true := extends_.overflowed rfl
      have fullLater : limit ≤ larger.count := by
        rw [count, entries]
        exact full.ge
      simp only [intern, absent, fullLater, if_true]
      rw [← exceeded]
    · exact intern_known ((whole.found _ _).mpr (extends_.get (append_get pool constant room)))

/-- Interning one thing and then another that refers to it. -/
theorem Answers.bind {given : Pool → Prop} {first : Pool → UInt16 × Pool}
    {second : UInt16 → Pool → UInt16 × Pool} {means : Pool → UInt16 → Prop}
    {uses : UInt16 → Pool → UInt16 → Prop} (before : Answers given first means)
    (after : ∀ i, Answers (fun pool => given pool ∧ Yields means pool i) (second i) (uses i))
    (stays : ∀ {pool larger}, pool.Extends larger → given pool → given larger)
    (needs : ∀ {pool i k}, pool.Faithful → uses i pool k → i ≠ 0) :
    Answers given (fun pool => second (first pool).1 (first pool).2)
      (fun pool k => ∃ i, Yields means pool i ∧ uses i pool k) := by
  have middle : ∀ {pool}, pool.Faithful → given pool → (first pool).2.Faithful ∧
      given (first pool).2 ∧ Yields means (first pool).2 (first pool).1 := fun faithful start =>
    have ⟨kept, grown⟩ := before.grows faithful start
    ⟨kept, stays grown start, before.answer faithful start⟩
  refine ⟨?_, ?_, ?_, ?_, ?_⟩
  · rintro pool larger k extends_ ⟨i, yields, used⟩
    exact ⟨i, yields.later before.lasts extends_, (after i).lasts extends_ used⟩
  · intro pool faithful start
    obtain ⟨kept, still⟩ := middle faithful start
    obtain ⟨last, more⟩ := (after _).grows kept still
    exact ⟨last, (before.grows faithful start).2.trans more⟩
  · intro pool faithful start
    obtain ⟨kept, still⟩ := middle faithful start
    have more := ((after _).grows kept still).2
    rcases (after _).answer kept still with lost | ⟨nonzero, used⟩
    · exact .inl lost
    · exact .inr ⟨nonzero, _, still.2.later before.lasts more, used⟩
  · intro pool faithful start exceeded
    obtain ⟨kept, still⟩ := middle faithful start
    rcases (after _).overflows kept still exceeded with earlier | lost
    · refine (before.overflows faithful start earlier).imp_right fun zero => ?_
      have last := ((after _).grows kept still).1
      rcases (after _).answer kept still with ⟨lost, -⟩ | ⟨-, used⟩
      · exact lost
      · exact absurd zero (needs last used)
    · exact .inr lost
  · intro pool larger faithful start whole extends_
    obtain ⟨kept, still⟩ := middle faithful start
    have more := ((after _).grows kept still).2
    rw [before.again faithful start whole (more.trans extends_)]
    exact (after _).again kept still whole extends_

/-- What is answered may be said in other words, and less may be needed for it. -/
theorem Answers.mono {given weaker : Pool → Prop} {intern : Pool → UInt16 × Pool}
    {means others : Pool → UInt16 → Prop} (answers : Answers given intern means)
    (enough : ∀ {pool}, weaker pool → given pool)
    (lasts : ∀ {pool larger i}, pool.Extends larger → others pool i → others larger i)
    (implies_ : ∀ {pool i}, pool.Faithful → means pool i → others pool i) :
    Answers weaker intern others where
  lasts := lasts
  grows := fun faithful start => answers.grows faithful (enough start)
  answer := fun faithful start =>
    (answers.answer faithful (enough start)).imp_right fun ⟨nonzero, known⟩ =>
      ⟨nonzero, implies_ (answers.grows faithful (enough start)).1 known⟩
  overflows := fun faithful start => answers.overflows faithful (enough start)
  again := fun faithful start => answers.again faithful (enough start)

theorem Yields.known {means : Pool → UInt16 → Prop} {pool : Pool} {i : UInt16}
    (yields : Yields means pool i) (nonzero : i ≠ 0) : means pool i :=
  yields.elim (fun lost => absurd lost.1 nonzero) And.right

theorem Yields.mono {means others : Pool → UInt16 → Prop} {pool : Pool} {i : UInt16}
    (yields : Yields means pool i) (weaken : means pool i → others pool i) : Yields others pool i :=
  yields.imp_right fun ⟨nonzero, known⟩ => ⟨nonzero, weaken known⟩

/-- A constant that is interned as it is. -/
private theorem answers_bare {constant : Constant} (bare : constant.references = []) :
    Answers (fun _ => True) (·.intern constant) (fun pool i => pool.get i = .ok constant) := by
  refine (answers_intern constant).mono (fun _ reference member => ?_) (fun extends_ => extends_.get)
    fun _ known => known
  rw [bare] at member
  cases member

theorem answers_utf8 (text : Bytes) :
    Answers (fun _ => True) (·.utf8 text) (fun pool i => pool.get i = .ok (.utf8 text)) :=
  answers_bare rfl

theorem answers_integer (value : Int32) : Answers (fun _ => True) (·.integer value)
    (fun pool i => pool.get i = .ok (.integer value)) :=
  answers_bare rfl

section

variable {first second : Pool → UInt16 × Pool} {left right : Pool → UInt16 → Prop}
  (before : Answers (fun _ => True) first left) (next : Answers (fun _ => True) second right)

include before

/-- A constant that refers to one thing. -/
private theorem answers_single {make : UInt16 → Constant} {tag : Nat}
    (refers : ∀ i, (make i).references = [(i, tag)])
    (tagged : ∀ {pool i}, left pool i → pool.HasTag tag i) :
    Answers (fun _ => True) (fun pool => (first pool).2.intern (make (first pool).1))
      (fun pool k => ∃ i, pool.get k = .ok (make i) ∧ left pool i) := by
  have nonzero : ∀ {pool : Pool} {i k}, pool.Faithful → pool.get k = .ok (make i) → i ≠ 0 :=
    fun {_ i _} faithful found => (faithful.linked _ _ found (i, tag) (by simp [refers])).1
  have outer : ∀ i, Answers (fun pool => True ∧ Yields left pool i) (·.intern (make i))
      (fun pool k => pool.get k = .ok (make i)) := by
    refine fun i => (answers_intern (make i)).mono (fun given reference member => ?_)
      (fun extends_ => extends_.get) fun _ known => known
    rw [refers, List.mem_singleton] at member
    exact member ▸ given.2.mono tagged
  have whole := before.bind outer (fun _ given => given) nonzero
  refine whole.mono id ?_ ?_
  · rintro pool larger k extends_ ⟨i, found, known⟩
    exact ⟨i, extends_.get found, before.lasts extends_ known⟩
  · rintro pool k faithful ⟨i, yields, found⟩
    exact ⟨i, found, yields.known (nonzero faithful found)⟩

include next

/-- A constant that refers to two things. -/
private theorem answers_pair {make : UInt16 → UInt16 → Constant} {tag other : Nat}
    (refers : ∀ i j, (make i j).references = [(i, tag), (j, other)])
    (tagged : ∀ {pool i}, left pool i → pool.HasTag tag i)
    (taggedToo : ∀ {pool j}, right pool j → pool.HasTag other j) :
    Answers (fun _ => True)
      (fun pool => (second (first pool).2).2.intern
        (make (first pool).1 (second (first pool).2).1))
      (fun pool k => ∃ i j, pool.get k = .ok (make i j) ∧ left pool i ∧ right pool j) := by
  have nonzero : ∀ {pool : Pool} {i j k}, pool.Faithful → pool.get k = .ok (make i j) → i ≠ 0 ∧ j ≠ 0 :=
    fun {_ i j _} faithful found =>
      ⟨(faithful.linked _ _ found (i, tag) (by simp [refers])).1,
        (faithful.linked _ _ found (j, other) (by simp [refers])).1⟩
  have outer : ∀ i j, Answers (fun pool => (True ∧ Yields left pool i) ∧ Yields right pool j)
      (·.intern (make i j)) (fun pool k => pool.get k = .ok (make i j)) := by
    refine fun i j => (answers_intern (make i j)).mono (fun given reference member => ?_)
      (fun extends_ => extends_.get) fun _ known => known
    rw [refers, List.mem_cons, List.mem_singleton] at member
    rcases member with rfl | rfl
    · exact given.1.2.mono tagged
    · exact given.2.mono taggedToo
  have inner : ∀ i, Answers (fun pool => True ∧ Yields left pool i)
      (fun pool => (second pool).2.intern (make i (second pool).1))
      (fun pool k => ∃ j, Yields right pool j ∧ pool.get k = .ok (make i j)) := by
    intro i
    have start : Answers (fun pool => True ∧ Yields left pool i) second right :=
      next.mono (fun _ => trivial) next.lasts fun _ known => known
    exact start.bind (outer i)
      (fun extends_ given => ⟨trivial, given.2.later before.lasts extends_⟩)
      fun faithful found => (nonzero faithful found).2
  have whole := before.bind inner (fun _ given => given)
    fun faithful ⟨_, _, found⟩ => (nonzero faithful found).1
  refine whole.mono id ?_ ?_
  · rintro pool larger k extends_ ⟨i, j, found, known, knownToo⟩
    exact ⟨i, j, extends_.get found, before.lasts extends_ known, next.lasts extends_ knownToo⟩
  · rintro pool k faithful ⟨i, yields, j, yieldsToo, found⟩
    obtain ⟨some_, someToo⟩ := nonzero faithful found
    exact ⟨i, j, found, yields.known some_, yieldsToo.known someToo⟩

end

theorem answers_classRef (name : Bytes) :
    Answers (fun _ => True) (·.classRef name) (fun pool i => pool.NamesClass i name) := by
  simp only [classRef_eq]
  refine (answers_single (answers_utf8 name) (fun _ => rfl) fun known => ⟨_, known, rfl⟩).mono id ?_
    fun _ known => known
  rintro pool larger i extends_ ⟨j, here, there⟩
  exact ⟨j, extends_.get here, extends_.get there⟩

theorem answers_string (text : Bytes) : Answers (fun _ => True) (·.string text)
    (fun pool i => ∃ j, pool.get i = .ok (.string j) ∧ pool.get j = .ok (.utf8 text)) := by
  simp only [string_eq]
  exact answers_single (answers_utf8 text) (fun _ => rfl) fun known => ⟨_, known, rfl⟩

theorem answers_nameAndType (name descriptor : Bytes) :
    Answers (fun _ => True) (·.nameAndType name descriptor)
      (fun pool i => ∃ j k, pool.get i = .ok (.nameAndType j k) ∧ pool.get j = .ok (.utf8 name) ∧
        pool.get k = .ok (.utf8 descriptor)) := by
  simp only [nameAndType_eq]
  exact answers_pair (answers_utf8 name) (answers_utf8 descriptor) (fun _ _ => rfl)
    (fun known => ⟨_, known, rfl⟩) fun known => ⟨_, known, rfl⟩

/-- A constant made of a class and a member's name leads to that member. -/
private theorem answers_memberRef (make : UInt16 → UInt16 → Constant) (tag : Nat)
    (refers : ∀ i j, (make i j).references = [(i, 7), (j, 12)]) (tagged : ∀ i j, (make i j).tag = tag)
    (member : ∀ i j, make i j ∈ [.field i j, .method i j, .interfaceMethod i j]) (ref : MemberRef) :
    Answers (fun _ => True) (memberRef make ref)
      (fun pool i => pool.HasTag tag i ∧ pool.member i = .ok ref) := by
  have both := answers_pair (answers_classRef ref.owner)
    (answers_nameAndType ref.name ref.descriptor) refers
    (fun ⟨_, here, _⟩ => ⟨_, here, rfl⟩) fun ⟨_, _, here, _⟩ => ⟨_, here, rfl⟩
  refine both.mono id (fun extends_ known => ⟨extends_.hasTag known.1, extends_.member known.2⟩) ?_
  rintro pool k - ⟨i, j, here, owner, name, descriptor, there, first, second⟩
  exact ⟨⟨_, here, tagged i j⟩, member_eq_ok.mpr
    ⟨_, i, j, name, descriptor, here, member i j, owner, there, first, second⟩⟩

theorem answers_field (ref : MemberRef) : Answers (fun _ => True) (·.field ref)
    (fun pool i => pool.HasTag 9 i ∧ pool.member i = .ok ref) := by
  simp only [field_eq]
  exact answers_memberRef .field 9 (fun _ _ => rfl) (fun _ _ => rfl) (by simp) ref

theorem answers_method (ref : MemberRef) : Answers (fun _ => True) (·.method ref)
    (fun pool i => pool.HasTag 10 i ∧ pool.member i = .ok ref) := by
  simp only [method_eq]
  exact answers_memberRef .method 10 (fun _ _ => rfl) (fun _ _ => rfl) (by simp) ref

end Pool

namespace Request

/-- What an index means when it is the answer to a request. -/
def Denotes (pool : Pool) (i : UInt16) : Request → Prop
  | .text value => pool.text i = .ok value
  | .number value => pool.get i = .ok (.integer value)
  | .className name => pool.className i = .ok name
  | .string value => ∃ j, pool.get i = .ok (.string j) ∧ pool.text j = .ok value
  | .nameAndType name descriptor => ∃ j k, pool.get i = .ok (.nameAndType j k) ∧
      pool.text j = .ok name ∧ pool.text k = .ok descriptor
  | .field ref => pool.HasTag 9 i ∧ pool.member i = .ok ref
  | .method ref => pool.HasTag 10 i ∧ pool.member i = .ok ref

theorem answers (request : Request) :
    Pool.Answers (fun _ => True) (fun pool => request.run pool) (fun pool i => request.Denotes pool i) := by
  cases request with
  | text value => simpa only [run, Denotes, Pool.text_eq_ok] using Pool.answers_utf8 value
  | number value => exact Pool.answers_integer value
  | className name => simpa only [run, Denotes, Pool.className_eq_ok] using Pool.answers_classRef name
  | string value => simpa only [run, Denotes, Pool.text_eq_ok] using Pool.answers_string value
  | nameAndType name descriptor =>
    simpa only [run, Denotes, Pool.text_eq_ok] using Pool.answers_nameAndType name descriptor
  | field ref => exact Pool.answers_field ref
  | method ref => exact Pool.answers_method ref

/-- An index with a meaning is that of an entry. -/
theorem Denotes.get {request : Request} {pool : Pool} {i : UInt16} (means : request.Denotes pool i) :
    ∃ constant, pool.get i = .ok constant := by
  cases request with
  | text value => exact ⟨_, Pool.text_eq_ok.mp means⟩
  | number value => exact ⟨_, means⟩
  | className name =>
    obtain ⟨j, here, -⟩ := Pool.className_eq_ok.mp means
    exact ⟨_, here⟩
  | string value =>
    obtain ⟨j, here, -⟩ := means
    exact ⟨_, here⟩
  | nameAndType name descriptor =>
    obtain ⟨j, k, here, -⟩ := means
    exact ⟨_, here⟩
  | field ref | method ref =>
    obtain ⟨⟨constant, here, -⟩, -⟩ := means
    exact ⟨_, here⟩

end Request

namespace Pool

/-- A pool after requests. -/
def asked (pool : Pool) (requests : List Request) : Pool :=
  requests.foldl (fun pool request => (request.run pool).2) pool

@[simp] theorem asked_nil (pool : Pool) : pool.asked [] = pool := rfl

@[simp] theorem asked_cons (pool : Pool) (request : Request) (rest : List Request) :
    pool.asked (request :: rest) = (request.run pool).2.asked rest := rfl

@[simp] theorem asked_append (pool : Pool) (first rest : List Request) :
    pool.asked (first ++ rest) = (pool.asked first).asked rest := List.foldl_append

namespace Faithful

variable {pool : Pool} (faithful : pool.Faithful)

include faithful

theorem run (request : Request) :
    (request.run pool).2.Faithful ∧ pool.Extends (request.run pool).2 :=
  request.answers.grows faithful trivial

theorem asked (requests : List Request) :
    (pool.asked requests).Faithful ∧ pool.Extends (pool.asked requests) := by
  induction requests generalizing pool with
  | nil => exact ⟨faithful, .refl pool⟩
  | cons request rest ih =>
    obtain ⟨kept, grown⟩ := faithful.run request
    obtain ⟨last, more⟩ := ih kept
    exact ⟨last, grown.trans more⟩

/-- A pool overflows when a request gets zero, and then only. -/
theorem overflowed_run (request : Request) : (request.run pool).2.overflowed = true ↔
    pool.overflowed = true ∨ (request.run pool).1 = 0 := by
  refine ⟨request.answers.overflows faithful trivial, ?_⟩
  rintro (earlier | zero)
  · exact (faithful.run request).2.overflowed earlier
  · exact (request.answers.answer faithful trivial).elim And.right fun known => absurd zero known.1

theorem overflowed_asked (requests : List Request) : (pool.asked requests).overflowed = true ↔
    pool.overflowed = true ∨ ∃ first request rest, requests = first ++ request :: rest ∧
      (request.run (pool.asked first)).1 = 0 := by
  induction requests generalizing pool with
  | nil => simp
  | cons request rest ih =>
    rw [asked_cons, ih (faithful.run request).1, faithful.overflowed_run, or_assoc]
    refine or_congr_right ⟨?_, ?_⟩
    · rintro (zero | ⟨first, other, last, rfl, zero⟩)
      · exact ⟨[], request, rest, rfl, zero⟩
      · exact ⟨request :: first, other, last, rfl, zero⟩
    · rintro ⟨_ | ⟨head, first⟩, other, last, same, zero⟩
      · cases same
        exact .inl zero
      · cases same
        exact .inr ⟨first, other, last, rfl, zero⟩

/-- Two indices of one constant are equal. -/
theorem entries_nodup : pool.entries.toList.Nodup := by
  have small := faithful.small
  rw [count, limit] at small
  have found : ∀ (n : Nat) (h : n < pool.entries.toList.length),
      pool.get (n + 1).toUInt16 = .ok pool.entries.toList[n] ∧ (n + 1).toUInt16.toNat = n + 1 := by
    intro n h
    have short : n < pool.entries.size := h
    have same : (n + 1).toUInt16.toNat = n + 1 := by
      simp only [UInt16.toNat_ofNat', Nat.toUInt16_eq]
      omega
    refine ⟨get_eq_ok.mpr ⟨fun zero => ?_, ?_⟩, same⟩
    · rw [zero] at same
      cases same
    · rw [same, Nat.add_sub_cancel]
      exact List.getElem?_eq_getElem h
  refine List.nodup_iff_injective_get.mpr fun a b same => Fin.ext ?_
  obtain ⟨first, atFirst⟩ := found a a.isLt
  obtain ⟨second, atSecond⟩ := found b b.isLt
  rw [List.get_eq_getElem, List.get_eq_getElem] at same
  rw [same] at first
  have one := Option.some.inj (((faithful.found _ _).mpr first).symm.trans
    ((faithful.found _ _).mpr second))
  rw [one] at atFirst
  omega

end Faithful

/-- What holds after any requests to a new pool: no entry stands there twice, the look-up finds
exactly the entries, and each refers to earlier entries with the tags that it needs. The answer to a
request, unless it is zero, means what was asked for from then on and stays the index of the same
constant. The pool has overflowed when an answer was zero, and then only. -/
theorem asked_represents (requests : List Request) :
    let pool := asked {} requests
    pool.entries.toList.Nodup ∧
    (∀ (constant : Constant) i, pool.lookup[constant]? = some i ↔ pool.get i = .ok constant) ∧
    pool.count ≤ 65535 ∧
    (∀ i constant, pool.get i = .ok constant → ∀ reference ∈ constant.references,
      reference.1 ≠ 0 ∧ reference.1 < i ∧ pool.HasTag reference.2 reference.1) ∧
    (∀ first request rest, requests = first ++ request :: rest →
      let (i, after) := request.run (asked {} first)
      i ≠ 0 → request.Denotes after i ∧ request.Denotes pool i ∧
        ∃ constant, after.get i = .ok constant ∧ pool.get i = .ok constant) ∧
    (pool.overflowed = true ↔ ∃ first request rest, requests = first ++ request :: rest ∧
      (request.run (asked {} first)).1 = 0) := by
  intro pool
  have faithful : pool.Faithful := (Faithful.empty.asked requests).1
  refine ⟨faithful.entries_nodup, faithful.found, faithful.small, faithful.linked, ?_, ?_⟩
  · rintro first request rest same nonzero
    have before := (Faithful.empty.asked first).1
    have after := before.run request
    have later : (request.run (asked {} first)).2.Extends pool := by
      have more := (after.1.asked rest).2
      rwa [← asked_cons, ← asked_append, ← same] at more
    have means := (request.answers.answer before trivial).known nonzero
    obtain ⟨constant, there⟩ := means.get
    exact ⟨means, request.answers.lasts later means, constant, there, later.get there⟩
  · simpa using Faithful.empty.overflowed_asked requests

end Pool

end Minilang.ClassFile
