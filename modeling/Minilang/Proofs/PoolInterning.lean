import Minilang.ClassFile.Pool
import Minilang.Proofs.Results

/-! Interning in a constant pool. Entries keep their indices as the pool grows, so an index given
out once means the same constant in every later pool, and interning the constant again changes
nothing. -/

namespace Minilang.ClassFile.Pool

/-- What is looked up stands at the index found, and the indices fit the format. -/
structure Sound (pool : Pool) : Prop where
  found : ∀ (constant : Constant) i, pool.lookup[constant]? = some i → pool.get i = .ok constant
  small : pool.count ≤ limit

/-- A later state of a pool. -/
structure Extends (old new : Pool) : Prop where
  lookup : ∀ (constant : Constant) i, old.lookup[constant]? = some i → new.lookup[constant]? = some i
  entries : old.entries.toList <+: new.entries.toList
  overflowed : old.overflowed = true → new.overflowed = true

theorem sound_empty : Sound {} where
  found := by simp
  small := by decide

theorem Extends.refl (pool : Pool) : pool.Extends pool :=
  ⟨fun _ _ => id, List.prefix_rfl, id⟩

theorem Extends.trans {first second third : Pool} (before : first.Extends second)
    (after : second.Extends third) : first.Extends third where
  lookup := fun constant i found => after.lookup constant i (before.lookup constant i found)
  entries := before.entries.trans after.entries
  overflowed := after.overflowed ∘ before.overflowed

theorem Extends.fits {old new : Pool} (extends_ : old.Extends new) (fits : new.overflowed = false) :
    old.overflowed = false := by
  cases above : old.overflowed with
  | false => rfl
  | true => rw [extends_.overflowed above] at fits; cases fits

theorem get_eq_ok {pool : Pool} {i : UInt16} {constant : Constant} :
    pool.get i = .ok constant ↔ i ≠ 0 ∧ pool.entries.toList[i.toNat - 1]? = some constant := by
  rw [get, Array.getElem?_toList]
  by_cases zero : i = 0
  · simp [zero]
  · cases pool.entries[i.toNat - 1]? <;> simp [zero]

theorem Extends.get {old new : Pool} (extends_ : old.Extends new) {i : UInt16} {constant : Constant}
    (found : old.get i = .ok constant) : new.get i = .ok constant := by
  rw [get_eq_ok] at found ⊢
  obtain ⟨nonzero, there⟩ := found
  obtain ⟨more, same⟩ := extends_.entries
  rw [← same]
  exact ⟨nonzero, by rw [List.getElem?_append_left (List.getElem?_eq_some_iff.mp there).1, there]⟩

/-- An operation that looks up or adds at most `cost` constants and gives the index of the last. -/
structure Interns (intern : Pool → UInt16 × Pool) (cost : Nat) : Prop where
  sound : ∀ pool : Pool, pool.Sound → (intern pool).2.Sound
  grows : ∀ pool : Pool, pool.Sound → pool.Extends (intern pool).2
  size : ∀ pool, (intern pool).2.entries.size ≤ pool.entries.size + cost
  fits : ∀ pool, pool.overflowed = false → pool.entries.size + cost < limit →
    (intern pool).2.overflowed = false
  /-- Doing it again later changes nothing. -/
  stable : ∀ pool larger, pool.Sound → larger.Sound → (intern pool).2.Extends larger →
    larger.overflowed = false → intern larger = ((intern pool).1, larger)

theorem append_lookup (pool : Pool) (constant other : Constant)
    (new : pool.lookup[constant]? = none) : (pool.append constant).lookup[other]? =
      if constant = other then some pool.count.toUInt16 else pool.lookup[other]? := by
  simp only [append, Std.HashMap.getElem?_insertIfNew]
  have absent : constant ∉ pool.lookup := by
    rw [Std.HashMap.mem_iff_isSome_getElem?, new]
    simp
  by_cases same : constant = other <;> simp [same, absent]
  · simp [← same, absent]

theorem append_get (pool : Pool) (constant : Constant) (room : pool.count < limit) :
    (pool.append constant).get pool.count.toUInt16 = .ok constant := by
  rw [get_eq_ok]
  have exact_ : pool.count.toUInt16.toNat = pool.count := by
    rw [limit] at room
    simp only [UInt16.toNat_ofNat', Nat.toUInt16_eq]
    omega
  refine ⟨fun zero => ?_, ?_⟩
  · rw [zero] at exact_
    simp [count] at exact_
  · rw [exact_]
    simp [append, count]

theorem append_extends (pool : Pool) (constant : Constant)
    (new : pool.lookup[constant]? = none) : pool.Extends (pool.append constant) where
  lookup := by
    intro other i found
    rw [append_lookup pool constant other new, if_neg]
    · exact found
    · rintro rfl
      rw [new] at found
      cases found
  entries := by simp [append]
  overflowed := id

private theorem append_sound {pool : Pool} (sound : pool.Sound) {constant : Constant}
    (new : pool.lookup[constant]? = none) (room : pool.count < limit) :
    (pool.append constant).Sound where
  found := by
    intro other i found
    rw [append_lookup pool constant other new] at found
    split at found
    next same =>
      cases found
      rw [← same]
      exact append_get pool constant room
    next => exact (append_extends pool constant new).get (sound.found other i found)
  small := by
    have grown : (pool.append constant).count = pool.count + 1 := by simp [append, count]
    omega

/-- The three ways in which a constant is interned. -/
theorem intern_cases (pool : Pool) (constant : Constant) :
    (∃ i, pool.lookup[constant]? = some i ∧ pool.intern constant = (i, pool)) ∨
    (pool.lookup[constant]? = none ∧ limit ≤ pool.count ∧
      pool.intern constant = (0, { pool with overflowed := true })) ∨
    (pool.lookup[constant]? = none ∧ pool.count < limit ∧
      pool.intern constant = (pool.count.toUInt16, pool.append constant)) := by
  unfold intern
  cases found : pool.lookup[constant]? with
  | some i => exact .inl ⟨i, rfl, rfl⟩
  | none =>
    by_cases full : limit ≤ pool.count
    · exact .inr (.inl ⟨rfl, full, by simp [full]⟩)
    · exact .inr (.inr ⟨rfl, by omega, by simp [full]⟩)

private theorem intern_lookup {pool : Pool} {constant : Constant}
    (fits : (pool.intern constant).2.overflowed = false) :
    (pool.intern constant).2.lookup[constant]? = some (pool.intern constant).1 := by
  rcases intern_cases pool constant with ⟨i, found, same⟩ | ⟨-, -, same⟩ | ⟨new, -, same⟩
  · rw [same]
    exact found
  · rw [same] at fits
    cases fits
  · rw [same, append_lookup pool constant constant new, if_pos rfl]

theorem intern_known {pool : Pool} {constant : Constant} {i : UInt16}
    (found : pool.lookup[constant]? = some i) : pool.intern constant = (i, pool) := by
  simp [intern, found]

theorem interns_intern (constant : Constant) : Interns (·.intern constant) 1 where
  sound := by
    intro pool sound
    rcases intern_cases pool constant with ⟨i, -, same⟩ | ⟨-, -, same⟩ | ⟨new, room, same⟩
    · simpa [same] using sound
    · simp only [same]
      exact ⟨sound.found, sound.small⟩
    · simpa [same] using append_sound sound new room
  grows := by
    intro pool _
    rcases intern_cases pool constant with ⟨i, -, same⟩ | ⟨-, -, same⟩ | ⟨new, -, same⟩
    · simpa [same] using Extends.refl pool
    · simp only [same]
      exact ⟨fun _ _ => id, List.prefix_rfl, fun _ => rfl⟩
    · simpa [same] using append_extends pool constant new
  size := by
    intro pool
    rcases intern_cases pool constant with ⟨i, -, same⟩ | ⟨-, -, same⟩ | ⟨-, -, same⟩ <;>
      simp [same, append]
  fits := by
    intro pool fits room
    rcases intern_cases pool constant with ⟨i, -, same⟩ | ⟨-, full, -⟩ | ⟨-, -, same⟩
    · simpa [same] using fits
    · simp only [count] at full
      omega
    · simpa [same, append] using fits
  stable := by
    intro pool larger _ _ extends_ fits
    exact intern_known (extends_.lookup _ _ (intern_lookup (extends_.fits fits)))

/-- Interning adds no other constant. -/
theorem mem_intern {pool : Pool} {constant other : Constant}
    (member : other ∈ (pool.intern constant).2.entries.toList) :
    other ∈ pool.entries.toList ∨ other = constant := by
  rcases intern_cases pool constant with ⟨i, -, same⟩ | ⟨-, -, same⟩ | ⟨-, -, same⟩
  · exact .inl (by simpa [same] using member)
  · exact .inl (by simpa [same] using member)
  · simpa [same, append] using member

/-- Interning one thing and then another that refers to it. -/
theorem Interns.bind {first : Pool → UInt16 × Pool} {second : UInt16 → Pool → UInt16 × Pool}
    {a b : Nat} (before : Interns first a) (after : ∀ i, Interns (second i) b) :
    Interns (fun pool => second (first pool).1 (first pool).2) (a + b) where
  sound := fun pool sound => (after _).sound _ (before.sound pool sound)
  grows := fun pool sound =>
    (before.grows pool sound).trans ((after _).grows _ (before.sound pool sound))
  size := by
    intro pool
    have grown := before.size pool
    have more := (after (first pool).1).size (first pool).2
    omega
  fits := by
    intro pool fits room
    refine (after _).fits _ (before.fits pool fits (by omega)) ?_
    have grown := before.size pool
    omega
  stable := by
    intro pool larger sound whole extends_ fits
    have middle := (after (first pool).1).grows _ (before.sound pool sound)
    rw [before.stable pool larger sound whole (middle.trans extends_) fits]
    exact (after _).stable _ larger (before.sound pool sound) whole extends_ fits

theorem interns_utf8 (text : Bytes) : Interns (·.utf8 text) 1 := interns_intern _

theorem interns_integer (value : Int32) : Interns (·.integer value) 1 := interns_intern _

theorem classRef_eq (pool : Pool) (name : Bytes) :
    pool.classRef name = (pool.utf8 name).2.intern (.classRef (pool.utf8 name).1) := by
  rw [classRef]

theorem string_eq (pool : Pool) (text : Bytes) :
    pool.string text = (pool.utf8 text).2.intern (.string (pool.utf8 text).1) := by
  rw [string]

theorem nameAndType_eq (pool : Pool) (name descriptor : Bytes) :
    pool.nameAndType name descriptor =
      let first := pool.utf8 name
      let second := first.2.utf8 descriptor
      second.2.intern (.nameAndType first.1 second.1) := by
  rw [nameAndType]

/-- Interns a class, a name with its descriptor, and a constant made of both. -/
def memberRef (make : UInt16 → UInt16 → Constant) (ref : MemberRef) (pool : Pool) : UInt16 × Pool :=
  let owner := pool.classRef ref.owner
  let member := owner.2.nameAndType ref.name ref.descriptor
  member.2.intern (make owner.1 member.1)

theorem field_eq (pool : Pool) (ref : MemberRef) : pool.field ref = memberRef .field ref pool := by
  rw [field, memberRef]

theorem method_eq (pool : Pool) (ref : MemberRef) :
    pool.method ref = memberRef .method ref pool := by
  rw [method, memberRef]

theorem interns_classRef (name : Bytes) : Interns (·.classRef name) 2 := by
  simp only [classRef_eq]
  exact (interns_utf8 name).bind fun i => interns_intern (.classRef i)

theorem interns_string (text : Bytes) : Interns (·.string text) 2 := by
  simp only [string_eq]
  exact (interns_utf8 text).bind fun i => interns_intern (.string i)

theorem interns_nameAndType (name descriptor : Bytes) :
    Interns (·.nameAndType name descriptor) 3 := by
  simp only [nameAndType_eq]
  exact (interns_utf8 name).bind fun i =>
    (interns_utf8 descriptor).bind fun j => interns_intern (.nameAndType i j)

theorem interns_memberRef (make : UInt16 → UInt16 → Constant) (ref : MemberRef) :
    Interns (memberRef make ref) 6 := by
  have pair (i : UInt16) := (interns_nameAndType ref.name ref.descriptor).bind fun j =>
    interns_intern (make i j)
  have whole := (interns_classRef ref.owner).bind pair
  unfold memberRef
  exact whole

theorem interns_field (ref : MemberRef) : Interns (·.field ref) 6 := by
  simp only [field_eq]
  exact interns_memberRef .field ref

theorem interns_method (ref : MemberRef) : Interns (·.method ref) 6 := by
  simp only [method_eq]
  exact interns_memberRef .method ref

/-- An entry that is the name of a class. -/
def NamesClass (pool : Pool) (i : UInt16) (name : Bytes) : Prop :=
  ∃ j, pool.get i = .ok (.classRef j) ∧ pool.get j = .ok (.utf8 name)

/-- An entry that refers to a member of a class. -/
def NamesMember (pool : Pool) (i : UInt16) (ref : MemberRef) : Prop :=
  ∃ owner member name descriptor,
    (pool.get i = .ok (.field owner member) ∨ pool.get i = .ok (.method owner member)) ∧
    pool.NamesClass owner ref.owner ∧ pool.get member = .ok (.nameAndType name descriptor) ∧
    pool.get name = .ok (.utf8 ref.name) ∧ pool.get descriptor = .ok (.utf8 ref.descriptor)

theorem NamesClass.className {pool : Pool} {i : UInt16} {name : Bytes}
    (names : pool.NamesClass i name) : pool.className i = .ok name := by
  obtain ⟨j, here, there⟩ := names
  simp [Pool.className, here, Pool.text, there]

theorem NamesMember.member {pool : Pool} {i : UInt16} {ref : MemberRef}
    (names : pool.NamesMember i ref) : pool.member i = .ok ref := by
  obtain ⟨owner, member, name, descriptor, here | here, class_, pair, first, second⟩ := names <;>
    simp [Pool.member, here, class_.className, pair, Pool.text, first, second]

theorem text_eq_ok {pool : Pool} {i : UInt16} {text : Bytes} :
    pool.text i = .ok text ↔ pool.get i = .ok (.utf8 text) := by
  rw [Pool.text]
  cases pool.get i with
  | error fault => simp
  | ok constant => cases constant <;> simp

/-- What a class entry and a member entry lead to. -/
theorem className_eq_ok {pool : Pool} {i : UInt16} {name : Bytes} :
    pool.className i = .ok name ↔ pool.NamesClass i name := by
  refine ⟨fun found => ?_, NamesClass.className⟩
  rw [Pool.className] at found
  obtain ⟨constant, here, found⟩ := bind_eq_ok.mp found
  cases constant with
  | classRef j => exact ⟨j, here, text_eq_ok.mp found⟩
  | utf8 | integer | string | field | method | interfaceMethod | nameAndType => cases found

theorem member_eq_ok {pool : Pool} {i : UInt16} {ref : MemberRef} :
    pool.member i = .ok ref ↔ ∃ constant owner member name descriptor,
      pool.get i = .ok constant ∧ constant ∈ [.field owner member, .method owner member,
        .interfaceMethod owner member] ∧ pool.NamesClass owner ref.owner ∧
      pool.get member = .ok (.nameAndType name descriptor) ∧
      pool.get name = .ok (.utf8 ref.name) ∧ pool.get descriptor = .ok (.utf8 ref.descriptor) := by
  constructor
  · intro found
    rw [Pool.member] at found
    obtain ⟨constant, here, found⟩ := bind_eq_ok.mp found
    cases constant with
    | field owner member | method owner member | interfaceMethod owner member =>
      obtain ⟨ownerName, class_, found⟩ := bind_eq_ok.mp found
      obtain ⟨pair, there, found⟩ := bind_eq_ok.mp found
      cases pair with
      | nameAndType name descriptor =>
        obtain ⟨nameText, first, found⟩ := bind_eq_ok.mp found
        obtain ⟨descriptorText, second, found⟩ := bind_eq_ok.mp found
        cases found
        exact ⟨_, owner, member, name, descriptor, here, by simp, className_eq_ok.mp class_, there,
          text_eq_ok.mp first, text_eq_ok.mp second⟩
      | utf8 | integer | classRef | string | field | method | interfaceMethod => cases found
    | utf8 | integer | classRef | string | nameAndType => cases found
  · rintro ⟨constant, owner, member, name, descriptor, here, kind, class_, pair, first, second⟩
    simp only [List.mem_cons, List.not_mem_nil, or_false] at kind
    rcases kind with rfl | rfl | rfl <;>
      simp [Pool.member, here, class_.className, pair, text_eq_ok.mpr first, text_eq_ok.mpr second]

namespace Extends

variable {old new : Pool} (extends_ : old.Extends new) {i : UInt16}

include extends_

theorem className {name : Bytes} (found : old.className i = .ok name) :
    new.className i = .ok name := by
  obtain ⟨j, here, there⟩ := className_eq_ok.mp found
  exact className_eq_ok.mpr ⟨j, extends_.get here, extends_.get there⟩

theorem member {ref : MemberRef} (found : old.member i = .ok ref) : new.member i = .ok ref := by
  obtain ⟨constant, owner, member, name, descriptor, here, kind, ⟨j, class_, named⟩, pair, first,
    second⟩ := member_eq_ok.mp found
  exact member_eq_ok.mpr ⟨constant, owner, member, name, descriptor, extends_.get here, kind,
    ⟨j, extends_.get class_, extends_.get named⟩, extends_.get pair, extends_.get first,
    extends_.get second⟩

end Extends

section

variable {pool : Pool} (sound : pool.Sound) (fits : pool.overflowed = false) {i : UInt16}
include sound fits

theorem get_of_intern {constant : Constant} (kept : pool.intern constant = (i, pool)) :
    pool.get i = .ok constant := by
  refine sound.found constant i ?_
  have room : (pool.intern constant).2.overflowed = false := by
    rw [kept]
    exact fits
  have found := intern_lookup room
  rwa [kept] at found

/-- The parts of an operation that changes nothing change nothing. -/
private theorem bind_kept {first : Pool → UInt16 × Pool} {second : UInt16 → Pool → UInt16 × Pool}
    {a b : Nat} (before : Interns first a) (after : ∀ i, Interns (second i) b)
    (kept : second (first pool).1 (first pool).2 = (i, pool)) :
    first pool = ((first pool).1, pool) ∧ second (first pool).1 pool = (i, pool) := by
  have back : (first pool).2.Extends pool := by
    have grows := (after (first pool).1).grows _ (before.sound pool sound)
    rwa [kept] at grows
  have same := before.stable pool pool sound sound back fits
  refine ⟨same, ?_⟩
  rw [same] at kept
  exact kept

theorem names_of_classRef {name : Bytes} (kept : pool.classRef name = (i, pool)) :
    pool.NamesClass i name := by
  rw [classRef_eq] at kept
  obtain ⟨first, second⟩ := bind_kept sound fits (interns_utf8 name)
    (fun i => interns_intern (.classRef i)) kept
  exact ⟨_, get_of_intern sound fits second, get_of_intern sound fits first⟩

theorem names_of_memberRef {make : UInt16 → UInt16 → Constant} {ref : MemberRef}
    (member : make = .field ∨ make = .method) (kept : memberRef make ref pool = (i, pool)) :
    pool.NamesMember i ref := by
  obtain ⟨owner, rest⟩ := bind_kept sound fits (interns_classRef ref.owner)
    (fun i => (interns_nameAndType ref.name ref.descriptor).bind fun j =>
      interns_intern (make i j)) kept
  obtain ⟨pair, whole⟩ := bind_kept sound fits (interns_nameAndType ref.name ref.descriptor)
    (fun j => interns_intern (make _ j)) rest
  rw [nameAndType_eq] at pair
  obtain ⟨name, rest⟩ := bind_kept sound fits (interns_utf8 ref.name)
    (fun i => (interns_utf8 ref.descriptor).bind fun j => interns_intern (.nameAndType i j)) pair
  obtain ⟨descriptor, both⟩ := bind_kept sound fits (interns_utf8 ref.descriptor)
    (fun j => interns_intern (.nameAndType _ j)) rest
  refine ⟨_, _, _, _, ?_, names_of_classRef sound fits owner, get_of_intern sound fits both,
    get_of_intern sound fits name, get_of_intern sound fits descriptor⟩
  rcases member with rfl | rfl
  · exact .inl (get_of_intern sound fits whole)
  · exact .inr (get_of_intern sound fits whole)

end

end Minilang.ClassFile.Pool

namespace Minilang.ClassFile

/-- What can be asked of a pool. -/
inductive Request where
  | text (value : Bytes)
  | number (value : Int32)
  | className (name : Bytes)
  | string (value : Bytes)
  | nameAndType (name descriptor : Bytes)
  | field (ref : MemberRef)
  | method (ref : MemberRef)
  deriving DecidableEq

namespace Request

/-- How many entries a request can add. -/
def cost : Request → Nat
  | .text _ | .number _ => 1
  | .className _ | .string _ => 2
  | .nameAndType .. => 3
  | .field _ | .method _ => 6

def run (pool : Pool) : Request → UInt16 × Pool
  | .text value => pool.utf8 value
  | .number value => pool.integer value
  | .className name => pool.classRef name
  | .string value => pool.string value
  | .nameAndType name descriptor => pool.nameAndType name descriptor
  | .field ref => pool.field ref
  | .method ref => pool.method ref

/-- The texts that a request needs. -/
def texts : Request → List Bytes
  | .text value | .string value => [value]
  | .number _ => []
  | .className name => [name]
  | .nameAndType name descriptor => [name, descriptor]
  | .field ref | .method ref => [ref.owner, ref.name, ref.descriptor]

theorem interns (request : Request) : Pool.Interns (fun pool => request.run pool) request.cost := by
  cases request with
  | text value => exact Pool.interns_utf8 value
  | number value => exact Pool.interns_integer value
  | className name => exact Pool.interns_classRef name
  | string value => exact Pool.interns_string value
  | nameAndType name descriptor => exact Pool.interns_nameAndType name descriptor
  | field ref => exact Pool.interns_field ref
  | method ref => exact Pool.interns_method ref

end Request

end Minilang.ClassFile
