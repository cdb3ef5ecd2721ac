import Mathlib.Data.List.Forall2
import Minilang.ClassFile.Class
import Minilang.ClassFile.Writer
import Minilang.Proofs.PoolInterning
import Minilang.Proofs.ValidText

/-! Reading back what was written. A reader takes a written part off the front of the bytes and
leaves whatever follows it. -/

namespace Minilang.ClassFile

/-- A parser that reads a text, whatever follows it, and gives a value. -/
def Reads {α : Type} (parse : Parse α) (text : Bytes) (value : α) : Prop :=
  ∀ rest : Bytes, parse.run { rest := text ++ rest } = .ok (value, { rest })

namespace Reads

variable {α β : Type} {parse : Parse α} {next : α → Parse β} {text more : Bytes} {value : α}
  {result : β}

theorem pure (value : α) : Reads (pure value) [] value := fun _ => rfl

theorem bind (first : Reads parse text value) (second : Reads (next value) more result) :
    Reads (parse >>= next) (text ++ more) result := by
  intro rest
  rw [StateT.run_bind, List.append_assoc, first]
  exact second rest

theorem bind_end (first : Reads parse text value) (second : Reads (next value) [] result) :
    Reads (parse >>= next) text result := by
  have whole := first.bind second
  rwa [List.append_nil] at whole

theorem within (part : Bytes) (reads : Reads parse text value) :
    Reads (Parse.within part parse) text value := by
  intro rest
  have ran := reads rest
  simp only [StateT.run] at ran
  simp only [StateT.run, Parse.within, ran]

theorem nested (reads : Reads parse text value) : Reads (Parse.nested text parse) [] value := by
  intro rest
  have ran := reads []
  simp only [StateT.run, List.append_nil] at ran
  simp only [StateT.run, Parse.nested, ran, List.nil_append]

end Reads

theorem reads_bytes (text : Bytes) : Reads (Parse.bytes text.length) text text := by
  intro rest
  simp [Parse.bytes, StateT.run]

theorem reads_isExhausted : Reads Parse.isExhausted [] false := fun _ => rfl

theorem reads_checkEnd : Reads Parse.checkEnd [] () := fun _ => rfl

theorem reads_lookUp {α : Type} {result : Except PoolFault α} {value : α}
    (found : result = .ok value) : Reads (Parse.lookUp result) [] value := by
  rw [found]
  exact .pure value

theorem reads_u1 (b : UInt8) : Reads Parse.u1 [b] b.toNat := by
  refine Reads.bind_end (reads_bytes [b]) ?_
  have value : Parse.number [b] = b.toNat := by simp [Parse.number]
  rw [← value]
  exact .pure _

theorem reads_word (n : Nat) : Reads Parse.u2 (u2 n) (n % 65536) := by
  refine Reads.bind_end (reads_bytes (u2 n)) ?_
  have value : Parse.number (u2 n) = n % 65536 := by
    simp only [Parse.number, u2, List.foldl_cons, List.foldl_nil, Nat.toUInt8_eq,
      UInt8.toNat_ofNat']
    omega
  rw [value]
  exact .pure _

theorem reads_u2 {n : Nat} (small : n < 65536) : Reads Parse.u2 (u2 n) n := by
  have reads := reads_word n
  rwa [Nat.mod_eq_of_lt small] at reads

theorem reads_u4 {n : Nat} (small : n < 4294967296) : Reads Parse.u4 (u4 n) n := by
  refine Reads.bind_end (reads_bytes (u4 n)) ?_
  have value : Parse.number (u4 n) = n := by
    simp only [Parse.number, u4, u2, List.cons_append, List.nil_append, List.foldl_cons,
      List.foldl_nil, Nat.toUInt8_eq, UInt8.toNat_ofNat']
    omega
  rw [value]
  exact .pure _

theorem reads_index (i : UInt16) : Reads Parse.index (u2 i.toNat) i := by
  refine Reads.bind_end (reads_u2 i.toNat_lt) ?_
  have value : i.toNat.toUInt16 = i := by simp
  rw [value]
  exact .pure _

theorem reads_items {α : Type} {item : Parse α} {texts : List Bytes} {values : List α}
    (each : List.Forall₂ (Reads item) texts values) (done : Array α) :
    Reads (Parse.items item texts.length done) texts.flatten (done ++ values.toArray) := by
  induction each generalizing done with
  | nil =>
    rw [Array.append_empty]
    exact .pure done
  | @cons text value texts values here _ ih =>
    have reads := ih (done.push value)
    have same : done.push value ++ values.toArray = done ++ (value :: values).toArray := by simp
    rw [same] at reads
    exact reads_isExhausted.bind (here.bind reads)

/-- A text as it is read back: ill-formed bytes have become replacement characters. -/
def repair (text : Bytes) : Bytes := ModifiedUtf8.decode (ModifiedUtf8.encode text)

theorem repair_of_valid {text : Bytes} (valid : Utf8.isValid text = true) : repair text = text :=
  ModifiedUtf8.decode_encode valid

/-- Bytes that stand for themselves in every encoding. -/
def Ascii (text : Bytes) : Prop := ∀ b ∈ text, b < 128

instance (text : Bytes) : Decidable (Ascii text) :=
  inferInstanceAs (Decidable (∀ b ∈ text, b < 128))

theorem Ascii.repair {text : Bytes} (ascii : Ascii text) : repair text = text :=
  repair_of_valid (Utf8.isValid_of_ascii ascii)

def Constant.reread : Constant → Constant
  | .utf8 text => .utf8 (repair text)
  | constant => constant

theorem reads_constant (position : Nat) (constant : Constant)
    (short : ∀ text, constant = .utf8 text → (ModifiedUtf8.encode text).length ≤ 65535) :
    Reads (Parse.constant position) constant.write constant.reread := by
  have pair : ∀ (make : UInt16 → UInt16 → Constant) (a b : UInt16),
      Reads (do return make (← Parse.index) (← Parse.index)) (u2 a.toNat ++ u2 b.toNat) (make a b) := by
    intro make a b
    refine (reads_index a).bind ?_
    exact Reads.bind_end (reads_index b) (.pure _)
  cases constant with
  | utf8 text =>
    have fits := short text rfl
    have body : Reads (do return .utf8 (ModifiedUtf8.decode (← Parse.bytes (← Parse.u2))))
        (u2 (ModifiedUtf8.encode text).length ++ ModifiedUtf8.encode text)
        (Constant.reread (.utf8 text)) := by
      refine (reads_u2 (by omega)).bind ?_
      exact Reads.bind_end (reads_bytes _) (.pure _)
    exact (reads_u1 1).bind body
  | integer value =>
    have body : Reads (do return .integer (Int32.ofNat (← Parse.u4)))
        (u4 (value.toInt % 0x100000000).toNat) (Constant.integer value) := by
      refine Reads.bind_end (reads_u4 (by omega)) ?_
      have same : Int32.ofNat (value.toInt % 0x100000000).toNat = value := by
        rw [← Int32.ofInt_eq_ofNat, Int32.ofInt_eq_iff_bmod_eq_toInt, Int.toNat_of_nonneg (by omega)]
        exact (Int.emod_bmod ..).trans value.toInt_bmod
      rw [same]
      exact .pure _
    exact (reads_u1 3).bind body
  | classRef name =>
    exact (reads_u1 7).bind (Reads.bind_end (reads_index name) (.pure _))
  | string text =>
    exact (reads_u1 8).bind (Reads.bind_end (reads_index text) (.pure _))
  | field a b => exact (reads_u1 9).bind (pair .field a b)
  | method a b => exact (reads_u1 10).bind (pair .method a b)
  | interfaceMethod a b => exact (reads_u1 11).bind (pair .interfaceMethod a b)
  | nameAndType a b => exact (reads_u1 12).bind (pair .nameAndType a b)

def Pool.reread (pool : Pool) : Pool :=
  pool.entries.toList.foldl (fun pool constant => pool.append constant.reread) {}

/-- Every text of a pool has a length that the format can hold. -/
def Pool.Short (pool : Pool) : Prop :=
  ∀ text, .utf8 text ∈ pool.entries.toList → (ModifiedUtf8.encode text).length ≤ 65535

private theorem reads_constants (list : List Constant)
    (short : ∀ text, .utf8 text ∈ list → (ModifiedUtf8.encode text).length ≤ 65535)
    (position : Nat) (pool : Pool) :
    Reads (Parse.constants list.length position pool) (list.flatMap Constant.write)
      (list.foldl (fun pool constant => pool.append constant.reread) pool) := by
  induction list generalizing position pool with
  | nil => exact .pure pool
  | cons constant rest ih =>
    have here := reads_constant position constant fun text same =>
      short text (same ▸ List.mem_cons_self)
    have later := ih (fun text member => short text (List.mem_cons_of_mem _ member)) (position + 1)
      (pool.append constant.reread)
    exact here.bind (reads_checkEnd.bind later)

theorem reads_pool {pool : Pool} (small : pool.count ≤ 65535) (short : pool.Short) :
    Reads Parse.pool pool.write pool.reread := by
  have all := reads_constants pool.entries.toList short 1 {}
  have length : pool.count - 1 = pool.entries.toList.length := by simp [Pool.count]
  refine (reads_u2 (by omega)).bind ?_
  rw [length]
  exact all.bind_end (reads_checkEnd.bind_end (.pure _))

theorem Pool.reread_entries (pool : Pool) :
    pool.reread.entries.toList = pool.entries.toList.map Constant.reread := by
  have fold : ∀ (list : List Constant) (start : Pool),
      (list.foldl (fun pool constant => pool.append constant.reread) start).entries.toList =
        start.entries.toList ++ list.map Constant.reread := by
    intro list
    induction list with
    | nil => simp
    | cons constant rest ih =>
      intro start
      rw [List.foldl_cons, ih]
      simp [Pool.append]
  rw [Pool.reread, fold]
  simp

theorem Pool.reread_get {pool : Pool} {i : UInt16} {constant : Constant}
    (found : pool.get i = .ok constant) : pool.reread.get i = .ok constant.reread := by
  rw [Pool.get_eq_ok] at found ⊢
  rw [Pool.reread_entries, List.getElem?_map, found.2]
  exact ⟨found.1, rfl⟩

theorem Pool.reread_text {pool : Pool} {i : UInt16} {text : Bytes}
    (found : pool.get i = .ok (.utf8 text)) : pool.reread.text i = .ok (repair text) := by
  have read := reread_get found
  rw [Constant.reread] at read
  simp [Pool.text, read]

theorem Pool.NamesClass.reread {pool : Pool} {i : UInt16} {name : Bytes}
    (names : pool.NamesClass i name) : pool.reread.NamesClass i (repair name) := by
  obtain ⟨j, here, there⟩ := names
  exact ⟨j, Pool.reread_get here, Pool.reread_get there⟩

def MemberRef.reread (ref : MemberRef) : MemberRef :=
  { owner := repair ref.owner, name := repair ref.name, descriptor := repair ref.descriptor }

theorem Pool.NamesMember.reread {pool : Pool} {i : UInt16} {ref : MemberRef}
    (names : pool.NamesMember i ref) : pool.reread.NamesMember i ref.reread := by
  obtain ⟨owner, member, name, descriptor, here, named, pair, nameEntry, descriptorEntry⟩ := names
  exact ⟨owner, member, name, descriptor, here.imp reread_get reread_get, named.reread,
    reread_get pair, reread_get nameEntry, reread_get descriptorEntry⟩

end Minilang.ClassFile
