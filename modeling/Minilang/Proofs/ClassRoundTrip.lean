import Minilang.Proofs.ClassReading
import Minilang.Proofs.PoolBudget

/-! Written methods are read back. What a method's attributes intern keeps its index in the
finished pool, so the reader finds there the names that the writer asked for. The length of an
attribute is read back as long as it is below 2 ^ 32. -/

namespace Minilang.ClassFile

/-- A finished pool that a pool grows to. -/
structure Pool.GrowsTo (pool larger : Pool) : Prop where
  sound : larger.Sound
  extends_ : pool.Extends larger
  fits : larger.overflowed = false

theorem Pool.GrowsTo.before {first second larger : Pool} (later : second.GrowsTo larger)
    (extends_ : first.Extends second) : first.GrowsTo larger :=
  ⟨later.sound, extends_.trans later.extends_, later.fits⟩

namespace Writing

variable {α β : Type}

/-- Writing whose result means something in every finished pool. -/
def Writes (writing : Writing α) (means : Pool → α → Prop) : Prop :=
  ∀ pool : Pool, pool.Sound → (writing.run pool).2.Sound ∧ pool.Extends (writing.run pool).2 ∧
    ∀ larger, (writing.run pool).2.GrowsTo larger → means larger (writing.run pool).1

theorem Writes.pure {means : Pool → α → Prop} {value : α} (always : ∀ larger, means larger value) :
    Writes (pure value) means :=
  fun pool sound => ⟨sound, .refl pool, fun larger _ => always larger⟩

theorem Writes.bind {writing : Writing α} {next : α → Writing β} {means : Pool → α → Prop}
    {result : Pool → β → Prop} (first : Writes writing means)
    (second : ∀ value, Writes (next value) fun larger written =>
      means larger value → result larger written) :
    Writes (writing >>= next) result := by
  intro pool sound
  obtain ⟨middle, grows, known⟩ := first pool sound
  obtain ⟨last, more, found⟩ := second (writing.run pool).1 _ middle
  exact ⟨last, grows.trans more, fun larger later => found larger later (known larger (later.before more))⟩

theorem Writes.mono {writing : Writing α} {means weaker : Pool → α → Prop}
    (writes : Writes writing means) (weaken : ∀ larger value, means larger value → weaker larger value) :
    Writes writing weaker := by
  intro pool sound
  obtain ⟨last, grows, known⟩ := writes pool sound
  exact ⟨last, grows, fun larger later => weaken larger _ (known larger later)⟩

private theorem writes_index {intern : Pool → UInt16 × Pool} {cost : Nat}
    (interns : Pool.Interns intern cost) {names : Pool → UInt16 → Prop}
    (kept : ∀ (pool : Pool) i, pool.Sound → pool.overflowed = false → intern pool = (i, pool) →
      names pool i) :
    Writes (index intern) fun larger text => ∃ i, text = u2 i.toNat ∧ names larger i := by
  intro pool sound
  refine ⟨interns.sound pool sound, interns.grows pool sound, fun larger later => ?_⟩
  have same := interns.stable pool larger sound later.sound later.extends_ later.fits
  exact ⟨(intern pool).1, rfl, kept larger _ later.sound later.fits same⟩

theorem writes_utf8 (text : Bytes) :
    Writes (utf8 text) fun larger written =>
      ∃ i, written = u2 i.toNat ∧ larger.get i = .ok (.utf8 text) :=
  writes_index (Pool.interns_utf8 text) fun _ _ sound fits kept => Pool.get_of_intern sound fits kept

theorem writes_classRef (name : Bytes) :
    Writes (classRef name) fun larger written =>
      ∃ i, written = u2 i.toNat ∧ larger.NamesClass i name :=
  writes_index (Pool.interns_classRef name) fun _ _ sound fits kept =>
    Pool.names_of_classRef sound fits kept

/-- An attribute has a name and a length before its body. -/
theorem writes_namedPart {name : Bytes} {body : Writing Bytes} {means : Pool → Bytes → Prop}
    (writes : Writes body means) :
    Writes (namedPart name body) fun larger written => ∃ i text,
      written = u2 i.toNat ++ u4 text.length ++ text ∧ larger.get i = .ok (.utf8 name) ∧
        means larger text := by
  refine writes.bind fun text => ?_
  refine (writes_utf8 name).bind fun index => .pure ?_
  rintro larger ⟨i, rfl, named⟩ known
  exact ⟨i, text, rfl, named, known⟩

end Writing

/-- A type as it is read back: two bytes of an offset are left. -/
def VType.reread : VType → VType
  | .object name => .object (repair name)
  | .uninit offset => .uninit (offset % 65536)
  | type => type

def Frame.reread (frame : Frame) : Frame :=
  { frame with locals := frame.locals.map VType.reread, stack := frame.stack.map VType.reread }

/-- A frame whose numbers fit into two bytes each. -/
structure Frame.Storable (frame : Frame) : Prop where
  offset : frame.offset < 65536
  locals : frame.locals.length < 65536
  stack : frame.stack.length < 65536

namespace Writing

theorem writes_type (type : VType) :
    Writes (Writing.type type) fun larger text =>
      Reads (Parse.type larger.reread) text type.reread := by
  cases type with
  | top => exact .pure fun _ => (reads_u1 0).bind_end (reads_checkEnd.bind_end (.pure _))
  | int => exact .pure fun _ => (reads_u1 1).bind_end (reads_checkEnd.bind_end (.pure _))
  | object name =>
    refine (writes_classRef name).bind fun index => .pure ?_
    rintro larger ⟨i, rfl, names⟩
    refine (reads_u1 7).bind ((reads_index i).bind_end ?_)
    exact (reads_lookUp names.reread.className).bind_end (.pure _)
  | uninit offset =>
    refine .pure fun _ => (reads_u1 8).bind ((reads_word offset).bind_end ?_)
    exact reads_checkEnd.bind_end (.pure _)

private theorem reads_exactly {α : Type} {item : Parse α} {parts : List Bytes} {values : List α}
    (each : List.Forall₂ (Reads item) parts values) (done : Array α) :
    Reads (Parse.exactly item values.length done) parts.flatten (done ++ values.toArray) := by
  induction each generalizing done with
  | nil =>
    have same : done ++ ([] : List α).toArray = done := by simp
    rw [same]
    exact .pure done
  | @cons part value parts values here later ih =>
    have rest := ih (done.push value)
    have same : done.push value ++ values.toArray = done ++ (value :: values).toArray := by simp
    rw [same] at rest
    exact here.bind rest

/-- Types behind their number. -/
def readTypes (pool : Pool) : Parse (Array VType) :=
  Parse.u2 >>= fun n => Parse.exactly (Parse.type pool) n #[]

theorem writes_types {list : List VType} (few : list.length < 65536) :
    Writes (types list) fun larger text =>
      Reads (readTypes larger.reread) text (list.map VType.reread).toArray := by
  have each : Writes (list.mapM Writing.type) fun larger parts =>
      List.Forall₂ (Reads (Parse.type larger.reread)) parts (list.map VType.reread) := by
    clear few
    induction list with
    | nil => exact .pure fun larger => .nil
    | cons type rest ih =>
      rw [List.mapM_cons]
      refine (writes_type type).bind fun first => ?_
      refine ih.bind fun others => .pure ?_
      exact fun larger reads read => .cons read reads
  refine each.bind fun parts => .pure fun larger reads => ?_
  have all := reads_exactly reads #[]
  rw [List.length_map, Array.empty_append] at all
  exact (reads_u2 few).bind all

private theorem reads_frame {pool : Pool} (before : List VType) {distance : Nat}
    (near : distance < 65536) {localsText stackText : Bytes} {locals stack : Array VType}
    (readsLocals : Reads (readTypes pool) localsText locals)
    (readsStack : Reads (readTypes pool) stackText stack) :
    Reads (Parse.frame pool before) (255 :: u2 distance ++ localsText ++ stackText)
      (distance, locals.toList, stack.toList) := by
  have body : Reads (do
      let distance ← Parse.u2
      let locals ← readTypes pool
      let stack ← readTypes pool
      return (distance, locals.toList, stack.toList)) (u2 distance ++ (localsText ++ stackText))
      (distance, locals.toList, stack.toList) :=
    (reads_u2 near).bind (readsLocals.bind (readsStack.bind_end (.pure _)))
  simp only [readTypes, bind_assoc] at body
  rw [List.append_assoc]
  exact (reads_u1 255).bind body

/-- The distance that is written for a frame. -/
private def distanceFrom : Option Nat → Nat → Nat
  | none, offset => offset
  | some previous, offset => offset - previous - 1

private theorem frames_cons (previous : Option Nat) (frame : Frame) (rest : List Frame) :
    frames previous (frame :: rest) = (do
      let locals ← types frame.locals
      let stack ← types frame.stack
      return (255 :: u2 (distanceFrom previous frame.offset) ++ locals ++ stack) ::
        (← frames (some frame.offset) rest)) := by
  cases previous <;> rfl

/-- The offset that a written distance stands for. -/
private def offsetBehind : Option Nat → Nat → Nat
  | none, distance => distance
  | some previous, distance => previous + distance + 1

private theorem parseFrames_succ (pool : Pool) (n : Nat) (previous : Option Nat)
    (locals : List VType) (done : Array Frame) :
    Parse.frames pool (n + 1) previous locals done = (do
      if ← Parse.isExhausted then return done
      let (distance, locals, stack) ← Parse.frame pool locals
      let offset := offsetBehind previous distance
      Parse.frames pool n (some offset) locals (done.push { offset, locals, stack })) := by
  cases previous <;> rfl

/-- Frames are written in full, so they are read whatever the locals before them were. -/
theorem writes_frames {list : List Frame} (storable : ∀ frame ∈ list, frame.Storable)
    (previous : Option Nat)
    (ascending : (previous.toList ++ list.map Frame.offset).Pairwise (· < ·)) :
    Writes (frames previous list) fun larger parts => ∀ locals done,
      Reads (Parse.frames larger.reread list.length previous locals done) parts.flatten
        (done ++ (list.map Frame.reread).toArray) := by
  induction list generalizing previous with
  | nil =>
    refine .pure fun larger locals done => ?_
    have same : done ++ (List.map Frame.reread []).toArray = done := by simp
    rw [same]
    exact .pure done
  | cons frame rest ih =>
    obtain ⟨here, others⟩ := List.forall_mem_cons.mp storable
    have later : ((some frame.offset).toList ++ rest.map Frame.offset).Pairwise (· < ·) :=
      (List.pairwise_append.mp ascending).2.1
    have near : distanceFrom previous frame.offset < 65536 := by
      have := here.offset
      cases previous with
      | none => exact here.offset
      | some offset => simp only [distanceFrom]; omega
    have back : offsetBehind previous (distanceFrom previous frame.offset) = frame.offset := by
      cases previous with
      | none => rfl
      | some offset =>
        have : offset < frame.offset :=
          (List.pairwise_append.mp ascending).2.2 offset (by simp) frame.offset (by simp)
        simp only [distanceFrom, offsetBehind]
        omega
    rw [frames_cons]
    refine (writes_types here.locals).bind fun localsText => ?_
    refine (writes_types here.stack).bind fun stackText => ?_
    refine (ih others _ later).bind fun parts => .pure ?_
    intro larger readsRest readsStack readsLocals before done
    have first := reads_frame before near readsLocals readsStack
    have reads := readsRest (frame.locals.map VType.reread) (done.push frame.reread)
    have same : done.push frame.reread ++ (rest.map Frame.reread).toArray =
        done ++ ((frame :: rest).map Frame.reread).toArray := by simp
    rw [same] at reads
    rw [List.length_cons, parseFrames_succ]
    refine reads_isExhausted.bind (first.bind ?_)
    simp only [back]
    exact reads

end Writing

/-- A line entry whose numbers fit into two bytes each. -/
def LineEntry.Storable (entry : LineEntry) : Prop := entry.pc < 65536 ∧ entry.line < 65536

namespace Method

open Writing

theorem writes_stackMap {list : List Frame} (storable : ∀ frame ∈ list, frame.Storable)
    (ascending : (list.map Frame.offset).Pairwise (· < ·)) (few : list.length < 65536) :
    Writes (stackMap list) fun larger text => ∀ init,
      Reads (Parse.stackMap larger.reread init) text (list.map Frame.reread) := by
  refine (writes_frames storable none ascending).bind fun parts => .pure fun larger reads init => ?_
  have read := reads (trimTop init) #[]
  rw [Array.empty_append] at read
  exact (reads_u2 few).bind (read.bind_end (reads_checkEnd.bind_end (.pure _)))

theorem reads_lineTable {lines : List LineEntry} (storable : ∀ entry ∈ lines, entry.Storable)
    (few : lines.length < 65536) :
    Reads Parse.lineTable
      (u2 lines.length ++ lines.flatMap fun entry => u2 entry.pc ++ u2 entry.line) lines := by
  have each : List.Forall₂ (Reads Parse.lineEntry)
      (lines.map fun entry => u2 entry.pc ++ u2 entry.line) lines := by
    rw [List.forall₂_map_left_iff, List.forall₂_same]
    intro entry member
    obtain ⟨place, line⟩ := storable entry member
    exact (reads_u2 place).bind ((reads_u2 line).bind_end (.pure _))
  have reads := reads_items each #[]
  rw [List.length_map, List.flatten_eq_flatMap, List.flatMap_map] at reads
  rw [Array.empty_append] at reads
  exact (reads_u2 few).bind (reads.bind_end (reads_checkEnd.bind_end (.pure _)))

end Method

theorem reads_namedPart {pool : Pool} {i : UInt16} {name text : Bytes}
    (named : pool.text i = .ok name) (small : text.length < 4294967296) :
    Reads (Parse.namedPart pool) (u2 i.toNat ++ u4 text.length ++ text) (name, text) := by
  rw [List.append_assoc]
  refine (reads_index i).bind ?_
  refine (reads_lookUp named).bind ?_
  exact (reads_u4 small).bind ((reads_bytes text).bind_end (.pure _))

/-- An attribute of code that is read back, and what is then known of the code. -/
inductive CodePart (pool : Pool) : Bytes → (CodeInfo → CodeInfo) → Prop where
  | lines {i : UInt16} {text : Bytes} {lines : List LineEntry} (small : text.length < 4294967296)
      (named : pool.get i = .ok (.utf8 "LineNumberTable")) (reads : Reads Parse.lineTable text lines) :
      CodePart pool (u2 i.toNat ++ u4 text.length ++ text)
        fun code => { code with lines := code.lines ++ lines }
  | frames {i : UInt16} {text : Bytes} {frames : List Frame} (small : text.length < 4294967296)
      (named : pool.get i = .ok (.utf8 "StackMapTable"))
      (reads : ∀ init, Reads (Parse.stackMap pool.reread init) text frames) :
      CodePart pool (u2 i.toNat ++ u4 text.length ++ text) fun code => { code with frames }

theorem reads_codeAttributes {pool : Pool} (access : UInt16) {descriptor : Bytes}
    {locals : List VType} (described : Reads (Parse.implicitLocals access descriptor) [] locals)
    {parts : List Bytes} {updates : List (CodeInfo → CodeInfo)}
    (each : List.Forall₂ (CodePart pool) parts updates) (code : CodeInfo) :
    Reads (Parse.codeAttributes pool.reread access descriptor parts.length code) parts.flatten
      (updates.foldl (fun code update => update code) code) := by
  induction each generalizing code with
  | nil => exact .pure code
  | @cons part update parts updates here later ih =>
    cases here with
    | lines small named reads =>
      have head := reads_namedPart (Pool.reread_text named) small
      rw [Ascii.repair (by decide)] at head
      refine reads_isExhausted.bind (head.bind ?_)
      exact reads_isExhausted.bind (reads.nested.bind (ih _))
    | frames small named reads =>
      have head := reads_namedPart (Pool.reread_text named) small
      rw [Ascii.repair (by decide)] at head
      refine reads_isExhausted.bind (head.bind ?_)
      exact reads_isExhausted.bind (described.bind ((reads locals).nested.bind (ih _)))

/-- The body of a code attribute; there are no handlers in it. -/
def codeBody (maxStack maxLocals : Nat) (code : Bytes) (parts : List Bytes) : Bytes :=
  u2 maxStack ++ u2 maxLocals ++ u4 code.length ++ code ++ u2 0 ++ u2 parts.length ++ parts.flatten

theorem length_codeBody (maxStack maxLocals : Nat) (code : Bytes) (parts : List Bytes) :
    (codeBody maxStack maxLocals code parts).length = 12 + code.length + parts.flatten.length := by
  have head : ∀ n, (u2 n).length = 2 := fun _ => rfl
  have size : ∀ n, (u4 n).length = 4 := fun _ => rfl
  simp only [codeBody, List.length_append, head, size]
  omega

theorem reads_code {pool : Pool} {access : UInt16} {descriptor : Bytes} {locals : List VType}
    (described : Reads (Parse.implicitLocals access descriptor) [] locals) {parts : List Bytes}
    {updates : List (CodeInfo → CodeInfo)} (each : List.Forall₂ (CodePart pool) parts updates)
    {maxStack maxLocals : Nat} (depth : maxStack < 65536) (slots : maxLocals < 65536) {code : Bytes}
    (short : code.length < 4294967296) (few : parts.length < 65536) :
    Reads (Parse.code pool.reread access descriptor) (codeBody maxStack maxLocals code parts)
      (updates.foldl (fun code update => update code) { maxStack, maxLocals, bytes := code }) := by
  have reads := reads_codeAttributes access described each { maxStack, maxLocals, bytes := code }
  have noHandlers : Reads (Parse.bytes (8 * 0)) [] [] := reads_bytes []
  simp only [codeBody, List.append_assoc]
  refine (reads_u2 depth).bind ((reads_u2 slots).bind ((reads_u4 short).bind ?_))
  refine (reads_bytes code).bind ((reads_u2 (by decide : 0 < 65536)).bind ?_)
  refine noHandlers.bind ((reads_u2 few).bind ?_)
  exact reads.bind_end (reads_checkEnd.bind_end (.pure _))

namespace Method

open Writing

private theorem writes_partUnless {absent : Bool} {name : Bytes} {body : Writing Bytes}
    {means : Pool → Bytes → Prop} (writes : Writes body means) :
    Writes (partUnless absent name body) fun larger parts =>
      absent = true ∧ parts = [] ∨ absent = false ∧ ∃ i text,
        parts = [u2 i.toNat ++ u4 text.length ++ text] ∧ larger.get i = .ok (.utf8 name) ∧
          means larger text := by
  cases absent with
  | true => exact .pure fun _ => .inl ⟨rfl, rfl⟩
  | false =>
    refine (writes_namedPart writes).bind fun part => .pure ?_
    rintro larger ⟨i, text, rfl, named, known⟩
    exact .inr ⟨rfl, i, text, rfl, named, known⟩

/-- A method whose numbers, with those of its frames, fit into two bytes each. -/
structure Storable (method : Method) (frames : List Frame) : Prop where
  each : ∀ frame ∈ frames, frame.Storable
  ascending : (frames.map Frame.offset).Pairwise (· < ·)
  lines : ∀ entry ∈ method.lines.toList, entry.Storable
  fewLines : method.lines.size < 65536
  fewFrames : frames.length < 65536
  slots : method.maxLocals < 65536

theorem writes_attributes {method : Method} {frames : List Frame}
    (storable : method.Storable frames) :
    Writes (method.attributes frames) fun larger parts => parts.flatten.length < 4294967296 →
      parts.length ≤ 2 ∧ ∃ updates, List.Forall₂ (CodePart larger) parts updates ∧
        ∀ code : CodeInfo, code.lines = [] → code.frames = [] →
          updates.foldl (fun code update => update code) code =
            { code with lines := method.lines.toList, frames := frames.map Frame.reread } := by
  have table : Writes (lineTable method.lines) fun _ text =>
      Reads Parse.lineTable text method.lines.toList := by
    refine .pure fun larger => ?_
    have reads := reads_lineTable storable.lines (by simpa using storable.fewLines)
    rwa [Array.length_toList] at reads
  rw [attributes_eq]
  refine (writes_partUnless table).bind fun first => ?_
  refine (writes_partUnless (writes_stackMap storable.each storable.ascending
    storable.fewFrames)).bind fun second => .pure ?_
  intro larger maps lines small
  rw [List.flatten_append, List.length_append] at small
  have linePart : first.length ≤ 1 ∧ ∃ updates, List.Forall₂ (CodePart larger) first updates ∧
      ∀ code : CodeInfo, code.lines = [] →
        updates.foldl (fun code update => update code) code =
          { code with lines := method.lines.toList } := by
    rcases lines with ⟨none, rfl⟩ | ⟨-, i, text, rfl, named, reads⟩
    · refine ⟨Nat.zero_le 1, [], .nil, fun code empty => ?_⟩
      have bare : method.lines.toList = [] := by simpa using none
      rw [bare, ← empty]
      rfl
    · refine ⟨Nat.le_refl 1, _, .cons (.lines ?_ named reads) .nil, fun code empty => ?_⟩
      · simp only [List.flatten_cons, List.length_append] at small
        omega
      · simp [empty]
  have mapPart : second.length ≤ 1 ∧ ∃ updates, List.Forall₂ (CodePart larger) second updates ∧
      ∀ code : CodeInfo, code.frames = [] →
        updates.foldl (fun code update => update code) code =
          { code with frames := frames.map Frame.reread } := by
    rcases maps with ⟨none, rfl⟩ | ⟨-, i, text, rfl, named, reads⟩
    · refine ⟨Nat.zero_le 1, [], .nil, fun code empty => ?_⟩
      rw [List.isEmpty_iff.mp none, List.map_nil, ← empty]
      rfl
    · refine ⟨Nat.le_refl 1, _, .cons (.frames ?_ named reads) .nil, fun code _ => rfl⟩
      simp only [List.flatten_cons, List.length_append] at small
      omega
  obtain ⟨fewLines, lineUpdates, linesRead, linesSet⟩ := linePart
  obtain ⟨fewMaps, mapUpdates, mapsRead, mapsSet⟩ := mapPart
  refine ⟨?_, lineUpdates ++ mapUpdates, List.rel_append linesRead mapsRead, ?_⟩
  · rw [List.length_append]
    omega
  · intro code noLines noFrames
    rw [List.foldl_append, linesSet code noLines]
    exact mapsSet _ noFrames

/-- A method as it is read back. -/
def reread (method : Method) (code : Bytes) (analysis : Analysis) : MethodInfo :=
  { access := method.access, name := repair method.name, descriptor := repair method.descriptor
    code := some
      { maxStack := analysis.maxStack, maxLocals := method.maxLocals, bytes := code
        lines := method.lines.toList, frames := analysis.frames.map Frame.reread } }

/-- A written method is read back. -/
theorem writes_write {method : Method} (code : Bytes) {analysis : Analysis}
    (storable : method.Storable analysis.frames) (depth : analysis.maxStack < 65536)
    {types : List VType × Option VType}
    (described : methodType (repair method.descriptor) = .ok types) :
    Writes (method.write code analysis) fun larger text => text.length < 4294967296 →
      Reads (Parse.method larger.reread) text (method.reread code analysis) := by
  refine (writes_attributes storable).bind fun parts => ?_
  refine (writes_utf8 method.name).bind fun nameText => ?_
  refine (writes_utf8 method.descriptor).bind fun descriptorText => ?_
  have writesBody : Writes
      (pure (codeBody analysis.maxStack method.maxLocals code parts) : Writing Bytes)
      fun _ text => text = codeBody analysis.maxStack method.maxLocals code parts :=
    .pure fun _ => rfl
  refine (writes_namedPart writesBody).bind fun part => .pure ?_
  rintro larger ⟨i, text, rfl, named, same⟩ ⟨k, rfl, descriptorNamed⟩ ⟨j, rfl, nameNamed⟩ known small
  have length := length_codeBody analysis.maxStack method.maxLocals code parts
  rw [← same] at length
  simp only [List.length_append] at small
  obtain ⟨few, updates, each, set⟩ := known (by omega)
  have implicit : ∃ locals, Reads (Parse.implicitLocals method.access (repair method.descriptor)) []
      locals := by
    refine ⟨if method.access &&& 8 ≠ 0 then types.1 else .object "java/lang/Object" :: types.1, ?_⟩
    rw [Parse.implicitLocals, described]
    exact .pure _
  obtain ⟨locals, implicit⟩ := implicit
  have short : code.length < 4294967296 := by omega
  have body := reads_code implicit each depth storable.slots short (by omega)
  rw [set _ rfl rfl, ← same] at body
  have bodySmall : text.length < 4294967296 := by omega
  have head := reads_namedPart (Pool.reread_text named) bodySmall
  rw [Ascii.repair (by decide)] at head
  have attributes : Reads (Parse.methodAttributes larger.reread 1
      { access := method.access, name := repair method.name, descriptor := repair method.descriptor })
      (u2 i.toNat ++ u4 text.length ++ text) (method.reread code analysis) := by
    refine reads_isExhausted.bind (head.bind_end ?_)
    refine reads_isExhausted.bind ?_
    exact (body.nested.within _).bind (.pure _)
  simp only [List.append_assoc] at attributes ⊢
  refine (reads_index method.access).bind ((reads_index j).bind ?_)
  refine (reads_lookUp (Pool.reread_text nameNamed)).bind ((reads_index k).bind ?_)
  refine (reads_lookUp (Pool.reread_text descriptorNamed)).bind ?_
  refine (reads_u2 (by decide : 1 < 65536)).bind ?_
  exact attributes.bind_end (reads_checkEnd.bind_end (.pure _))

end Method

/-- The bytes that a type takes. -/
def VType.width : VType → Nat
  | .top | .int => 1
  | .object _ | .uninit _ => 3

/-- The bytes that a frame takes. -/
def Frame.width (frame : Frame) : Nat :=
  7 + ((frame.locals ++ frame.stack).map VType.width).sum

namespace Writing

variable {α β : Type}

/-- Writing whose result has a property, whatever the pool holds. -/
def Ensures (writing : Writing α) (P : α → Prop) : Prop := ∀ pool : Pool, P (writing.run pool).1

theorem Ensures.pure {P : α → Prop} {value : α} (holds : P value) : Ensures (pure value) P :=
  fun _ => holds

theorem Ensures.bind {writing : Writing α} {next : α → Writing β} {P : α → Prop} {Q : β → Prop}
    (first : Ensures writing P) (second : ∀ value, P value → Ensures (next value) Q) :
    Ensures (writing >>= next) Q :=
  fun pool => second _ (first pool) _

theorem length_utf8 (text : Bytes) : Ensures (utf8 text) fun written => written.length = 2 :=
  fun _ => rfl

theorem length_type (type : VType) :
    Ensures (Writing.type type) fun written => written.length = type.width := by
  cases type with
  | top | int | uninit => exact .pure rfl
  | object name =>
    have two : Ensures (classRef name) fun written => written.length = 2 := fun _ => rfl
    refine two.bind fun index length => .pure ?_
    rw [List.length_cons, length, VType.width]

theorem length_types (list : List VType) :
    Ensures (types list) fun written => written.length = 2 + (list.map VType.width).sum := by
  have each : Ensures (list.mapM Writing.type) fun parts =>
      parts.flatten.length = (list.map VType.width).sum := by
    induction list with
    | nil => exact .pure rfl
    | cons type rest ih =>
      rw [List.mapM_cons]
      refine (length_type type).bind fun first here => ih.bind fun others later => .pure ?_
      rw [List.flatten_cons, List.length_append, here, later, List.map_cons, List.sum_cons]
  refine each.bind fun parts length => .pure ?_
  rw [List.length_append, length]
  rfl

theorem length_frames (list : List Frame) (previous : Option Nat) :
    Ensures (frames previous list) fun parts =>
      parts.flatten.length = (list.map Frame.width).sum := by
  induction list generalizing previous with
  | nil => exact .pure rfl
  | cons frame rest ih =>
    rw [frames_cons]
    refine (length_types frame.locals).bind fun locals first => ?_
    refine (length_types frame.stack).bind fun stack second => ?_
    refine (ih (some frame.offset)).bind fun parts later => .pure ?_
    have two : (u2 (distanceFrom previous frame.offset)).length = 2 := rfl
    simp only [List.flatten_cons, List.length_append, List.length_cons, first, second, later, two,
      List.map_cons, List.sum_cons, Frame.width, List.map_append, List.sum_append]
    omega

theorem length_namedPart {name : Bytes} {body : Writing Bytes} {bound : Nat}
    (short : Ensures body fun text => text.length ≤ bound) :
    Ensures (namedPart name body) fun text => text.length ≤ 6 + bound := by
  refine short.bind fun text small => (length_utf8 name).bind fun index two => .pure ?_
  have four : (u4 text.length).length = 4 := rfl
  rw [List.length_append, List.length_append, two, four]
  omega

theorem length_partUnless {absent : Bool} {name : Bytes} {body : Writing Bytes} {bound : Nat}
    (short : Ensures body fun text => text.length ≤ bound) :
    Ensures (partUnless absent name body) fun parts => parts.flatten.length ≤ 6 + bound := by
  cases absent with
  | true => exact .pure (Nat.zero_le _)
  | false =>
    refine (length_namedPart short).bind fun text small => .pure ?_
    rwa [List.flatten_singleton]

end Writing

namespace Method

open Writing

/-- The length of a written method, up to attributes that it may lack. -/
theorem length_write (method : Method) (code : Bytes) (analysis : Analysis) :
    Ensures (method.write code analysis) fun text => text.length ≤
      42 + code.length + 4 * method.lines.size + (analysis.frames.map Frame.width).sum := by
  have table : Ensures (lineTable method.lines) fun text =>
      text.length ≤ 2 + 4 * method.lines.size := by
    refine .pure ?_
    have each : (method.lines.toList.flatMap fun entry => u2 entry.pc ++ u2 entry.line).length =
        4 * method.lines.size := by
      rw [List.length_flatMap, ← Array.length_toList]
      induction method.lines.toList with
      | nil => rfl
      | cons entry rest ih =>
        have four : (u2 entry.pc ++ u2 entry.line).length = 4 := rfl
        rw [List.map_cons, List.sum_cons, ih, four, List.length_cons]
        omega
    rw [List.length_append, each]
    exact Nat.le_refl _
  have map : Ensures (stackMap analysis.frames) fun text =>
      text.length ≤ 2 + (analysis.frames.map Frame.width).sum := by
    refine (length_frames analysis.frames none).bind fun parts length => .pure ?_
    rw [List.length_append, length]
    exact Nat.le_refl _
  have parts : Ensures (method.attributes analysis.frames) fun parts => parts.flatten.length ≤
      16 + 4 * method.lines.size + (analysis.frames.map Frame.width).sum := by
    rw [attributes_eq]
    refine (length_partUnless table).bind fun lines first => ?_
    refine (length_partUnless map).bind fun maps second => .pure ?_
    rw [List.flatten_append, List.length_append]
    omega
  refine parts.bind fun parts few => ?_
  refine (length_utf8 method.name).bind fun name first => ?_
  refine (length_utf8 method.descriptor).bind fun descriptor second => ?_
  have body : Ensures (pure (codeBody analysis.maxStack method.maxLocals code parts))
      fun text => text.length ≤ 12 + code.length + parts.flatten.length :=
    .pure (Nat.le_of_eq (length_codeBody ..))
  refine (length_namedPart body).bind fun part small => .pure ?_
  have head : ∀ n, (u2 n).length = 2 := fun _ => rfl
  simp only [List.length_append, first, second, head]
  omega

end Method

end Minilang.ClassFile
