import Minilang.Proofs.AnalysisFrames
import Minilang.Proofs.ClassRoundTrip
import Minilang.Proofs.Results
import Minilang.Proofs.StepEncoding

/-! A class that was written is read back. Methods are finished one after another while the pool
grows, and each of them is read with the pool that there is at the end. -/

namespace Minilang.ClassFile

theorem mem_trimTop {list : List VType} {type : VType} (member : type ∈ trimTop list) :
    type ∈ list := by
  rw [trimTop, List.mem_reverse] at member
  exact List.mem_reverse.mp (List.dropWhile_subset _ member)

namespace Method

theorem patch_size {labels : Std.HashMap Nat Nat} {jumps : List Jump} {code patched : Array UInt8}
    (done : patch labels jumps code = .ok patched) : patched.size = code.size := by
  induction jumps generalizing code with
  | nil =>
    cases done
    rfl
  | cons jump rest ih =>
    rw [patch] at done
    split at done
    · cases done
    next target _ =>
      dsimp only at done
      split at done
      · cases done
      · rw [ih done, Array.size_setIfInBounds, Array.size_setIfInBounds]

theorem resolve_length {method : Method} {code : Bytes} (resolved : method.resolve = .ok code) :
    code.length = method.code.size ∧ code.length ≤ 65535 := by
  rw [resolve] at resolved
  split at resolved
  · cases resolved
  · cases outcome : patch method.labels method.jumps.toList method.code with
    | error fault =>
      rw [outcome] at resolved
      cases resolved
    | ok patched =>
      rw [outcome] at resolved
      cases resolved
      have same := patch_size outcome
      rw [Array.length_toList]
      omega

/-- The finished code of a method and the analysis that it is written with. -/
structure Finished (method : Method) (pool : Pool) (code : Bytes) (analysis : Analysis) : Prop where
  resolved : method.resolve = .ok code
  analyzed : analyze code pool method.init method.maxLocals = .ok analysis
  depth : analysis.maxStack ≤ 65535
  slots : method.maxLocals ≤ 65535

theorem finish_eq_ok {method : Method} {pool : Pool} {result : Bytes × Pool} :
    method.finish pool = .ok result ↔ ∃ code analysis, method.Finished pool code analysis ∧
      result = (method.write code analysis).run pool := by
  constructor
  · intro finished
    rw [finish] at finished
    split at finished
    · cases finished
    next code resolved =>
      split at finished
      · cases finished
      next analysis analyzed =>
        split at finished
        · cases finished
        next small =>
          cases finished
          exact ⟨code, analysis, ⟨resolved, analyzed, by omega, by omega⟩, rfl⟩
  · rintro ⟨code, analysis, finished, rfl⟩
    have small : ¬ (65535 < analysis.maxStack ∨ 65535 < method.maxLocals) := by
      have := finished.depth
      have := finished.slots
      omega
    simp only [finish, finished.resolved, finished.analyzed, if_neg small]

/-- A method whose lines and parameters the format can hold. -/
structure Tabled (method : Method) : Prop where
  room : method.init.length ≤ method.maxLocals
  lines : ∀ entry ∈ method.lines.toList, entry.Storable
  fewLines : method.lines.size ≤ 65535
  described : ∃ types, methodType (repair method.descriptor) = .ok types

/-- The numbers of a finished method fit into the format. -/
theorem Finished.storable {method : Method} {pool : Pool} {code : Bytes} {analysis : Analysis}
    (finished : method.Finished pool code analysis) (tabled : method.Tabled) :
    method.Storable analysis.frames := by
  have short := (resolve_length finished.resolved).2
  have slots := finished.slots
  have depth := finished.depth
  obtain ⟨ascending, few⟩ := analyze_frames_ascending finished.analyzed
  refine ⟨fun frame member => ?_, ascending, tabled.lines, ?_, by omega, by omega⟩
  · have inside := analyze_frame_inside finished.analyzed member
    obtain ⟨locals, stack⟩ := analyze_frame_small finished.analyzed member
    have room := tabled.room
    exact ⟨by omega, by omega, by omega⟩
  · have := tabled.fewLines
    omega

/-- What a method is read as when it was written before a pool was finished. -/
def ReadAs (last : Pool) (method : Method) (info : MethodInfo) : Prop :=
  ∃ pool code analysis, pool.Extends last ∧ method.Finished pool code analysis ∧
    info = method.reread code analysis

/-- Methods that were finished one after another are read back with every pool that the last of
them was written before. -/
theorem finishAll_reads {methods : List Method} (tabled : ∀ method ∈ methods, method.Tabled)
    {pool last : Pool} {done parts : List Bytes} (sound : pool.Sound)
    (finished : finishAll methods pool done = .ok (parts, last)) :
    last.Sound ∧ pool.Extends last ∧ ∃ texts infos, parts = done.reverse ++ texts ∧
      List.Forall₂ (ReadAs last) methods infos ∧
      ∀ larger, last.GrowsTo larger → (∀ text ∈ texts, text.length < 4294967296) →
        List.Forall₂ (Reads (Parse.method larger.reread)) texts infos := by
  induction methods generalizing pool done with
  | nil =>
    cases finished
    exact ⟨sound, .refl _, [], [], by simp, .nil, fun _ _ _ => .nil⟩
  | cons method rest ih =>
    obtain ⟨here, others⟩ := List.forall_mem_cons.mp tabled
    rw [finishAll] at finished
    split at finished
    · cases finished
    next text next one =>
      obtain ⟨code, analysis, first, written⟩ := finish_eq_ok.mp one
      obtain ⟨types, described⟩ := here.described
      have depth := first.depth
      obtain ⟨nextSound, grows, reads⟩ :=
        writes_write code (first.storable here) (by omega) described pool sound
      rw [← written] at nextSound grows reads
      obtain ⟨lastSound, more, texts, infos, split, each, readsRest⟩ := ih others nextSound finished
      refine ⟨lastSound, grows.trans more, text :: texts, method.reread code analysis :: infos,
        by simp [split], .cons ⟨pool, code, analysis, grows.trans more, first, rfl⟩ each, ?_⟩
      intro larger later small
      obtain ⟨short, shorter⟩ := List.forall_mem_cons.mp small
      exact .cons (reads larger (later.before more) short) (readsRest larger later shorter)

end Method

namespace Draft

def namedPool (draft : Draft) : Pool :=
  ((draft.pool.classRef draft.name).2.classRef draft.super).2

def sourcePart (draft : Draft) (pool : Pool) : List Bytes × Pool :=
  if draft.sourceFile.isEmpty then ([], pool)
  else
    let name := pool.utf8 "SourceFile"
    let value := name.2.utf8 draft.sourceFile
    ([u2 name.1.toNat ++ u4 2 ++ u2 value.1.toNat], value.2)

def finishedPool (draft : Draft) : Pool :=
  match Method.finishAll draft.methods.toList draft.namedPool [] with
  | .ok (_, pool) => (draft.sourcePart pool).2
  | .error _ => draft.namedPool

def finishedMethods (draft : Draft) : List Bytes :=
  match Method.finishAll draft.methods.toList draft.namedPool [] with
  | .ok (parts, _) => parts
  | .error _ => []

def around (draft : Draft) (pool : Pool) (methods attributes : List Bytes) : Bytes :=
  magic ++ u2 0 ++ u2 draft.major.toNat ++ pool.write ++ u2 draft.access.toNat ++
    u2 (draft.pool.classRef draft.name).1.toNat ++
    u2 ((draft.pool.classRef draft.name).2.classRef draft.super).1.toNat ++ u2 0 ++ u2 0 ++
    u2 methods.length ++ methods.flatten ++ u2 attributes.length ++ attributes.flatten

theorem bytes_eq (draft : Draft) :
    draft.bytes =
      match Method.finishAll draft.methods.toList draft.namedPool [] with
      | .error fault => .error fault
      | .ok (parts, pool) =>
          if (draft.sourcePart pool).2.overflowed then .error .poolOverflow
          else .ok (draft.around (draft.sourcePart pool).2 parts (draft.sourcePart pool).1) := by
  have named : draft.namedPool = ((draft.pool.classRef draft.name).2.classRef draft.super).2 := rfl
  unfold bytes
  rw [named]
  rcases self : draft.pool.classRef draft.name with ⟨i, first⟩
  rcases super : first.classRef draft.super with ⟨j, second⟩
  simp only [super, around, self]
  cases Method.finishAll draft.methods.toList second [] with
  | error fault => rfl
  | ok result =>
    obtain ⟨parts, pool⟩ := result
    simp only [sourcePart, ok_bind, throw_eq_error, error_bind]
    cases draft.sourceFile.isEmpty <;> rfl

theorem sourcePart_within (draft : Draft) {all : List Request} {pool : Pool}
    (room : (all.map Request.cost).sum < Pool.limit) (within : pool.Within all)
    (name : .text "SourceFile" ∈ all) (value : .text draft.sourceFile ∈ all) :
    (draft.sourcePart pool).2.Within all := by
  unfold sourcePart
  split
  · exact within
  · exact (within.utf8 room name).utf8 room value

section

variable {draft : Draft} {method : Method} {code : Bytes} {analysis : Analysis}

def methodPart (draft : Draft) (method : Method) (code : Bytes) (analysis : Analysis) :
    Bytes × Pool :=
  (method.write code analysis).run draft.namedPool

/-- The pool of a finished class with one method. -/
def lastPool (draft : Draft) (method : Method) (code : Bytes) (analysis : Analysis) : Pool :=
  (draft.sourcePart (draft.methodPart method code analysis).2).2

/-- What the pool of a class with one method is asked for. -/
theorem lastPool_within (code : Bytes) {all : List Request} (room : (all.map Request.cost).sum < Pool.limit)
    (named : draft.namedPool.Within all) (texts : method.texts ⊆ all)
    (asked : ∀ frame ∈ analysis.frames, ∀ type ∈ frame.locals ++ frame.stack,
      ∀ r, type.request? = some r → r ∈ all)
    (key : .text "SourceFile" ∈ all) (value : .text draft.sourceFile ∈ all) :
    (draft.lastPool method code analysis).Within all :=
  draft.sourcePart_within room
    (Method.keeps_write (fun _ member _ within => within.run room member) code texts asked
      draft.namedPool named) key value

theorem bytes_one (one : draft.methods = #[method])
    (finished : method.Finished draft.namedPool code analysis)
    (fits : (draft.lastPool method code analysis).overflowed = false) :
    draft.finishedPool = draft.lastPool method code analysis ∧
      draft.finishedMethods = [(draft.methodPart method code analysis).1] ∧
      draft.bytes = .ok (draft.around (draft.lastPool method code analysis)
        [(draft.methodPart method code analysis).1]
        (draft.sourcePart (draft.methodPart method code analysis).2).1) := by
  have all : Method.finishAll draft.methods.toList draft.namedPool [] =
      .ok ([(draft.methodPart method code analysis).1],
        (draft.methodPart method code analysis).2) := by
    have done := Method.finish_eq_ok.mpr ⟨code, analysis, finished, rfl⟩
    rw [one, methodPart]
    generalize (method.write code analysis).run draft.namedPool = result at done
    obtain ⟨part, pool⟩ := result
    simp only [Method.finishAll, done, List.reverse_cons, List.reverse_nil, List.nil_append]
  rw [lastPool] at fits ⊢
  refine ⟨?_, ?_, ?_⟩
  · simp only [finishedPool, all]
  · simp only [finishedMethods, all]
  · simp only [bytes_eq, all, fits, Bool.false_eq_true, if_false]

end

theorem bytes_eq_ok {draft : Draft} {bytes : Bytes} (written : draft.bytes = .ok bytes) :
    ∃ pool, Method.finishAll draft.methods.toList draft.namedPool [] =
        .ok (draft.finishedMethods, pool) ∧
      draft.finishedPool = (draft.sourcePart pool).2 ∧ draft.finishedPool.overflowed = false ∧
      bytes = draft.around draft.finishedPool draft.finishedMethods (draft.sourcePart pool).1 := by
  rw [bytes_eq] at written
  split at written
  · cases written
  next parts pool finished =>
    have last : draft.finishedPool = (draft.sourcePart pool).2 := by
      simp only [finishedPool, finished]
    have all : draft.finishedMethods = parts := by simp only [finishedMethods, finished]
    split at written
    · cases written
    next fits =>
      cases written
      refine ⟨pool, all ▸ finished, last, ?_, ?_⟩
      · rw [last]
        exact Bool.not_eq_true _ ▸ fits
      · rw [last, all]

variable {draft : Draft} {pool : Pool}

theorem namedPool_grows (sound : draft.pool.Sound) :
    draft.namedPool.Sound ∧ (draft.pool.classRef draft.name).2.Extends draft.namedPool := by
  have self := (Pool.interns_classRef draft.name).sound _ sound
  exact ⟨(Pool.interns_classRef draft.super).sound _ self,
    (Pool.interns_classRef draft.super).grows _ self⟩

theorem sourcePart_grows (draft : Draft) (sound : pool.Sound) :
    (draft.sourcePart pool).2.Sound ∧ pool.Extends (draft.sourcePart pool).2 := by
  rw [sourcePart]
  split
  · exact ⟨sound, .refl pool⟩
  · have named := (Pool.interns_utf8 "SourceFile").sound _ sound
    exact ⟨(Pool.interns_utf8 draft.sourceFile).sound _ named,
      ((Pool.interns_utf8 "SourceFile").grows _ sound).trans
        ((Pool.interns_utf8 draft.sourceFile).grows _ named)⟩

private theorem reads_sourceFile {i j : UInt16} {source : Bytes}
    (key : pool.get i = .ok (.utf8 "SourceFile")) (value : pool.get j = .ok (.utf8 source)) :
    Reads (Parse.classAttributes pool.reread 1 []) (u2 i.toNat ++ u4 2 ++ u2 j.toNat)
      (repair source) := by
  have length : (u2 j.toNat).length = 2 := rfl
  have small : (u2 j.toNat).length < 4294967296 := by rw [length]; decide
  have name := Pool.reread_text key
  rw [Ascii.repair (by decide)] at name
  have head := reads_namedPart name small
  rw [length] at head
  refine reads_isExhausted.bind (head.bind_end ?_)
  dsimp only
  rw [if_pos rfl]
  have found : pool.reread.text (word (j.toNat / 256).toUInt8 j.toNat.toUInt8).toUInt16 =
      .ok (repair source) := by
    rw [word_u2 j.toNat_lt]
    simpa using Pool.reread_text value
  exact (reads_lookUp found).bind_end (.pure _)

theorem reads_sourcePart (draft : Draft) (sound : pool.Sound)
    (fits : (draft.sourcePart pool).2.overflowed = false) :
    Reads (Parse.classAttributes (draft.sourcePart pool).2.reread (draft.sourcePart pool).1.length [])
      (draft.sourcePart pool).1.flatten (repair draft.sourceFile) := by
  have grows := (draft.sourcePart_grows sound).1
  by_cases empty : draft.sourceFile.isEmpty = true
  · rw [sourcePart, if_pos empty, List.isEmpty_iff.mp empty, Ascii.repair (by decide)]
    exact .pure _
  · have named := (Pool.interns_utf8 "SourceFile").sound _ sound
    have later := (Pool.interns_utf8 draft.sourceFile).grows _ named
    rw [sourcePart, if_neg empty] at fits grows ⊢
    have key := (Pool.interns_utf8 "SourceFile").stable _ _ sound grows later fits
    have value := (Pool.interns_utf8 draft.sourceFile).stable _ _ named grows (.refl _) fits
    dsimp only at fits grows key value ⊢
    rw [List.length_singleton, List.flatten_singleton]
    exact reads_sourceFile (Pool.get_of_intern grows fits key) (Pool.get_of_intern grows fits value)

private theorem reads_className {i : UInt16} {name : Bytes} (names : pool.NamesClass i name) :
    Reads (do Parse.lookUp (pool.reread.className (← Parse.index))) (u2 i.toNat) (repair name) :=
  (reads_index i).bind_end (reads_lookUp names.reread.className)

private theorem reads_cls {last : Pool} {methods attributes : List Bytes} {infos : List MethodInfo}
    (sound : last.Sound) (short : last.Short)
    (self : last.NamesClass (draft.pool.classRef draft.name).1 draft.name)
    (super : last.NamesClass ((draft.pool.classRef draft.name).2.classRef draft.super).1 draft.super)
    (few : methods.length ≤ 65535)
    (each : List.Forall₂ (Reads (Parse.method last.reread)) methods infos)
    (single : attributes.length ≤ 1)
    (source : Reads (Parse.classAttributes last.reread attributes.length []) attributes.flatten
      (repair draft.sourceFile)) :
    Reads Parse.cls (draft.around last methods attributes)
      { minor := 0, major := draft.major, access := draft.access, pool := last.reread
        name := repair draft.name, super := repair draft.super
        sourceFile := repair draft.sourceFile, methods := infos } := by
  have start : Reads Parse.u4 magic 0xCAFEBABE := by
    have same : u4 0xCAFEBABE = magic := by decide
    rw [← same]
    exact reads_u4 (by decide)
  have noInterfaces : Reads (Parse.bytes (2 * 0)) [] [] := reads_bytes []
  have noFields : Reads (Parse.items Parse.skipField 0 #[]) [] #[] := .pure #[]
  have methodsRead := reads_items each #[]
  rw [Array.empty_append] at methodsRead
  simp only [around, List.append_assoc]
  refine start.bind ?_
  simp only [ne_eq, not_true_eq_false, if_false]
  refine (reads_index 0).bind ((reads_index draft.major).bind ?_)
  refine ((reads_pool sound.small short).within _).bind ((reads_index draft.access).bind ?_)
  refine ((reads_className self).within _).bind (((reads_className super).within _).bind ?_)
  refine (reads_u2 (by decide : 0 < 65536)).bind ?_
  refine noInterfaces.bind ((reads_u2 (by decide : 0 < 65536)).bind ?_)
  refine noFields.bind ((reads_u2 (by omega)).bind ?_)
  refine methodsRead.bind ((reads_u2 (by omega)).bind ?_)
  exact source.bind_end (reads_checkEnd.bind_end (.pure _))

/-- A written class is read back, with the pool that there is at the end. -/
theorem parse_bytes {bytes : Bytes} (sound : draft.pool.Sound)
    (tabled : ∀ method ∈ draft.methods, method.Tabled) (few : draft.methods.size ≤ 65535)
    (written : draft.bytes = .ok bytes) (short : draft.finishedPool.Short)
    (small : ∀ part ∈ draft.finishedMethods, part.length < 4294967296) :
    ∃ infos, List.Forall₂ (Method.ReadAs draft.finishedPool) draft.methods.toList infos ∧
      Class.parse bytes = .ok
        { minor := 0, major := draft.major, access := draft.access
          pool := draft.finishedPool.reread, name := repair draft.name
          super := repair draft.super, sourceFile := repair draft.sourceFile
          methods := infos } := by
  obtain ⟨pool, finished, last, fits, rfl⟩ := bytes_eq_ok written
  obtain ⟨namedSound, named⟩ := namedPool_grows sound
  obtain ⟨methodsSound, grows, texts, infos, same, each, reads⟩ :=
    Method.finishAll_reads (fun method member => tabled method (Array.mem_toList_iff.mp member))
      namedSound finished
  obtain rfl : draft.finishedMethods = texts := same
  obtain ⟨finalSound, more⟩ := draft.sourcePart_grows methodsSound
  have source := draft.reads_sourcePart methodsSound (last ▸ fits)
  rw [← last] at finalSound more source
  have later := grows.trans more
  have self := Pool.names_of_classRef finalSound fits
    ((Pool.interns_classRef draft.name).stable _ _ sound finalSound (named.trans later) fits)
  have super := Pool.names_of_classRef finalSound fits
    ((Pool.interns_classRef draft.super).stable _ _
      ((Pool.interns_classRef draft.name).sound _ sound) finalSound later fits)
  have methodsRead := reads draft.finishedPool ⟨finalSound, more, fits⟩ small
  have count : draft.finishedMethods.length = draft.methods.size := by
    rw [methodsRead.length_eq, ← each.length_eq, Array.length_toList]
  have single : (draft.sourcePart pool).1.length ≤ 1 := by
    rw [sourcePart]
    split <;> simp
  have read := reads_cls finalSound short self super (by omega) methodsRead single source []
  rw [List.append_nil] at read
  refine ⟨infos, each.imp fun method info => ?_, by rw [Class.parse, read]; rfl⟩
  rintro ⟨before, code, analysis, grew, done, rfl⟩
  exact ⟨before, code, analysis, grew.trans more, done, rfl⟩

end Draft

end Minilang.ClassFile
