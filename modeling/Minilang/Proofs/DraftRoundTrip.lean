import Mathlib
import Minilang.Proofs.Descriptors
import Minilang.Proofs.WrittenClass

/-! Classes that are built edit by edit. Every edit keeps what the format relies on: texts that
can be stored, lines and parameters whose numbers fit. So whatever was built is read back as it
was, and its frames are those of the analysis. -/

namespace Minilang.ClassFile

def VType.texts : VType → List Bytes
  | .object name => [name]
  | _ => []

/-- A type whose offset, if it has one, fits into two bytes. -/
def VType.Storable (type : VType) : Prop := ∀ offset, type = .uninit offset → offset < 65536

namespace Draft

/-- One thing done to a class under construction. -/
inductive Edit where
  | method (access : UInt16) (name descriptor : Bytes) (init : List VType)
  /-- A step of the method with a number. -/
  | step (number : Nat) (step : Step)
  | intern (request : Request)

/-- A step that makes no sense, or is for a method that is not there, changes nothing. -/
def edit (draft : Draft) : Edit → Draft
  | .method access name descriptor init =>
      { draft with methods := draft.methods.push (.make access name descriptor init) }
  | .step number step =>
      match draft.methods[number]? with
      | none => draft
      | some method =>
          match method.step draft.pool step with
          | .error _ => draft
          | .ok (method, pool) =>
              { draft with pool, methods := draft.methods.setIfInBounds number method }
  | .intern request => { draft with pool := (request.run draft.pool).2 }

def edits (draft : Draft) (list : List Edit) : Draft := list.foldl edit draft

def Edit.texts : Edit → List Bytes
  | .method _ name descriptor init => name :: descriptor :: init.flatMap VType.texts
  | .step _ s => s.request?.toList.flatMap Request.texts
  | .intern request => request.texts

/-- A method that is added has a readable descriptor and parameters that can be stored. -/
def Edit.Sensible : Edit → Prop
  | .method _ _ descriptor init =>
      (∃ types, methodType descriptor = .ok types) ∧ ∀ type ∈ init, type.Storable
  | .step .. | .intern _ => True

end Draft

def VType.Encodable (type : VType) : Prop := ∀ text ∈ type.texts, ClassFile.Encodable text

def Pool.Encodable (pool : Pool) : Prop :=
  ∀ text, .utf8 text ∈ pool.entries.toList → ClassFile.Encodable text

namespace Pool.Encodable

variable {pool : Pool}

theorem run (encodable : pool.Encodable) (request : Request)
    (texts : ∀ text ∈ request.texts, ClassFile.Encodable text) :
    (request.run pool).2.Encodable := by
  intro text member
  rcases Request.mem_run member with before | new
  · exact encodable text before
  · exact texts text new

theorem before {larger : Pool} (encodable : larger.Encodable) (extends_ : pool.Extends larger) :
    pool.Encodable :=
  fun text member => encodable text (extends_.entries.subset member)

theorem get (encodable : pool.Encodable) {i : UInt16} {text : Bytes}
    (found : pool.get i = .ok (.utf8 text)) : ClassFile.Encodable text :=
  encodable text (List.mem_of_getElem? (Pool.get_eq_ok.mp found).2)

theorem member (encodable : pool.Encodable) {i : UInt16} {ref : MemberRef}
    (found : pool.member i = .ok ref) :
    ClassFile.Encodable ref.owner ∧ ClassFile.Encodable ref.descriptor := by
  obtain ⟨_, _, _, _, _, -, -, ⟨_, -, named⟩, -, -, descriptor⟩ := Pool.member_eq_ok.mp found
  exact ⟨encodable.get named, encodable.get descriptor⟩

theorem short (encodable : pool.Encodable) : pool.Short :=
  fun text member => (encodable text member).short

theorem reread (encodable : pool.Encodable) : pool.reread.entries = pool.entries := by
  rw [← Array.toList_inj, Pool.reread_entries]
  conv => rhs; rw [← List.map_id pool.entries.toList]
  refine List.map_congr_left fun constant member => ?_
  cases constant with
  | utf8 text => rw [Constant.reread, (encodable text member).repair, id_eq]
  | integer | classRef | string | field | method | interfaceMethod | nameAndType => rfl

end Pool.Encodable

/-- What edits keep in a method. -/
structure Method.Fit (method : Method) : Prop where
  name : Encodable method.name
  descriptor : Encodable method.descriptor
  described : ∃ types, methodType method.descriptor = .ok types
  storable : ∀ type ∈ method.init, type.Storable
  named : ∀ type ∈ method.init, type.Encodable
  room : method.init.length ≤ method.maxLocals
  lines : ∀ entry ∈ method.lines.toList, entry.Storable

namespace Method

/-- Only a line step changes the lines of a method. -/
theorem step_lines {method after : Method} {pool next : Pool} {s : Step}
    (stepped : method.step pool s = .ok (after, next)) :
    (∀ number, s ≠ .line number) ∧ after.lines = method.lines ∧ after.lastLine = method.lastLine ∨
      ∃ number, s = .line number ∧ after = method.addLine number := by
  cases s with
  | insn | nops | push | classOperand | fieldOperand | methodOperand =>
    simp only [step, Except.ok.injEq, Prod.mk.injEq] at stepped
    obtain ⟨rfl, -⟩ := stepped
    exact .inl ⟨by rintro _ ⟨⟩, rfl, rfl⟩
  | localVar op slot =>
    simp only [step] at stepped
    split at stepped
    · cases stepped
    · split at stepped <;> cases stepped
      exact .inl ⟨by rintro _ ⟨⟩, rfl, rfl⟩
  | jump op label | mark label =>
    simp only [step] at stepped
    split at stepped <;> cases stepped
    exact .inl ⟨by rintro _ ⟨⟩, rfl, rfl⟩
  | line number =>
    cases stepped
    exact .inr ⟨number, rfl, rfl⟩

theorem addLine_lines {method : Method} (storable : ∀ entry ∈ method.lines.toList, entry.Storable)
    (number : Int) : ∀ entry ∈ (method.addLine number).lines.toList, entry.Storable := by
  unfold addLine
  split
  · exact storable
  next positive =>
    dsimp only
    split
    · exact storable
    next inside =>
      have fresh : LineEntry.Storable ⟨method.offset, number.toNat⟩ := by
        constructor <;> dsimp only [offset] at * <;> omega
      split
      · intro entry member
        rw [Array.toList_push, Array.toList_pop] at member
        rcases List.mem_append.mp member with before | new
        · exact storable entry (List.mem_of_mem_dropLast before)
        · rw [List.mem_singleton.mp new]
          exact fresh
      · intro entry member
        rw [Array.toList_push] at member
        rcases List.mem_append.mp member with before | new
        · exact storable entry before
        · rw [List.mem_singleton.mp new]
          exact fresh

theorem Fit.step {method after : Method} {pool next : Pool} {s : Step} (fit : method.Fit)
    (stepped : method.step pool s = .ok (after, next)) : after.Fit := by
  obtain ⟨-, did⟩ := step_did stepped
  obtain ⟨-, name, descriptor, init⟩ := did.signature
  have lines : ∀ entry ∈ after.lines.toList, entry.Storable := by
    rcases step_lines stepped with ⟨-, same, -⟩ | ⟨number, -, rfl⟩
    · rw [same]
      exact fit.lines
    · exact addLine_lines fit.lines number
  have slots := did.maxLocals
  have room := fit.room
  exact
    { name := name ▸ fit.name
      descriptor := descriptor ▸ fit.descriptor
      described := descriptor ▸ fit.described
      storable := init ▸ fit.storable
      named := init ▸ fit.named
      room := by
        rw [init]
        omega
      lines }

theorem Fit.tabled {method : Method} (fit : method.Fit) (few : method.lines.size ≤ 65535) :
    method.Tabled where
  room := fit.room
  lines := fit.lines
  fewLines := few
  described := fit.descriptor.repair.symm ▸ fit.described

end Method

namespace Draft

/-- What edits keep in a draft. -/
structure Fit (draft : Draft) : Prop where
  sound : draft.pool.Sound
  texts : draft.pool.Encodable
  methods : ∀ method ∈ draft.methods, method.Fit

theorem Fit.edit {draft : Draft} (fit : draft.Fit) {edit : Edit} (sensible : edit.Sensible)
    (texts : ∀ text ∈ edit.texts, Encodable text) : (draft.edit edit).Fit := by
  cases edit with
  | method access name descriptor init =>
    refine ⟨fit.sound, fit.texts, fun method member => ?_⟩
    rcases Array.mem_push.mp member with before | rfl
    · exact fit.methods method before
    · simp only [Edit.texts, List.mem_cons, forall_eq_or_imp, List.mem_flatMap,
        forall_exists_index, and_imp] at texts
      exact
        { name := texts.1
          descriptor := texts.2.1
          described := sensible.1
          storable := sensible.2
          named := fun type known text inside => texts.2.2 text type known inside
          room := Nat.le_refl _
          lines := fun _ member => absurd member List.not_mem_nil }
  | step number step =>
    simp only [Draft.edit]
    split
    · exact fit
    next method present =>
      split
      · exact fit
      next after pool stepped =>
        have here := fit.methods method (Array.mem_of_getElem? present)
        obtain ⟨rfl, -⟩ := Method.step_did stepped
        rw [Step.poolAfter_eq] at stepped ⊢
        have grown : (((step.request?.map fun r => (r.run draft.pool).2).getD draft.pool)).Sound ∧
            (((step.request?.map fun r => (r.run draft.pool).2).getD draft.pool)).Encodable := by
          cases asks : step.request? with
          | none => exact ⟨fit.sound, fit.texts⟩
          | some request =>
            refine ⟨request.interns.sound _ fit.sound, fit.texts.run request fun text member => ?_⟩
            exact texts text (by simp [Edit.texts, asks, member])
        refine ⟨grown.1, grown.2, fun other member => ?_⟩
        rcases Array.mem_or_eq_of_mem_setIfInBounds member with before | rfl
        · exact fit.methods other before
        · exact here.step stepped
  | intern request =>
    exact ⟨request.interns.sound _ fit.sound, fit.texts.run request texts, fit.methods⟩

theorem Fit.edits {draft : Draft} (fit : draft.Fit) {list : List Edit}
    (sensible : ∀ edit ∈ list, edit.Sensible)
    (texts : ∀ text ∈ list.flatMap Edit.texts, Encodable text) : (draft.edits list).Fit := by
  induction list generalizing draft with
  | nil => exact fit
  | cons edit rest ih =>
    obtain ⟨here, later⟩ := List.forall_mem_cons.mp sensible
    rw [List.flatMap_cons] at texts
    obtain ⟨first, others⟩ := List.forall_mem_append.mp texts
    exact ih (fit.edit here first) later others

end Draft

private theorem encodable_string : Encodable "java/lang/String" := by decide +kernel

private theorem encodable_attributes : Encodable "LineNumberTable" ∧ Encodable "StackMapTable" ∧
    Encodable "Code" ∧ Encodable "SourceFile" := by decide +kernel

theorem VType.Described.storable {type : VType} (described : type.Described) : type.Storable := by
  rintro offset rfl
  rcases described with wrong | ⟨name, wrong⟩ <;> cases wrong

namespace Method

variable {method : Method} {pool : Pool} {code : Bytes} {analysis : Analysis}

/-- All types in the frames of an analysis have a property of the parameters that instructions
give to the types they make. -/
theorem Finished.frame_types (finished : method.Finished pool code analysis) {P : VType → Prop} (top : P .top)
    (init : ∀ type ∈ method.init, P type)
    (made : ∀ insn ∈ analysis.body.insns, TypesMade P pool insn.offset) :
    ∀ frame ∈ analysis.frames, ∀ type ∈ frame.locals ++ frame.stack, P type := by
  intro frame member type found
  obtain ⟨types, known, -, locals, stack⟩ := Analysis.mem_frames member
  have each := analyze_each finished.analyzed top init made types known
  rw [List.mem_append, locals, stack] at found
  rcases found with found | found
  · exact each.locals type (Array.mem_toList_iff.mp (mem_trimTop found))
  · exact each.stack type (List.mem_reverse.mp found)

/-- The offsets in the frames of a method lie inside its code or belong to its parameters. -/
theorem Fit.frame_offsets (fit : method.Fit) (finished : method.Finished pool code analysis) :
    ∀ frame ∈ analysis.frames, ∀ type ∈ frame.locals ++ frame.stack, type.Storable := by
  refine finished.frame_types nofun fit.storable fun insn known => ?_
  have short := (resolve_length finished.resolved).2
  have below : insn.offset < code.length :=
    (analyze_tiles finished.analyzed).ascending.2.1 insn (Array.mem_toList_iff.mpr known)
  exact
    { int := nofun
      string := nofun
      raw := by
        rintro offset ⟨⟩
        omega
      owner := nofun
      field := fun _ _ _ _ described => (fieldType_described described).storable
      result := fun _ _ _ _ _ described => (methodType_described described).storable }

/-- The classes in the frames of a method can be stored: they are parameters, owners of members
or parts of descriptors. -/
theorem Fit.frame_types (fit : method.Fit) (encodable : pool.Encodable)
    (finished : method.Finished pool code analysis) :
    ∀ frame ∈ analysis.frames, ∀ type ∈ frame.locals ++ frame.stack, type.Encodable := by
  have object : ∀ {name : Bytes}, Encodable name → (VType.object name).Encodable := by
    intro name storable text member
    rw [List.mem_singleton.mp member]
    exact storable
  refine finished.frame_types (fun _ member => absurd member List.not_mem_nil) fit.named fun _ _ => ?_
  exact
    { int := fun _ member => absurd member List.not_mem_nil
      string := object encodable_string
      raw := fun _ member => absurd member List.not_mem_nil
      owner := fun _ _ found => object (encodable.member found).1
      field := by
        intro _ ref type found described
        cases type with
        | object name => exact object (fieldType_encodable (encodable.member found).2 described)
        | top | int | uninit => exact fun _ member => absurd member List.not_mem_nil
      result := by
        intro _ ref params type found described
        cases type with
        | object name => exact object (methodType_encodable (encodable.member found).2 described)
        | top | int | uninit => exact fun _ member => absurd member List.not_mem_nil }

theorem Fit.write (fit : method.Fit) (encodable : pool.Encodable)
    (finished : method.Finished pool code analysis) :
    ((method.write code analysis).run pool).2.Encodable := by
  obtain ⟨lines, maps, body, -⟩ := encodable_attributes
  have kept : ∀ r : Request, (∀ text ∈ r.texts, Encodable text) → ∀ pool : Pool,
      pool.Encodable → (r.run pool).2.Encodable :=
    fun r texts pool encodable => encodable.run r texts
  refine keeps_write kept code ?_ ?_ pool encodable
  · intro r member
    simp only [texts, List.mem_cons, List.not_mem_nil, or_false] at member
    rcases member with rfl | rfl | rfl | rfl | rfl <;>
      simp [Request.texts, lines, maps, body, fit.name, fit.descriptor]
  · intro frame member type inside r asks
    have encodable := fit.frame_types encodable finished frame member type inside
    cases type with
    | object name =>
      cases asks
      exact encodable
    | top | int | uninit => cases asks

theorem finishAll_encodable {methods : List Method} (fit : ∀ method ∈ methods, method.Fit)
    {last : Pool} {done parts : List Bytes} (encodable : pool.Encodable)
    (finished : finishAll methods pool done = .ok (parts, last)) : last.Encodable := by
  induction methods generalizing pool done with
  | nil =>
    cases finished
    exact encodable
  | cons method rest ih =>
    obtain ⟨here, others⟩ := List.forall_mem_cons.mp fit
    rw [finishAll] at finished
    split at finished
    · cases finished
    next text next one =>
      obtain ⟨code, analysis, first, written⟩ := finish_eq_ok.mp one
      refine ih others ?_ finished
      have grown := here.write encodable first
      rwa [← written] at grown

/-- What a method is read back as: its code with the frames and the depth that the analysis
finds. -/
def ReadsBack (pool : Pool) (method : Method) (info : MethodInfo) : Prop :=
  ∃ code analysis, method.resolve = .ok code ∧
    analyze code pool method.init method.maxLocals = .ok analysis ∧
    info =
      { access := method.access, name := method.name, descriptor := method.descriptor
        code := some
          { maxStack := analysis.maxStack, maxLocals := method.maxLocals, bytes := code
            lines := method.lines.toList, frames := analysis.frames } }

theorem Fit.readsBack (fit : method.Fit) (encodable : pool.Encodable) {info : MethodInfo}
    (read : method.ReadAs pool info) : method.ReadsBack pool info := by
  obtain ⟨before, code, analysis, extends_, finished, rfl⟩ := read
  have names := fit.frame_types (encodable.before extends_) finished
  have offsets := fit.frame_offsets finished
  have frames : analysis.frames.map Frame.reread = analysis.frames := by
    conv => rhs; rw [← List.map_id analysis.frames]
    refine List.map_congr_left fun frame member => ?_
    have same : ∀ list ⊆ frame.locals ++ frame.stack, list.map VType.reread = list := by
      intro list inside
      conv => rhs; rw [← List.map_id list]
      refine List.map_congr_left fun type known => ?_
      have named := names frame member type (inside known)
      have small := offsets frame member type (inside known)
      cases type with
      | object name => rw [VType.reread, (named name List.mem_cons_self).repair, id_eq]
      | uninit offset => rw [VType.reread, Nat.mod_eq_of_lt (small offset rfl), id_eq]
      | top | int => rfl
    rw [Frame.reread, same _ (by simp), same _ (by simp), id_eq]
  have analyzed := analyze_kept finished.analyzed fun _ _ _ _ rule => rule.extend extends_
  refine ⟨code, analysis, finished.resolved, analyzed, ?_⟩
  rw [reread, fit.name.repair, fit.descriptor.repair, frames]

end Method

namespace Draft

/-- A class that is read as it was written: with the constants of its finished pool, and method by
method with what the analysis finds. -/
def ReadsBack (draft : Draft) (bytes : Bytes) : Prop :=
  ∃ cls, Class.parse bytes = .ok cls ∧ cls.major = draft.major ∧ cls.access = draft.access ∧
    cls.name = draft.name ∧ cls.super = draft.super ∧ cls.sourceFile = draft.sourceFile ∧
    cls.pool.entries = draft.finishedPool.entries ∧
    List.Forall₂ (Method.ReadsBack draft.finishedPool) draft.methods.toList cls.methods

theorem Fit.finishedPool {draft : Draft} (fit : draft.Fit) (name : Encodable draft.name)
    (super : Encodable draft.super) (source : Encodable draft.sourceFile) {bytes : Bytes}
    (written : draft.bytes = .ok bytes) : draft.finishedPool.Encodable := by
  obtain ⟨pool, finished, last, -, -⟩ := bytes_eq_ok written
  have self : (draft.pool.classRef draft.name).2.Encodable :=
    fit.texts.run (.className draft.name) (by simpa [Request.texts] using name)
  have named : draft.namedPool.Encodable :=
    self.run (.className draft.super) (by simpa [Request.texts] using super)
  have methods := Method.finishAll_encodable
    (fun method member => fit.methods method (Array.mem_toList_iff.mp member)) named finished
  rw [last, sourcePart]
  split
  · exact methods
  · have key : (pool.utf8 "SourceFile").2.Encodable :=
      methods.run (.text "SourceFile")
        (by simpa [Request.texts] using encodable_attributes.2.2.2)
    exact key.run (.text draft.sourceFile) (by simpa [Request.texts] using source)

theorem Fit.readsBack {draft : Draft} (fit : draft.Fit) (name : Encodable draft.name)
    (super : Encodable draft.super) (source : Encodable draft.sourceFile)
    (fewMethods : draft.methods.size ≤ 65535)
    (fewLines : ∀ method ∈ draft.methods, method.lines.size ≤ 65535) {bytes : Bytes}
    (written : draft.bytes = .ok bytes)
    (small : ∀ part ∈ draft.finishedMethods, part.length < 4294967296) :
    draft.ReadsBack bytes := by
  have encodable := fit.finishedPool name super source written
  obtain ⟨infos, each, parsed⟩ := parse_bytes fit.sound
    (fun method member => (fit.methods method member).tabled (fewLines method member)) fewMethods
    written encodable.short small
  refine ⟨_, parsed, rfl, rfl, name.repair, super.repair, source.repair, encodable.reread, ?_⟩
  have both := (List.forall₂_and_left _ _).mpr
    ⟨fun method member => fit.methods method (Array.mem_toList_iff.mp member), each⟩
  exact both.imp fun method info known => known.1.readsBack encodable known.2

def blank (major access : UInt16) (name super sourceFile : Bytes) : Draft :=
  { major, access, name, super, sourceFile }

theorem edits_names (draft : Draft) (list : List Edit) :
    (draft.edits list).name = draft.name ∧ (draft.edits list).super = draft.super ∧
      (draft.edits list).sourceFile = draft.sourceFile := by
  induction list generalizing draft with
  | nil => exact ⟨rfl, rfl, rfl⟩
  | cons edit rest ih =>
    obtain ⟨name, super, source⟩ := ih (draft.edit edit)
    have kept : (draft.edit edit).name = draft.name ∧ (draft.edit edit).super = draft.super ∧
        (draft.edit edit).sourceFile = draft.sourceFile := by
      cases edit with
      | method | intern => exact ⟨rfl, rfl, rfl⟩
      | step number s =>
        simp only [Draft.edit]
        split
        · exact ⟨rfl, rfl, rfl⟩
        · split <;> exact ⟨rfl, rfl, rfl⟩
    exact ⟨name.trans kept.1, super.trans kept.2.1, source.trans kept.2.2⟩

/-- Round trip: a class that was built by any edits with texts that can be stored, and that can be
written, is read back as it was built. -/
theorem edits_read_back (major access : UInt16) (name super sourceFile : Bytes) (list : List Edit)
    (texts : ∀ text ∈ name :: super :: sourceFile :: list.flatMap Edit.texts, Encodable text)
    (sensible : ∀ edit ∈ list, edit.Sensible) {draft : Draft}
    (built : draft = (blank major access name super sourceFile).edits list)
    (fewMethods : draft.methods.size ≤ 65535)
    (fewLines : ∀ method ∈ draft.methods, method.lines.size ≤ 65535) {bytes : Bytes}
    (written : draft.bytes = .ok bytes)
    (small : ∀ part ∈ draft.finishedMethods, part.length < 4294967296) :
    draft.ReadsBack bytes := by
  subst built
  simp only [List.mem_cons, forall_eq_or_imp] at texts
  obtain ⟨selfText, superText, sourceText, others⟩ := texts
  have start : (blank major access name super sourceFile).Fit :=
    ⟨Pool.sound_empty, fun _ member => absurd member List.not_mem_nil,
      fun _ member => absurd member (Array.not_mem_empty _)⟩
  have fit := start.edits sensible others
  obtain ⟨sameName, sameSuper, sameSource⟩ :=
    edits_names (blank major access name super sourceFile) list
  exact fit.readsBack (sameName ▸ selfText) (sameSuper ▸ superText) (sameSource ▸ sourceText)
    fewMethods fewLines written small

/-- A method that jumps to its return: its only frame holds its parameter. -/
def jumpEdits (descriptor : Bytes) (param : VType) : List Edit :=
  [.method 9 "f" descriptor [param], .step 0 (.line 3), .step 0 (.jump .goto 0), .step 0 (.mark 0),
    .step 0 (.insn .ret)]

def jumpDraft (descriptor : Bytes) (param : VType) : Draft :=
  (blank 52 33 "A" "B" "a").edits (jumpEdits descriptor param)

def jumpMethod (descriptor : Bytes) (param : VType) : Method :=
  { access := 9, name := "f", descriptor, init := [param], code := #[167, 0, 0, 177]
    jumps := #[⟨0, 0⟩], labels := Std.HashMap.insert {} 0 3, lines := #[⟨0, 3⟩], maxLocals := 1
    lastLine := 3 }

theorem jumpDraft_eq (descriptor : Bytes) (param : VType) :
    jumpDraft descriptor param =
      { blank 52 33 "A" "B" "a" with methods := #[jumpMethod descriptor param] } := by
  have branch : Opcode.goto.isBranch = true := by decide
  have ops : Opcode.goto.byte = 167 ∧ Opcode.ret.byte = 177 := ⟨rfl, rfl⟩
  simp [jumpDraft, edits, jumpEdits, edit, Method.step, Method.make, Method.addLine, Method.emit,
    Method.offset, jumpMethod, blank, branch, ops]

private theorem jump_analyzed (pool : Pool) (param : VType) :
    ∃ analysis, analyze [167, 0, 3, 177] pool [param] 1 = .ok analysis ∧ analysis.maxStack = 0 ∧
      analysis.frames = [⟨3, trimTop [param], []⟩] := by
  let insns : Array Insn := #[{ offset := 0, op := .goto, arg := 3, length := 3 },
    { offset := 3, op := .ret, arg := 0, length := 1 }]
  let states : Array TypeState := #[⟨#[param], []⟩, ⟨#[param], []⟩]
  have decoded : decode [167, 0, 3, 177] = .ok insns := by decide +kernel
  have near : (Body.ofInsns insns).badBranch? = none := by cbv
  have settled : Flow.settle (Body.ofInsns insns) pool (2 * (1 + 1) + 1)
      (Flow.start insns ⟨#[param], []⟩) = .ok ⟨states.map some, 0, []⟩ := by cbv
  have reached : reachedAll (Body.ofInsns insns) (states.map some) = .ok states := by cbv
  have frames : Analysis.frames { body := Body.ofInsns insns, maxStack := 0, states } =
      [⟨3, trimTop [param], []⟩] := by cbv
  exact ⟨_, analyze_eq_ok.mpr ⟨insns, _, states, decoded, rfl, near, settled, reached, rfl⟩, rfl,
    frames⟩

def jumpRequests (descriptor : Bytes) (param : VType) : List Request :=
  .className "A" :: .className "B" :: .text "SourceFile" :: .text "a" ::
    ((jumpMethod descriptor param).texts ++ param.request?.toList)

theorem jump_written (descriptor : Bytes) (param : VType) :
    ∃ bytes, (jumpDraft descriptor param).bytes = .ok bytes ∧
      (jumpDraft descriptor param).finishedPool.Within (jumpRequests descriptor param) ∧
      ∀ part ∈ (jumpDraft descriptor param).finishedMethods, part.length < 4294967296 := by
  let draft := jumpDraft descriptor param
  let method := jumpMethod descriptor param
  let all := jumpRequests descriptor param
  obtain ⟨analysis, analyzed, depth, frames⟩ := jump_analyzed draft.namedPool param
  have same : draft = { blank 52 33 "A" "B" "a" with methods := #[method] } := jumpDraft_eq ..
  have finished : method.Finished draft.namedPool [167, 0, 3, 177] analysis :=
    ⟨by cbv, analyzed, depth ▸ Nat.zero_le _, (by decide : 1 ≤ 65535)⟩
  have room : (all.map Request.cost).sum < Pool.limit := by
    have cost : (all.map Request.cost).sum ≤ 13 := by
      cases param <;> simp [all, jumpRequests, Request.cost, Method.texts, VType.request?]
    exact Nat.lt_of_le_of_lt cost (by decide)
  have named : draft.namedPool.Within all := by
    rw [namedPool, same]
    exact ((Pool.within_empty all).classRef room _ (by simp [all, jumpRequests, blank])).classRef
      room _ (by simp [all, jumpRequests, blank])
  have asked : ∀ frame ∈ analysis.frames, ∀ type ∈ frame.locals ++ frame.stack,
      ∀ r, type.request? = some r → r ∈ all := by
    intro frame member type inside r asks
    rw [frames, List.mem_singleton] at member
    subst member
    have known := mem_trimTop ((List.append_nil _).subst inside)
    rw [List.mem_singleton] at known
    subst known
    simp [all, jumpRequests, asks]
  have texts : method.texts ⊆ all := fun r member => by simp [all, jumpRequests, method, member]
  have within := lastPool_within [167, 0, 3, 177] room named texts asked
    (by simp [all, jumpRequests]) (by rw [same]; simp [all, jumpRequests, blank])
  obtain ⟨last, parts, written⟩ := bytes_one (by rw [same]) finished within.fits
  refine ⟨_, written, last ▸ within, fun part member => ?_⟩
  rw [parts, List.mem_singleton] at member
  have length := method.length_write [167, 0, 3, 177] analysis draft.namedPool
  have few : method.lines.size = 1 := rfl
  have wide : (analysis.frames.map Frame.width).sum ≤ 10 := by
    rw [frames]
    cases param <;> simp [Frame.width, trimTop, VType.width]
  rw [member, methodPart]
  simp only [List.length_cons, List.length_nil] at length
  omega

/-- A class whose method takes an object is read back. -/
theorem jump_reads_back : ∃ bytes, (jumpDraft "(LB;)V" (.object "B")).bytes = .ok bytes ∧
    (jumpDraft "(LB;)V" (.object "B")).ReadsBack bytes := by
  obtain ⟨bytes, written, -, small⟩ := jump_written "(LB;)V" (.object "B")
  refine ⟨bytes, written, edits_read_back 52 33 "A" "B" "a" _ (by decide +kernel) ?_ rfl ?_ ?_
    written small⟩
  · intro edit member
    simp only [jumpEdits, List.mem_cons, List.not_mem_nil, or_false] at member
    rcases member with rfl | rfl | rfl | rfl | rfl
    · exact ⟨⟨_, rfl⟩, by simp [VType.Storable]⟩
    all_goals trivial
  · rw [← jumpDraft, jumpDraft_eq]
    decide
  · rw [← jumpDraft, jumpDraft_eq]
    simp [jumpMethod]

/-- A parameter with an offset of more than two bytes is not: the class is written, but the offset
in its frame loses its high bits. -/
theorem wide_offset_is_lost :
    (∀ text ∈ ("A" : Bytes) :: "B" :: "a" :: (jumpEdits "()V" (.uninit 70000)).flatMap Edit.texts,
      Encodable text) ∧
    (∃ types, methodType "()V" = .ok types) ∧
    (jumpDraft "()V" (.uninit 70000)).methods.size = 1 ∧
    (∀ method ∈ (jumpDraft "()V" (.uninit 70000)).methods, method.lines.size = 1) ∧
    ∃ bytes, (jumpDraft "()V" (.uninit 70000)).bytes = .ok bytes ∧
      ¬ (jumpDraft "()V" (.uninit 70000)).ReadsBack bytes := by
  obtain ⟨bytes, written, within, small⟩ := jump_written "()V" (.uninit 70000)
  have methods : (jumpDraft "()V" (.uninit 70000)).methods = #[jumpMethod "()V" (.uninit 70000)] := by
    rw [jumpDraft_eq]
  refine ⟨by decide +kernel, ⟨_, rfl⟩, by rw [methods]; rfl, by rw [methods]; simp [jumpMethod],
    bytes, written, ?_⟩
  have short : (jumpDraft "()V" (.uninit 70000)).finishedPool.Short := by
    have all : ∀ request ∈ jumpRequests "()V" (.uninit 70000), ∀ text ∈ request.texts,
        Encodable text := by decide +kernel
    intro text member
    obtain ⟨request, asked, inside⟩ := within.named text member
    exact (all request asked text inside).short
  have tabled : (jumpMethod "()V" (.uninit 70000)).Tabled := by
    refine ⟨by decide, by simp [jumpMethod, LineEntry.Storable], by decide, ?_⟩
    rw [jumpMethod, Ascii.repair (by decide +kernel)]
    exact ⟨_, rfl⟩
  have sound : (jumpDraft "()V" (.uninit 70000)).pool.Sound := by
    rw [jumpDraft_eq]
    exact Pool.sound_empty
  obtain ⟨infos, each, parsed⟩ := parse_bytes sound (by rw [methods]; simpa using tabled)
    (by rw [methods]; decide) written short small
  rintro ⟨cls, read, -, -, -, -, -, -, back⟩
  obtain rfl := Except.ok.inj (read.symm.trans parsed)
  rw [methods] at each back
  -- The frame that was read and the frame of the analysis.
  have resolved : (jumpMethod "()V" (.uninit 70000)).resolve = .ok [167, 0, 3, 177] := by cbv
  obtain ⟨info, rest, ⟨pool, code, analysis, -, finished, rfl⟩, -, rfl⟩ :=
    List.forall₂_cons_left_iff.mp each
  obtain ⟨⟨code', analysis', again, analyzed, same⟩, -⟩ := List.forall₂_cons.mp back
  obtain rfl := Except.ok.inj (resolved.symm.trans finished.resolved)
  obtain rfl := Except.ok.inj (resolved.symm.trans again)
  obtain ⟨first, found, -, frames⟩ := jump_analyzed pool (.uninit 70000)
  obtain rfl := Except.ok.inj (found.symm.trans finished.analyzed)
  obtain ⟨second, found, -, frames'⟩ :=
    jump_analyzed (jumpDraft "()V" (.uninit 70000)).finishedPool (.uninit 70000)
  obtain rfl := Except.ok.inj (found.symm.trans analyzed)
  rw [Method.reread, frames, frames'] at same
  simp [Frame.reread, VType.reread, trimTop] at same

end Draft

end Minilang.ClassFile
