import Minilang.Proofs.AssembledCode

/-! Class files that end too early. A parser takes the same bytes whatever follows them, and when
some of them are missing it fails or runs past the end; since a class is only given when the reader
has not run past the end, every proper prefix of what a class was read from is refused. -/

namespace Minilang.ClassFile

/-- A reader that has run past the end. -/
def Reader.spent : Reader := { rest := [], exhausted := true }

/-- A parser that runs past the end, or fails, when bytes of a text are missing. -/
def Starves {α : Type} (parse : Parse α) (text : Bytes) : Prop :=
  ∀ short missing, text = short ++ missing → missing ≠ [] → ∀ value reader,
    parse.run { rest := short } = .ok (value, reader) → reader = .spent

/-- A parser whose result depends on the bytes that it takes alone, and that stays behind the end. -/
structure Steady {α : Type} (parse : Parse α) : Prop where
  spent : ∀ value reader, parse.run .spent = .ok (value, reader) → reader = .spent
  takes : ∀ text value reader, parse.run { rest := text } = .ok (value, reader) →
    reader = .spent ∨ ∃ used rest, text = used ++ rest ∧ reader = { rest } ∧
      Reads parse used value ∧ Starves parse used

theorem starves_nil {α : Type} (parse : Parse α) : Starves parse [] := by
  intro short missing same some_
  exact absurd (List.append_eq_nil_iff.mp same.symm).2 some_

theorem Starves.bind {α β : Type} {parse : Parse α} {next : α → Parse β} {text more : Bytes}
    {value : α} (first : Starves parse text) (reads : Reads parse text value)
    (second : Starves (next value) more) (steady : ∀ value, Steady (next value)) :
    Starves (parse >>= next) (text ++ more) := by
  intro short missing same some_ result reader ran
  rw [StateT.run_bind] at ran
  obtain ⟨⟨middle, between⟩, here, there⟩ := bind_eq_ok.mp ran
  -- Behind the first text the second parser is the one that starves.
  have behind : ∀ front, short = text ++ front → more = front ++ missing → reader = .spent := by
    rintro front rfl split_
    obtain ⟨rfl, rfl⟩ := Prod.mk.inj (Except.ok.inj (here.symm.trans (reads front)))
    exact second front missing split_ some_ result reader there
  rcases List.append_eq_append_iff.mp same with ⟨front, before, split_⟩ | ⟨front, before, split_⟩
  · exact behind front before split_
  · cases front with
    | nil => exact behind [] (by simpa using before.symm) (by simpa using split_.symm)
    | cons b front =>
      obtain rfl := first short (b :: front) before (List.cons_ne_nil b front) middle between here
      exact (steady middle).spent result reader there

namespace Steady

variable {α β : Type} {parse : Parse α} {next : α → Parse β}

/-- A parser that takes nothing. -/
theorem still (leaves : ∀ reader value after, parse.run reader = .ok (value, after) →
    after = reader ∧ (reader.exhausted = false → Reads parse [] value)) : Steady parse where
  spent := fun value reader ran => (leaves _ value reader ran).1
  takes := by
    intro text value reader ran
    obtain ⟨rfl, reads⟩ := leaves _ value reader ran
    exact .inr ⟨[], text, rfl, rfl, reads rfl, starves_nil parse⟩

theorem pure (value : α) : Steady (pure value) :=
  .still fun reader result after ran => by
    cases ran
    exact ⟨rfl, fun _ => .pure value⟩

theorem throw (fault : ParseFault) : Steady (throw fault : Parse α) :=
  .still fun reader result after ran => by cases ran

theorem bind (first : Steady parse) (second : ∀ value, Steady (next value)) :
    Steady (parse >>= next) where
  spent := by
    intro result reader ran
    rw [StateT.run_bind] at ran
    obtain ⟨⟨middle, between⟩, here, there⟩ := bind_eq_ok.mp ran
    obtain rfl := first.spent middle between here
    exact (second middle).spent result reader there
  takes := by
    intro text result reader ran
    rw [StateT.run_bind] at ran
    obtain ⟨⟨middle, between⟩, here, there⟩ := bind_eq_ok.mp ran
    rcases first.takes text middle between here with rfl | ⟨used, rest, rfl, rfl, reads, starves⟩
    · exact .inl ((second middle).spent result reader there)
    · refine ((second middle).takes rest result reader there).imp_right ?_
      rintro ⟨more, rest, rfl, rfl, readsMore, starvesMore⟩
      exact ⟨used ++ more, rest, (List.append_assoc ..).symm, rfl, reads.bind readsMore,
        starves.bind reads starvesMore second⟩

theorem bytes (n : Nat) : Steady (Parse.bytes n) where
  spent := by
    intro value reader ran
    cases ran
    rfl
  takes := by
    intro text value reader ran
    by_cases short : (text.take n).length < n
    · simp only [StateT.run, Parse.bytes, short, decide_true, Bool.or_true, if_true,
        Except.ok.injEq, Prod.mk.injEq] at ran
      exact .inl ran.2.symm
    · have length : (text.take n).length = n := by
        rw [List.length_take] at short ⊢
        omega
      simp only [StateT.run, Parse.bytes, short, decide_false, Bool.or_false, Bool.false_eq_true,
        if_false, Except.ok.injEq, Prod.mk.injEq] at ran
      obtain ⟨rfl, rfl⟩ := ran
      have reads := reads_bytes (text.take n)
      rw [length] at reads
      refine .inr ⟨_, _, (List.take_append_drop n text).symm, rfl, reads, ?_⟩
      intro front missing same some_ value reader ran
      have fewer : (front.take n).length < n := by
        have whole := congrArg List.length same
        have more := List.length_pos_iff.mpr some_
        rw [List.length_append, length] at whole
        rw [List.length_take]
        omega
      simp only [StateT.run, Parse.bytes, fewer, decide_true, Bool.or_true, if_true,
        Except.ok.injEq, Prod.mk.injEq] at ran
      exact ran.2.symm

theorem isExhausted : Steady Parse.isExhausted :=
  .still fun reader value after ran => by
    cases ran
    refine ⟨rfl, fun live => ?_⟩
    rw [live]
    exact reads_isExhausted

theorem checkEnd : Steady Parse.checkEnd :=
  isExhausted.bind fun spent => by
    cases spent
    · exact .pure ()
    · exact .throw _

theorem lookUp (result : Except PoolFault α) : Steady (Parse.lookUp result) := by
  cases result with
  | error fault => exact .throw _
  | ok value => exact .pure value

theorem within (part : Bytes) (steady : Steady parse) : Steady (Parse.within part parse) := by
  have same : ∀ reader result, (Parse.within part parse).run reader = .ok result ↔
      parse.run reader = .ok result := by
    intro reader result
    simp only [StateT.run, Parse.within]
    cases parse reader <;> simp
  refine ⟨fun value reader ran => steady.spent value reader ((same _ _).mp ran),
    fun text value reader ran => ?_⟩
  refine (steady.takes text value reader ((same _ _).mp ran)).imp_right ?_
  rintro ⟨used, rest, rfl, rfl, reads, starves⟩
  exact ⟨used, rest, rfl, rfl, reads.within part, fun short missing split_ some_ value reader ran =>
    starves short missing split_ some_ value reader ((same _ _).mp ran)⟩

theorem nested (text : Bytes) (parse : Parse α) : Steady (Parse.nested text parse) :=
  .still fun reader value after ran => by
    have inner : ∀ reader, (Parse.nested text parse).run reader =
        (parse { rest := text }).map fun result => (result.1, reader) := by
      intro reader
      simp only [StateT.run, Parse.nested]
      cases parse { rest := text } <;> rfl
    rw [inner] at ran
    cases result : parse { rest := text } with
    | error fault =>
      rw [result] at ran
      cases ran
    | ok found =>
      rw [result] at ran
      cases ran
      refine ⟨rfl, fun _ rest => ?_⟩
      rw [inner, result]
      rfl

theorem u1 : Steady Parse.u1 := (bytes 1).bind fun _ => .pure _

theorem u2 : Steady Parse.u2 := (bytes 2).bind fun _ => .pure _

theorem u4 : Steady Parse.u4 := (bytes 4).bind fun _ => .pure _

theorem index : Steady Parse.index := u2.bind fun _ => .pure _

/-- Going on unless the reader has run past the end. -/
theorem unlessSpent {value : α} (rest : Steady parse) :
    Steady (Parse.isExhausted >>= fun spent => if spent then Pure.pure value else parse) :=
  isExhausted.bind fun spent => by
    cases spent
    · exact rest
    · exact .pure value

theorem items (item : Steady parse) (n : Nat) (done : Array α) :
    Steady (Parse.items parse n done) := by
  induction n generalizing done with
  | zero => exact .pure done
  | succ n ih => exact (item.bind fun value => ih (done.push value)).unlessSpent

theorem constant (position : Nat) : Steady (Parse.constant position) := by
  have pair : ∀ make : UInt16 → UInt16 → Constant,
      Steady (do return make (← Parse.index) (← Parse.index)) := fun make =>
    index.bind fun _ => index.bind fun _ => .pure _
  refine u1.bind fun tag => ?_
  split
  · exact u2.bind fun n => (bytes n).bind fun _ => .pure _
  · exact u4.bind fun _ => .pure _
  · exact index.bind fun _ => .pure _
  · exact index.bind fun _ => .pure _
  · exact pair .field
  · exact pair .method
  · exact pair .interfaceMethod
  · exact pair .nameAndType
  · exact .throw _

theorem constants (n position : Nat) (pool : Pool) : Steady (Parse.constants n position pool) := by
  induction n generalizing position pool with
  | zero => exact .pure pool
  | succ n ih => exact (constant position).bind fun _ => checkEnd.bind fun _ => ih _ _

theorem pool : Steady Parse.pool :=
  u2.bind fun n => (constants (n - 1) 1 {}).bind fun _ => checkEnd.bind fun _ => .pure _

theorem namedPart (pool : Pool) : Steady (Parse.namedPart pool) :=
  index.bind fun _ => (lookUp _).bind fun _ => u4.bind fun n => (bytes n).bind fun _ => .pure _

/-- The bodies of attributes have readers of their own, so they do not matter here. -/
theorem methodAttributes (pool : Pool) (n : Nat) (method : MethodInfo) :
    Steady (Parse.methodAttributes pool n method) := by
  induction n generalizing method with
  | zero => exact .pure method
  | succ n ih =>
    refine ((namedPart pool).bind fun ⟨name, body⟩ => ?_).unlessSpent
    refine isExhausted.bind fun spent => ?_
    split
    · exact ih method
    · exact ((nested body _).within _).bind fun _ => ih _

theorem method (pool : Pool) : Steady (Parse.method pool) :=
  index.bind fun _ => index.bind fun _ => (lookUp _).bind fun _ => index.bind fun _ =>
    (lookUp _).bind fun _ => u2.bind fun n => (methodAttributes pool n _).bind fun _ =>
      checkEnd.bind fun _ => .pure _

theorem skipField : Steady Parse.skipField := by
  have skips : Steady Parse.skipAttribute :=
    u2.bind fun _ => u4.bind fun n => (bytes n).bind fun _ => .pure _
  exact (bytes 6).bind fun _ => u2.bind fun n => (skips.items n #[]).bind fun _ => .pure _

theorem classAttributes (pool : Pool) (n : Nat) (source : Bytes) :
    Steady (Parse.classAttributes pool n source) := by
  induction n generalizing source with
  | zero => exact .pure source
  | succ n ih =>
    refine ((namedPart pool).bind fun ⟨name, body⟩ => ?_).unlessSpent
    dsimp only
    split
    · split
      · exact (lookUp _).bind fun _ => ih _
      · exact ih source
    · exact ih source

theorem cls : Steady Parse.cls := by
  have className : ∀ pool : Pool, Steady (do Parse.lookUp (pool.className (← Parse.index))) :=
    fun pool => index.bind fun _ => lookUp _
  refine u4.bind fun number => ?_
  have body := index.bind fun minor => index.bind fun major =>
    (pool.within "constant pool").bind fun pool => index.bind fun access =>
      ((className pool).within "this_class").bind fun name =>
        ((className pool).within "super_class").bind fun super => u2.bind fun interfaces =>
          (bytes (2 * interfaces)).bind fun _ => u2.bind fun fields =>
            (skipField.items fields #[]).bind fun _ => u2.bind fun methods =>
              ((method pool).items methods #[]).bind fun methods => u2.bind fun attributes =>
                (classAttributes pool attributes []).bind fun source => checkEnd.bind fun _ =>
                  .pure ({ minor, major, access, pool, name, super, sourceFile := source
                           methods := methods.toList } : Class)
  split
  · exact checkEnd.bind fun _ => (throw _).bind fun _ => body
  · exact body

end Steady

/-- A parser that gives nothing once the reader has run past the end. -/
def Closed {α : Type} (parse : Parse α) : Prop :=
  ∀ reader value after, parse.run reader = .ok (value, after) → after.exhausted = false

namespace Closed

variable {α β : Type} {parse : Parse α} {next : α → Parse β}

theorem bind (last : ∀ value, Closed (next value)) : Closed (parse >>= next) := by
  intro reader result after ran
  rw [StateT.run_bind] at ran
  obtain ⟨⟨middle, between⟩, -, there⟩ := bind_eq_ok.mp ran
  exact last middle between result after there

theorem checkEnd (value : α) : Closed (Parse.checkEnd >>= fun _ => pure value) := by
  intro reader result after ran
  obtain ⟨rest, spent⟩ := reader
  cases spent <;> cases ran
  rfl

/-- Reading a class ends with a look at the reader. -/
theorem cls : Closed Parse.cls := by
  refine bind fun number => ?_
  split <;> repeat first | exact checkEnd _ | refine bind fun _ => ?_

end Closed

/-- A class that was read from some bytes is read from the same bytes whatever follows them, and from
none of their proper prefixes. -/
theorem Class.parse_takes {text : Bytes} {cls : Class} {reader : Reader}
    (parsed : Parse.cls.run { rest := text } = .ok (cls, reader)) :
    ∃ used, text = used ++ reader.rest ∧ Reads Parse.cls used cls ∧
      ∀ short missing, used = short ++ missing → missing ≠ [] →
        ∃ fault, Class.parse short = .error fault := by
  have live := Closed.cls _ _ _ parsed
  rcases Steady.cls.takes text cls reader parsed with rfl | ⟨used, rest, rfl, rfl, reads, starves⟩
  · cases live
  · refine ⟨used, rfl, reads, fun short missing same some_ => ?_⟩
    rw [Class.parse]
    cases outcome : Parse.cls.run { rest := short } with
    | error fault => exact ⟨fault, rfl⟩
    | ok result =>
      obtain ⟨other, after⟩ := result
      have live := Closed.cls _ _ _ outcome
      obtain rfl := starves short missing same some_ other after outcome
      cases live

/-- A parser that takes a text as a whole, unless it fails. -/
def Spans {α : Type} (parse : Parse α) (text : Bytes) : Prop :=
  ∀ rest value reader, parse.run { rest := text ++ rest } = .ok (value, reader) → reader = { rest }

theorem Reads.spans {α : Type} {parse : Parse α} {text : Bytes} {value : α}
    (reads : Reads parse text value) : Spans parse text := by
  intro rest other reader ran
  rw [reads rest] at ran
  cases ran
  rfl

namespace Spans

variable {α β : Type} {parse : Parse α} {next : α → Parse β} {text more : Bytes}

theorem bind (first : Spans parse text) (second : ∀ value, Spans (next value) more) :
    Spans (parse >>= next) (text ++ more) := by
  intro rest result reader ran
  rw [StateT.run_bind, List.append_assoc] at ran
  obtain ⟨⟨middle, between⟩, here, there⟩ := bind_eq_ok.mp ran
  obtain rfl := first _ middle between here
  exact second middle rest result reader there

/-- What is read for certain decides how the parser goes on. -/
theorem after {value : α} (first : Reads parse text value) (second : Spans (next value) more) :
    Spans (parse >>= next) (text ++ more) := by
  intro rest result reader ran
  rw [StateT.run_bind, List.append_assoc, first] at ran
  exact second rest result reader ran

/-- What comes first may take nothing. -/
theorem behind {value : α} (first : Reads parse [] value) (second : Spans (next value) more) :
    Spans (parse >>= next) more := after first second

theorem pure (value : α) : Spans (pure value : Parse α) [] := (Reads.pure value).spans

theorem lookUp {result : Except PoolFault α} (second : ∀ value, Spans (next value) more) :
    Spans (Parse.lookUp result >>= next) more := by
  have first : Spans (Parse.lookUp result) [] := by
    intro rest value reader ran
    cases result with
    | error fault => cases ran
    | ok found =>
      cases ran
      rfl
  exact first.bind second

theorem within (part : Bytes) (spans : Spans parse text) : Spans (Parse.within part parse) text := by
  intro rest value reader ran
  refine spans rest value reader ?_
  simp only [StateT.run, Parse.within] at ran ⊢
  cases outcome : parse { rest := text ++ rest } with
  | error fault =>
    rw [outcome] at ran
    cases ran
  | ok result =>
    rw [outcome] at ran
    exact ran

theorem nested (inner : Bytes) (parse : Parse α) : Spans (Parse.nested inner parse) [] := by
  intro rest value reader ran
  simp only [StateT.run, Parse.nested] at ran
  cases outcome : parse { rest := inner } with
  | error fault =>
    rw [outcome] at ran
    cases ran
  | ok result =>
    rw [outcome] at ran
    cases ran
    rfl

theorem items {texts : List Bytes} (each : ∀ text ∈ texts, Spans parse text) (done : Array α) :
    Spans (Parse.items parse texts.length done) texts.flatten := by
  induction texts generalizing done with
  | nil => exact .pure done
  | cons text texts ih =>
    obtain ⟨here, others⟩ := List.forall_mem_cons.mp each
    exact behind reads_isExhausted (here.bind fun value => ih others (done.push value))

/-- An attribute is taken with its name and its body, whatever its name is. -/
theorem namedPart {pool : Pool} {next : Bytes × Bytes → Parse β} (i : UInt16) {body : Bytes}
    (small : body.length < 4294967296) (rest : ∀ name, Spans (next (name, body)) []) :
    Spans (Parse.namedPart pool >>= next) (u2 i.toNat ++ u4 body.length ++ body) := by
  have last : ∀ name, Spans (Parse.u4 >>= fun n => Parse.bytes n >>= fun body => next (name, body))
      (u4 body.length ++ (body ++ [])) := fun name =>
    after (reads_u4 small) (after (reads_bytes body) (rest name))
  simp only [List.append_nil] at last
  simp only [Parse.namedPart, bind_assoc, pure_bind]
  rw [List.append_assoc]
  exact after (reads_index i) (lookUp last)

/-- A method with one attribute, whatever stands in it. -/
theorem method (pool : Pool) (access name descriptor part : UInt16) {body : Bytes}
    (small : body.length < 4294967296) :
    Spans (Parse.method pool) (u2 access.toNat ++ u2 name.toNat ++ u2 descriptor.toNat ++ u2 1 ++
      (u2 part.toNat ++ u4 body.length ++ body)) := by
  have attributes_ : ∀ info, Spans (Parse.methodAttributes pool 1 info)
      (u2 part.toNat ++ u4 body.length ++ body) := by
    intro info
    refine behind reads_isExhausted (namedPart part small fun name => ?_)
    refine behind reads_isExhausted ?_
    split
    · exact .pure _
    · exact ((nested body _).within _).bind fun _ => .pure _
  have last : ∀ info, Spans (Parse.methodAttributes pool 1 info >>= fun method => do
      Parse.checkEnd
      return method) (u2 part.toNat ++ u4 body.length ++ body ++ []) := fun info =>
    (attributes_ info).bind fun _ => behind reads_checkEnd (.pure _)
  simp only [List.append_nil] at last
  simp only [List.append_assoc] at last ⊢
  refine after (reads_index access) (after (reads_index name) ?_)
  refine lookUp fun _ => after (reads_index descriptor) ?_
  exact lookUp fun _ => after (reads_u2 (by decide)) (last _)

end Spans

/-- A method as it is written: a head of four numbers and the attribute with its code. -/
def MethodText (text : Bytes) : Prop :=
  ∃ access name descriptor part : UInt16, ∃ body : Bytes, text = u2 access.toNat ++ u2 name.toNat ++
    u2 descriptor.toNat ++ u2 1 ++ (u2 part.toNat ++ u4 body.length ++ body)

namespace Method

theorem write_text (method : Method) (code : Bytes) (analysis : Analysis) (pool : Pool) :
    MethodText ((method.write code analysis).run pool).1 :=
  ⟨method.access, _, _, _, _, rfl⟩

theorem finishAll_text {methods : List Method} {pool last : Pool} {done parts : List Bytes}
    (before : ∀ part ∈ done, MethodText part)
    (finished : finishAll methods pool done = .ok (parts, last)) :
    parts.length = done.length + methods.length ∧ ∀ part ∈ parts, MethodText part := by
  induction methods generalizing pool done with
  | nil =>
    cases finished
    exact ⟨by simp, fun part member => before part (List.mem_reverse.mp member)⟩
  | cons method rest ih =>
    rw [finishAll] at finished
    split at finished
    · cases finished
    next text next one =>
      obtain ⟨code, analysis, -, written⟩ := finish_eq_ok.mp one
      have here : MethodText text := by
        have known := method.write_text code analysis pool
        rwa [← written] at known
      obtain ⟨count, each⟩ := ih (List.forall_mem_cons.mpr ⟨here, before⟩) finished
      refine ⟨?_, each⟩
      rw [count, List.length_cons, List.length_cons]
      omega

end Method

namespace Spans

theorem methodText {text : Bytes} (written : MethodText text) (small : text.length < 4294967296)
    (pool : Pool) : Spans (Parse.method pool) text := by
  obtain ⟨access, name, descriptor, part, body, rfl⟩ := written
  refine method pool access name descriptor part ?_
  simp only [List.length_append] at small
  omega

theorem sourcePart (draft : Draft) (before pool : Pool) :
    Spans (Parse.classAttributes pool (draft.sourcePart before).1.length [])
      (draft.sourcePart before).1.flatten := by
  rw [Draft.sourcePart]
  split
  · exact .pure _
  · dsimp only
    generalize (before.utf8 "SourceFile").1 = i
    generalize ((before.utf8 "SourceFile").2.utf8 draft.sourceFile).1 = j
    have length : (u2 j.toNat).length = 2 := rfl
    have small : (u2 j.toNat).length < 4294967296 := by rw [length]; decide
    have next : ∀ name, Spans (if name = ("SourceFile" : Bytes) then do
        let source ← Parse.lookUp (pool.text (word (j.toNat / 256).toUInt8 j.toNat.toUInt8).toUInt16)
        Parse.classAttributes pool 0 source
        else Parse.classAttributes pool 0 []) [] := by
      intro name
      split
      · exact lookUp fun _ => .pure _
      · exact .pure _
    rw [List.length_singleton, List.flatten_singleton, ← length]
    exact behind reads_isExhausted (namedPart i small next)

/-- The parts of a class are taken one after another, unless one of them is refused. -/
theorem around (draft : Draft) {last : Pool} {methods attributes : List Bytes}
    (small : last.count ≤ 65535) (short : last.Short) (few : methods.length ≤ 65535)
    (each : ∀ text ∈ methods, Spans (Parse.method last.reread) text) (single : attributes.length ≤ 1)
    (source : Spans (Parse.classAttributes last.reread attributes.length []) attributes.flatten) :
    Spans Parse.cls (draft.around last methods attributes) := by
  have start : Reads Parse.u4 magic 0xCAFEBABE := by
    have same : u4 0xCAFEBABE = magic := by decide
    rw [← same]
    exact reads_u4 (by decide)
  have className : ∀ (part : Bytes) (pool : Pool) (i : UInt16),
      Spans (Parse.within part (do Parse.lookUp (pool.className (← Parse.index)))) (u2 i.toNat) := by
    intro part pool i
    have whole : Spans (Parse.index >>= fun i => Parse.lookUp (pool.className i) >>= Pure.pure)
        (u2 i.toNat ++ []) := after (reads_index i) (lookUp .pure)
    simp only [bind_pure, List.append_nil] at whole
    exact whole.within part
  have noInterfaces : Reads (Parse.bytes (2 * 0)) [] [] := reads_bytes []
  have noFields : Reads (Parse.items Parse.skipField 0 #[]) [] #[] := .pure #[]
  simp only [Draft.around, List.append_assoc]
  refine after start ?_
  simp only [ne_eq, not_true_eq_false, if_false]
  refine after (reads_index 0) (after (reads_index draft.major) ?_)
  refine after ((reads_pool small short).within _) (after (reads_index draft.access) ?_)
  refine (className _ _ _).bind fun name => (className _ _ _).bind fun super => ?_
  refine after (reads_u2 (by decide : 0 < 65536)) (behind noInterfaces ?_)
  refine after (reads_u2 (by decide : 0 < 65536)) (behind noFields ?_)
  refine after (reads_u2 (by omega)) ((items each #[]).bind fun infos => ?_)
  refine after (reads_u2 (by omega)) ?_
  have close : ∀ cls : Class, Spans (Parse.checkEnd >>= fun _ => Pure.pure cls) [] := fun cls =>
    behind reads_checkEnd (.pure cls)
  have whole := source.bind fun source => close
    { minor := 0, major := draft.major, access := draft.access, pool := last.reread, name, super
      sourceFile := source, methods := infos.toList }
  rwa [List.append_nil] at whole

end Spans

/-- What a parser takes, when it takes all of a text or fails, is the text. -/
private theorem Draft.spans {draft : Draft} (faithful : draft.pool.Faithful) {bytes : Bytes}
    (written : draft.bytes = .ok bytes) (short : draft.finishedPool.Short)
    (few : draft.methods.size ≤ 65535)
    (small : ∀ part ∈ draft.finishedMethods, part.length < 4294967296) :
    Spans Parse.cls bytes := by
  obtain ⟨pool, finished, last, fits, rfl⟩ := bytes_eq_ok written
  have sound : draft.finishedPool.Sound := by
    obtain ⟨named, -⟩ := namedPool_faithful faithful
    obtain ⟨methods, -⟩ := Method.finishAll_faithful named finished
    exact last ▸ (draft.sourcePart_faithful methods).1.sound
  obtain ⟨count, texts⟩ := Method.finishAll_text (fun _ member => absurd member List.not_mem_nil) finished
  have single : (draft.sourcePart pool).1.length ≤ 1 := by
    rw [sourcePart]
    split <;> simp
  refine .around draft sound.small short ?_ (fun text member => ?_) single (.sourcePart draft pool _)
  · rw [count, Array.length_toList]
    simpa using few
  · exact .methodText (texts text member) (small text member) _

/-- A text that a class is read from as a whole, if at all, has no proper prefix that a class is read
from. -/
theorem Spans.prefix_refused {text : Bytes} (spans : Spans Parse.cls text) {k : Nat}
    (shorter : k < text.length) : ∃ fault, Class.parse (text.take k) = .error fault := by
  rw [Class.parse]
  cases outcome : Parse.cls.run { rest := text.take k } with
  | error fault => exact ⟨fault, rfl⟩
  | ok result =>
    obtain ⟨cls, reader⟩ := result
    obtain ⟨used, same, reads, -⟩ := Class.parse_takes outcome
    have whole : text ++ [] = used ++ (reader.rest ++ text.drop k) := by
      rw [List.append_nil, ← List.append_assoc, ← same, List.take_append_drop]
    have ran := reads (reader.rest ++ text.drop k)
    rw [← whole] at ran
    have none := congrArg Reader.rest (spans [] _ _ ran)
    have length := congrArg List.length none
    simp only [List.length_append, List.length_drop, List.length_nil] at length
    omega

/-- Class files that end too early are refused. A class that is read from the first bytes of a text
is read from them whatever follows, and from no fewer of them. What is written of a class has no
proper prefix that is a class, if the texts of its pool, the number of its methods and their sizes
fit into the format. -/
theorem Class.truncated_is_refused (text : Bytes) :
    (∀ (cls : Class) (reader : Reader), Parse.cls.run { rest := text } = .ok (cls, reader) →
      ∃ n ≤ text.length, reader.rest = text.drop n ∧
        (∀ more, Class.parse (text.take n ++ more) = .ok cls) ∧
        ∀ k < n, ∃ fault, Class.parse (text.take k) = .error fault) ∧
    ∀ (major access : UInt16) (name super sourceFile : Bytes) (list : List Draft.Edit)
      (draft : Draft), draft = (Draft.blank major access name super sourceFile).edits list →
      draft.bytes = .ok text → draft.finishedPool.Short → draft.methods.size ≤ 65535 →
      (∀ part ∈ draft.finishedMethods, part.length < 4294967296) →
        ∀ k < text.length, ∃ fault, Class.parse (text.take k) = .error fault := by
  constructor
  · intro cls reader parsed
    obtain ⟨used, rfl, reads, refused⟩ := Class.parse_takes parsed
    refine ⟨used.length, by simp, by simp, fun more => ?_, fun k fewer => ?_⟩
    · rw [List.take_left, Class.parse, reads more]
      rfl
    · rw [List.take_append_of_le_length (Nat.le_of_lt fewer)]
      refine refused _ _ (List.take_append_drop k used).symm fun none => ?_
      have length := congrArg List.length none
      rw [List.length_drop, List.length_nil] at length
      omega
  · rintro major access name super sourceFile list draft rfl written short few small k shorter
    have records := (Draft.records_blank major access name super sourceFile).edits list
    exact (Draft.spans records.faithful written short few small).prefix_refused shorter

/-- The class of a method that jumps is read, and none of its proper prefixes is. -/
theorem Class.truncated_jump_is_refused :
    ∃ bytes cls, (Draft.jumpDraft "(LB;)V" (.object "B")).bytes = .ok bytes ∧
      (∃ n ≤ bytes.length, (∀ more, Class.parse (bytes.take n ++ more) = .ok cls) ∧
        ∀ k < n, ∃ fault, Class.parse (bytes.take k) = .error fault) ∧
      ∀ k < bytes.length, ∃ fault, Class.parse (bytes.take k) = .error fault := by
  obtain ⟨bytes, written, within, small⟩ := Draft.jump_written "(LB;)V" (.object "B")
  have same := Draft.jumpDraft_eq "(LB;)V" (.object "B")
  have short : (Draft.jumpDraft "(LB;)V" (.object "B")).finishedPool.Short := by
    have all : ∀ request ∈ Draft.jumpRequests "(LB;)V" (.object "B"), ∀ text ∈ request.texts,
        Encodable text := by decide +kernel
    intro text member
    obtain ⟨request, asked, inside⟩ := within.named text member
    exact (all request asked text inside).short
  have tabled : (Draft.jumpMethod "(LB;)V" (.object "B")).Tabled := by
    refine ⟨by decide, by simp [Draft.jumpMethod, LineEntry.Storable], by decide, ?_⟩
    rw [Draft.jumpMethod, Ascii.repair (by decide +kernel)]
    exact ⟨_, rfl⟩
  have few : (Draft.jumpDraft "(LB;)V" (.object "B")).methods.size ≤ 65535 := by
    rw [same]
    decide
  obtain ⟨infos, -, parsed⟩ := Draft.parse_bytes (by rw [same]; exact Pool.sound_empty)
    (by rw [same]; simpa using tabled) few written short small
  obtain ⟨cls, reader, ran⟩ : ∃ cls reader, Parse.cls.run { rest := bytes } = .ok (cls, reader) := by
    rw [Class.parse] at parsed
    cases outcome : Parse.cls.run { rest := bytes } with
    | error fault =>
      rw [outcome] at parsed
      cases parsed
    | ok result => exact ⟨_, _, rfl⟩
  obtain ⟨n, inside, -, again, fewer⟩ := (Class.truncated_is_refused bytes).1 cls reader ran
  exact ⟨bytes, cls, written, ⟨n, inside, again, fewer⟩,
    (Class.truncated_is_refused bytes).2 52 33 "A" "B" "a" _ _ rfl written short few small⟩

end Minilang.ClassFile
