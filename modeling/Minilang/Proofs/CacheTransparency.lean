import Minilang.Proofs.CacheKeys
import Minilang.Proofs.FileTrees
import Minilang.Proofs.PackedPayload
import Minilang.Proofs.SameCode

/-! Compiling through a store gives what compiling gives. The invariant of a store over any sequence
of requests is about its files alone: what is at the place of a key was packed by an earlier request
with that key, and that request had code. -/

namespace Minilang

namespace Bytes

private theorem hexDigit_range {n : Nat} (small : n < 16) :
    hexDigit n ≠ 46 ∧ hexDigit n ≠ 47 := by
  have all : ∀ n < 16, hexDigit n ≠ 46 ∧ hexDigit n ≠ 47 := by decide
  exact all n small

private theorem hexDigit_inj {m n : Nat} (first : m < 16) (second : n < 16)
    (same : hexDigit m = hexDigit n) : m = n := by
  have all : ∀ m < 16, ∀ n < 16, hexDigit m = hexDigit n → m = n := by decide
  exact all m first n second same

private theorem digits_small (b : UInt8) : b.toNat / 16 < 16 ∧ b.toNat % 16 < 16 := by
  have := b.toNat_lt
  omega

theorem hex_cons (b : UInt8) (rest : Bytes) :
    hex (b :: rest) = hexDigit (b.toNat / 16) :: hexDigit (b.toNat % 16) :: hex rest := by
  rw [hex, List.flatMap_cons]
  rfl

theorem hex_inj {first second : Bytes} (same : hex first = hex second) : first = second := by
  induction first generalizing second with
  | nil =>
    cases second with
    | nil => rfl
    | cons c rest =>
      rw [hex_cons] at same
      cases same
  | cons b first ih =>
    cases second with
    | nil =>
      rw [hex_cons] at same
      cases same
    | cons c rest =>
      rw [hex_cons, hex_cons, List.cons.injEq, List.cons.injEq] at same
      obtain ⟨high, low, same⟩ := same
      have one := hexDigit_inj (digits_small b).1 (digits_small c).1 high
      have two := hexDigit_inj (digits_small b).2 (digits_small c).2 low
      have equal : b = c := UInt8.toNat_inj.mp (by omega)
      rw [equal, ih same]

theorem slash_not_mem_hex (bytes : Bytes) : 47 ∉ hex bytes := by
  induction bytes with
  | nil => exact List.not_mem_nil
  | cons b rest ih =>
    rw [hex_cons]
    have high := (hexDigit_range (digits_small b).1).2
    have low := (hexDigit_range (digits_small b).2).2
    simp only [List.mem_cons, not_or]
    exact ⟨high.symm, low.symm, ih⟩

end Bytes

namespace Files

/-- The last name of a path, and how it can be made longer. -/
theorem target_last (files : Files) (path : Bytes) : ∃ (above : Location) (last : Bytes),
    files.target path = above.enter last ∧
      ∀ tail, 47 ∉ tail → files.target (path ++ tail) = above.enter (last ++ tail) := by
  have begins : ∀ tail, 47 ∉ tail → files.start (path ++ tail) = files.start path := by
    intro tail apart
    cases path with
    | cons b path => rfl
    | nil =>
      cases tail with
      | nil => rfl
      | cons b tail =>
        have differ : b ≠ 47 := fun same => apart (same ▸ List.mem_cons_self)
        simp [start, Path.isAbsolute, Path.slash, differ]
  by_cases slashed : 47 ∈ path.reverse
  · obtain ⟨last, before, back, apart⟩ := List.eq_append_cons_of_mem slashed
    have whole : path = before.reverse ++ 47 :: last.reverse := by
      rw [← List.reverse_reverse path, back]
      simp
    have apart : 47 ∉ last.reverse := by rwa [List.mem_reverse]
    have longer : ∀ tail, 47 ∉ tail → files.target (path ++ tail) = Location.enter
        ((Bytes.split 47 before.reverse).foldl Location.enter (files.start path))
        (last.reverse ++ tail) := by
      intro tail free
      have absent : 47 ∉ last.reverse ++ tail := by
        rw [List.mem_append, not_or]
        exact ⟨apart, free⟩
      rw [target, begins tail free, whole, List.append_assoc, List.cons_append, Bytes.split_append,
        Bytes.split_of_absent absent, List.foldl_append]
      rfl
    refine ⟨_, last.reverse, ?_, longer⟩
    simpa using longer [] List.not_mem_nil
  · rw [List.mem_reverse] at slashed
    have longer : ∀ tail, 47 ∉ tail →
        files.target (path ++ tail) = (files.start path).enter (path ++ tail) := by
      intro tail free
      have absent : 47 ∉ path ++ tail := by
        rw [List.mem_append, not_or]
        exact ⟨slashed, free⟩
      rw [target, begins tail free, Bytes.split_of_absent absent]
      rfl
    refine ⟨_, path, ?_, longer⟩
    simpa using longer [] List.not_mem_nil

end Files

/-- No two of the texts have one digest. -/
def Digest.CollisionFree (texts : List Bytes) : Prop :=
  ∀ first ∈ texts, ∀ second ∈ texts, sha256 first = sha256 second → first = second

/-- Only a store gives what was cached. -/
theorem compile_result {sources : SourceSet} {file : SourceFile} {options : CompileOptions}
    {cancelled : Bool} {result : Compilation}
    (made : (compile sources file options cancelled).outcome = .ok result) :
    result.cached = false ∧ result.file = file := by
  unfold compile at made
  split at made
  · cases made
  · split at made
    · cases made
    · dsimp only at made
      split at made
      · cases made
        exact ⟨rfl, rfl⟩
      · split at made
        · cases made
        · split at made
          · cases made
          · cases made
          · cases made
            exact ⟨rfl, rfl⟩

namespace Cache

/-- The names of an entry below the directory of its store. -/
def entryNames (key : Bytes) : Location :=
  ["artefacts", (Bytes.hex key).take 2, Bytes.hex key ++ ".mp"]

namespace Store

/-- Where the entry of a key is. -/
def place (store : Store) (files : Files) (key : Bytes) : Location :=
  files.target store.dir ++ entryNames key

theorem place_inj {store : Store} {files : Files} {key other : Bytes}
    (same : store.place files key = store.place files other) : key = other := by
  have names := List.append_cancel_left same
  simp only [entryNames, List.cons.injEq, and_true, true_and] at names
  exact Bytes.hex_inj (List.append_cancel_right names.2)

theorem place_congr (store : Store) {files after : Files}
    (same : after.workingDir = files.workingDir) (key : Bytes) :
    store.place after key = store.place files key := by
  rw [place, place, Files.target_congr same]

/-- The names of entries lead down, one after the other. -/
theorem enter_entryNames {key : Bytes} (some_ : key ≠ []) (here : Location) :
    (Bytes.split 47 (Bytes.join "/" (entryNames key))).foldl Location.enter here =
      here ++ entryNames key := by
  have slashless := Bytes.slash_not_mem_hex key
  have first : IsPlain "artefacts" ∧ 47 ∉ ("artefacts" : Bytes) := by decide
  have second : IsPlain ((Bytes.hex key).take 2) := by
    cases key with
    | nil => exact absurd rfl some_
    | cons b key =>
      have high := (Bytes.hexDigit_range (Bytes.digits_small b).1).1
      rw [Bytes.hex_cons]
      exact ⟨nofun, fun same => high (List.cons.inj same).1, fun same => high (List.cons.inj same).1⟩
  have third : IsPlain (Bytes.hex key ++ ".mp") := by
    apply IsPlain.of_length
    rw [List.length_append]
    exact Nat.lt_add_left _ (by decide)
  have apart : ∀ part ∈ entryNames key, 47 ∉ part := by
    intro part member
    simp only [entryNames, List.mem_cons, List.not_mem_nil, or_false] at member
    rcases member with rfl | rfl | rfl
    · exact first.2
    · exact fun inside => slashless (List.mem_of_mem_take inside)
    · rw [List.mem_append, not_or]
      exact ⟨slashless, by decide⟩
  have whole : Bytes.split 47 (Bytes.join "/" (entryNames key)) = entryNames key :=
    Bytes.split_join apart (List.cons_ne_nil _ _)
  rw [whole]
  simp only [entryNames, List.foldl_cons, List.foldl_nil, Location.enter_plain first.1,
    Location.enter_plain second, Location.enter_plain third, List.append_assoc]
  rfl

theorem target_entryPath (store : Store) (files : Files) {key : Bytes} (some_ : key ≠ []) :
    files.target (store.entryPath key) = store.place files key := by
  have kept : (entryNames key).filter (!·.isEmpty) = entryNames key := by
    cases key with
    | nil => exact absurd rfl some_
    | cons b key =>
      simp only [entryNames, Bytes.hex_cons]
      rfl
  change files.target (Path.join (store.dir :: entryNames key)) = _
  rw [place, ← enter_entryNames some_, Path.join]
  by_cases bare : store.dir = []
  · rw [bare, List.filter_cons_of_neg (by simp), kept]
    exact Files.target_clean files _
  · rw [List.filter_cons_of_pos (by simp [bare]), kept, ← Files.target_append files bare]
    exact Files.target_clean files _

/-- The directory into which a store is moved before it is taken away is apart from its entries. -/
theorem old_apart (store : Store) (files : Files) (key : Bytes) :
    ¬ files.target (store.dir ++ ".old") <+: store.place files key := by
  obtain ⟨above, last, here, longer⟩ := files.target_last store.dir
  have down : IsPlain (last ++ ".old") := by
    apply IsPlain.of_length
    rw [List.length_append]
    exact Nat.lt_add_left _ (by decide)
  rw [place, here, longer ".old" (by decide), Location.enter_plain down]
  have same : above.enter last = above → last ++ ".old" ≠ "artefacts" →
      ¬ above ++ [last ++ ".old"] <+: above.enter last ++ entryNames key := by
    intro stays differ inside
    rw [stays, List.prefix_append_right_inj, entryNames, List.cons_prefix_cons] at inside
    exact differ inside.1
  by_cases empty : last = []
  · subst empty
    exact same rfl (by decide)
  · by_cases dot : last = "."
    · subst dot
      exact same rfl (by decide)
    · by_cases up : last = ".."
      · subst up
        rw [Location.enter_up]
        rcases List.eq_nil_or_concat above with rfl | ⟨upper, name, rfl⟩
        · intro inside
          exact absurd (List.cons_prefix_cons.mp inside).1 (by decide)
        · -- the second name would be the two digits of a key
          intro inside
          rw [List.concat_eq_append, List.dropLast_concat, List.append_assoc,
            List.prefix_append_right_inj, entryNames, List.singleton_append, List.cons_prefix_cons,
            List.cons_prefix_cons] at inside
          have size := congrArg List.length inside.2.1
          rw [List.length_take] at size
          have wide : ((".." : Bytes) ++ ".old").length = 6 := by decide
          omega
      · rw [Location.enter_plain ⟨empty, dot, up⟩]
        intro inside
        rw [List.append_assoc, List.prefix_append_right_inj, List.singleton_append,
          List.cons_prefix_cons] at inside
        have size := congrArg List.length inside.1
        rw [List.length_append] at size
        have wide : (".old" : Bytes).length = 4 := by decide
        omega

end Store

/-- A request to compile a file, of which all that is asked is that its base name has no zero byte
and that its limit is not negative. -/
structure Call where
  sources : SourceSet
  id : UInt32
  path : Bytes
  content : Bytes
  flags : FileFlags
  options : CompileOptions
  named : 0 ∉ Path.base (Path.clean path)
  limited : 0 ≤ options.maxDiagnostics

namespace Call

def file (call : Call) : SourceFile := .make call.id call.path call.content call.flags

/-- What the compiler gives without a store. -/
def plain (call : Call) : Traced Compilation := compile call.sources call.file call.options false

/-- Whether a call agrees with another in all that shapes the code. -/
def SameInput (call other : Call) : Prop :=
  Minilang.SameInput call.file other.file call.options other.options

/-- What is kept of a call that has code. -/
def payload (call : Call) (code : Bytes) : Payload :=
  { schema, target := Store.targetNumber call.options, sourcePath := call.file.path
    sourceHash := call.file.hash, code }

def keyText (call : Call) : Bytes := Cache.keyText call.file call.options

def key (call : Call) : Bytes := Cache.key call.file call.options

theorem SameInput.yields_iff {call other : Call} (same : call.SameInput other) (code : Bytes) :
    other.plain.Yields code ↔ call.plain.Yields code :=
  Minilang.SameInput.yields_iff same (SourceFile.make_isMade ..) (SourceFile.make_isMade ..)
    call.limited other.limited call.sources other.sources code

theorem key_ne_nil (call : Call) : call.key ≠ [] := by
  intro empty
  have size : call.key.length = 32 := Digest.length_sha256 call.keyText
  rw [empty] at size
  cases size

end Call

/-- What is asked of a store. -/
inductive Request where
  | compile (call : Call)
  | dropAll

/-- The calls among requests. -/
def calls (requests : List Request) : List Call :=
  requests.filterMap fun
    | .compile call => some call
    | .dropAll => none

namespace Store

/-- What a call gets from the store, and the files behind it. -/
def answer (store : Store) (files : Files) (call : Call) : Traced Compilation × Files :=
  compileThrough (some store) files call.sources call.file call.options false

/-- The files behind a request. -/
def serve (store : Store) (files : Files) : Request → Files
  | .compile call => (store.answer files call).2
  | .dropAll =>
      match store.dropAll files with
      | .ok after => after
      | .error _ => files

/-- The files behind requests, one after the other. -/
def serveAll (store : Store) (files : Files) (requests : List Request) : Files :=
  requests.foldl store.serve files

/-- No file is where entries are kept; what else there is does not matter. -/
def IsEmpty (store : Store) (files : Files) : Prop :=
  ∀ key content, (store.place files key, Entry.file content) ∉ files.entries

/-- What is at the place of a key was packed by a call with that key and with code. -/
def Honest (store : Store) (past : List Call) (files : Files) : Prop :=
  ∀ key content, (store.place files key, Entry.file content) ∈ files.entries →
    ∃ call ∈ past, call.key = key ∧
      ∃ code, call.plain.Yields code ∧ content = (call.payload code).encode

theorem Honest.fewer {store : Store} {past : List Call} {files after : Files}
    (honest : store.Honest past files) (fewer : files.Fewer after) : store.Honest past after := by
  intro key content member
  rw [store.place_congr fewer.1] at member
  exact honest key content (fewer.2 _ _ member)

theorem Honest.mono {store : Store} {past more : List Call} {files : Files}
    (honest : store.Honest past files) (kept : ∀ call ∈ past, call ∈ more) :
    store.Honest more files := by
  intro key content member
  obtain ⟨call, earlier, rest⟩ := honest key content member
  exact ⟨call, kept call earlier, rest⟩

theorem Honest.put {store : Store} {past : List Call} {files after : Files}
    (honest : store.Honest past files) {call : Call} (known : call ∈ past) {code : Bytes}
    (yields : call.plain.Yields code)
    (done : store.put files call.key (call.payload code) = .ok after) : store.Honest past after := by
  rw [Store.put] at done
  simp only [bind_eq_ok] at done
  obtain ⟨parents, made, drafted, written, moved⟩ := done
  have fewer := Files.mkdirAll_fewer made
  obtain ⟨dir, fresh⟩ := Files.write_mem written
  obtain ⟨home, places⟩ := Files.rename_mem moved
  have base : after.workingDir = files.workingDir := home.trans (dir.trans fewer.1)
  intro key content member
  rw [store.place_congr base] at member
  rcases places _ _ member with ⟨kept, apart⟩ | ⟨rest, same, kept⟩
  · rcases fresh _ _ kept with ⟨here, -⟩ | ⟨-, old⟩
    · refine absurd ?_ apart
      rw [here, Files.target_congr dir]
    · exact honest key content (fewer.2 _ _ old)
  · -- what was moved to the place of an entry is the draft, since entries are equally deep
    rw [Files.target_congr (dir.trans fewer.1), store.target_entryPath files call.key_ne_nil] at same
    have deep := congrArg List.length same
    simp only [place, List.length_append, entryNames, List.length_cons, List.length_nil] at deep
    have none_ : rest = [] := List.length_eq_zero_iff.mp (by omega)
    subst none_
    rw [List.append_nil] at same kept
    have keys := place_inj same
    subst keys
    rcases fresh _ _ kept with ⟨-, rfl⟩ | ⟨wrong, -⟩
    · exact ⟨call, known, rfl, code, yields, rfl⟩
    · exact absurd (Files.target_congr dir _) wrong

theorem Honest.dropAll {store : Store} {past : List Call} {files after : Files}
    (honest : store.Honest past files) (done : store.dropAll files = .ok after) :
    store.Honest past after := by
  unfold Store.dropAll at done
  simp only at done
  split at done
  · split at done
    · cases done
      exact honest
    · cases done
  · next moved there =>
    obtain ⟨home, places⟩ := Files.rename_mem there
    have still : store.Honest past moved := by
      intro key content member
      rw [store.place_congr home] at member
      rcases places _ _ member with ⟨kept, -⟩ | ⟨rest, same, -⟩
      · exact honest key content kept
      · exact absurd ⟨rest, same.symm⟩ (store.old_apart files key)
    exact still.fewer ((Files.removeAll_fewer _ _).trans (Files.mkdirAll_fewer done))

/-- Calls of which the digests are apart and whose artefacts can be unpacked. -/
structure Reliable (calls : List Call) : Prop where
  contents : Digest.CollisionFree (calls.map Call.content)
  keys : Digest.CollisionFree (calls.map Call.keyText)
  packs : ∀ call ∈ calls, ∀ code, call.plain.Yields code →
    Payload.decode? (call.payload code).encode = some (call.payload code)

/-- Calls with one key agree in all that shapes the code. -/
theorem Reliable.sameInput {calls : List Call} (reliable : Reliable calls) {call other : Call}
    (here : call ∈ calls) (there : other ∈ calls) (same : other.key = call.key) :
    other.SameInput call := by
  have texts : other.keyText = call.keyText :=
    reliable.keys _ (List.mem_map_of_mem there) _ (List.mem_map_of_mem here) same
  obtain ⟨hash, target, dialect, className, base⟩ := keyText_inj other.named call.named texts
  have content : other.content = call.content :=
    reliable.contents _ (List.mem_map_of_mem there) _ (List.mem_map_of_mem here) hash
  exact ⟨content.symm, base.symm, target.symm, dialect.symm, className.symm⟩

/-- The entry of a call is that of one that would be compiled to the same code. -/
theorem Honest.find {store : Store} {past : List Call} {files : Files}
    (honest : store.Honest past files) {call : Call} (reliable : Reliable (call :: past))
    {found : Compilation} {searched : List Trace.Activity}
    (hit : store.find files call.sources call.file call.options = (some found, searched)) :
    found.cached = true ∧ found.isOk = true ∧
      ∃ code, found.code = some code ∧ call.plain.Yields code := by
  unfold Store.find at hit
  simp only at hit
  split at hit
  · cases hit
  · cases hit
  · next payload there =>
    split at hit
    · cases hit
      have quiet : (Bag.ofLimit call.options.maxDiagnostics).hasErrors = false := by
        simp [Bag.ofLimit, Bag.hasErrors]
      refine ⟨rfl, by simp [Compilation.isOk, quiet], payload.code, rfl, ?_⟩
      unfold Store.get at there
      split at there
      · split at there <;> cases there
      · next packed read =>
        have here := Files.read_mem read
        change (files.target (store.entryPath call.key), _) ∈ _ at here
        rw [store.target_entryPath files call.key_ne_nil] at here
        obtain ⟨other, earlier, key, code, yields, rfl⟩ := honest _ _ here
        rw [reliable.packs other (List.mem_cons_of_mem _ earlier) code yields] at there
        cases there
        have same := reliable.sameInput List.mem_cons_self (List.mem_cons_of_mem _ earlier) key
        exact (same.yields_iff code).mpr yields
    · cases hit

theorem yields_unique {made : Traced Compilation} {code other : Bytes} (one : made.Yields code)
    (two : made.Yields other) : code = other := by
  obtain ⟨result, outcome, -, bytes⟩ := one
  obtain ⟨again, same, -, more⟩ := two
  rw [outcome] at same
  cases same
  exact Option.some.inj (bytes.symm.trans more)

/-- What a call can get: its entry, or its own code, which is kept if there is any. -/
theorem answer_cases (store : Store) (files : Files) (call : Call) :
    (∃ found searched, store.find files call.sources call.file call.options = (some found, searched) ∧
      (store.answer files call).1.outcome = .ok found ∧ (store.answer files call).2 = files) ∨
    (store.answer files call).1.outcome = call.plain.outcome ∧
      ((store.answer files call).2 = files ∨
        ∃ code, call.plain.Yields code ∧
          store.put files call.key (call.payload code) = .ok (store.answer files call).2) := by
  rcases search : store.find files call.sources call.file call.options with ⟨_ | found, searched⟩
  · right
    cases made : call.plain.outcome with
    | error fault =>
      have got : store.answer files call =
          ({ call.plain with activities := searched ++ call.plain.activities ++ [] }, files) := by
        unfold Call.plain at made ⊢
        simp only [answer, compileThrough, search, made]
      rw [got]
      exact ⟨made, .inl rfl⟩
    | ok result =>
      have got : store.answer files call =
          ({ call.plain with activities := searched ++ call.plain.activities ++
              (store.keep files call.options result).2 },
            (store.keep files call.options result).1) := by
        unfold Call.plain at made ⊢
        simp only [answer, compileThrough, search, made]
      rw [got]
      refine ⟨made, ?_⟩
      simp only [keep, (compile_result made).2]
      split
      · next code ok some_ =>
        split
        · next after done => exact .inr ⟨code, ⟨result, made, ok, some_⟩, done⟩
        · exact .inl rfl
      · exact .inl rfl
  · have got : store.answer files call =
        ({ outcome := .ok found, activities := searched }, files) := by
      simp only [answer, compileThrough, search]
    rw [got]
    exact .inl ⟨found, searched, rfl, rfl, rfl⟩

/-- One request keeps a store honest. -/
theorem Honest.serve {store : Store} {past : List Call} {files : Files}
    (honest : store.Honest past files) (request : Request) :
    store.Honest (past ++ calls [request]) (store.serve files request) := by
  have grown : store.Honest (past ++ calls [request]) files :=
    honest.mono fun call => List.mem_append_left _
  cases request with
  | compile call =>
    change store.Honest _ (store.answer files call).2
    rcases store.answer_cases files call with ⟨-, -, -, -, same⟩ | ⟨-, same | ⟨code, yields, kept⟩⟩
    · rwa [same]
    · rwa [same]
    · exact grown.put (List.mem_append_right _ List.mem_cons_self) yields kept
  | dropAll =>
    rw [Store.serve]
    split
    · next done => exact grown.dropAll done
    · exact grown

/-- A store that starts empty is honest after any requests. -/
theorem IsEmpty.honest {store : Store} {files : Files} (empty : store.IsEmpty files)
    (requests : List Request) : store.Honest (calls requests) (store.serveAll files requests) := by
  suffices run : ∀ past files, store.Honest past files →
      store.Honest (past ++ calls requests) (store.serveAll files requests) from
    run [] files fun key content member => absurd member (empty key content)
  induction requests with
  | nil =>
    intro past files honest
    rwa [calls, List.filterMap_nil, List.append_nil]
  | cons request rest ih =>
    intro past files honest
    have next := ih _ _ (honest.serve request)
    rwa [List.append_assoc, calls, calls, ← List.filterMap_append] at next

/-- Whatever was asked of the store before, a call gets from it what it gets without it; what has no
code is not kept; and an entry is taken only when its code is that of every call with the same
content, target, dialect, class name and base name. -/
theorem answer_is_transparent (store : Store) (files : Files) (empty : store.IsEmpty files)
    (past : List Request) (call : Call) (reliable : Reliable (call :: calls past)) :
    let before := store.serveAll files past
    let answer := store.answer before call
    (∀ code, answer.1.Yields code ↔ call.plain.Yields code) ∧
      ((∀ code, ¬ call.plain.Yields code) → answer.2 = before) ∧
      ∀ found, answer.1.outcome = .ok found → found.cached = true →
        ∃ code, found.code = some code ∧
          ∀ other : Call, call.SameInput other → other.plain.Yields code := by
  have honest := empty.honest past
  intro before answer
  rcases store.answer_cases before call with
    ⟨found, searched, hit, outcome, same⟩ | ⟨outcome, kept⟩
  · obtain ⟨cached, ok, code, some_, yields⟩ := honest.find reliable hit
    have here : (store.answer before call).1.Yields code := ⟨found, outcome, ok, some_⟩
    refine ⟨fun other => ⟨fun got => ?_, fun got => ?_⟩, fun _ => same, fun result got _ => ?_⟩
    · rwa [← yields_unique here got]
    · rwa [← yields_unique yields got]
    · rw [outcome] at got
      cases got
      exact ⟨code, some_, fun other agrees => (agrees.yields_iff code).mpr yields⟩
  · refine ⟨fun code => ?_, fun none_ => ?_, fun result got cached => ?_⟩
    · rw [Traced.Yields, outcome]
      rfl
    · rcases kept with same | ⟨code, yields, -⟩
      · exact same
      · exact absurd yields (none_ code)
    · rw [outcome] at got
      rw [(compile_result got).1] at cached
      cases cached

end Store

private theorem length_quotedRune (b : UInt8) : (Text.quotedRune ⟨b.toNat, [b]⟩).length ≤ 10 := by
  unfold Text.quotedRune
  split
  · exact Nat.le_of_ble_eq_true rfl
  · split
    · decide
    · split
      · decide
      · split
        · exact Nat.le_of_ble_eq_true rfl
        · split <;> try decide
          split
          · rw [List.length_append]
            exact Nat.le_of_ble_eq_true rfl
          · split
            all_goals
              rw [List.length_append]
              exact Nat.le_of_ble_eq_true rfl

private theorem length_quoted {text : Bytes} (ascii : ∀ b ∈ text, b < 0x80) :
    (Text.quoted text).length ≤ 10 * text.length + 2 := by
  have runes := Utf8.runes_ascii ascii []
  rw [List.append_nil, Utf8.runes_nil, List.append_nil] at runes
  have marks : ("\"" : Bytes).length = 1 := by decide
  rw [Text.quoted, runes, List.length_append, List.length_append, marks]
  clear runes ascii
  induction text with
  | nil => exact Nat.le_of_ble_eq_true rfl
  | cons b rest ih =>
    have here := length_quotedRune b
    rw [List.map_cons, List.flatMap_cons, List.length_append, List.length_cons]
    omega

private theorem length_render (dialect : Ir.Dialect) (name : Bytes) (body : List Ir.Item) :
    (Ir.render dialect name body).length ≤
      (Ir.render dialect [] body).length + name.length + (Text.quoted name).length + 36 := by
  have parts : ("; ModuleID = '" : Bytes).length = 14 ∧
    ("'\nsource_filename = " : Bytes).length = 20 ∧ ("\n\n" : Bytes).length = 2 := by decide
  rw [Ir.render, Ir.render, Ir.header, Ir.header, Bytes.onlyIf, Bytes.onlyIf]
  split
  all_goals
    simp only [List.length_append, List.isEmpty_nil, Bool.not_true, Bool.false_eq_true, if_false,
      List.length_nil]
    omega

/-- A file with one statement. -/
def printing : Call where
  sources := ⟨#[]⟩
  id := 0
  path := "a.mini"
  content := "print 1;"
  flags := {}
  options := { target := some .llvm }
  named := by decide
  limited := by decide

private def printed : Program :=
  (Program.parse { maxErrors := printing.options.maxDiagnostics.toNat } printing.file.tokens).program

private theorem length_printing {code : Bytes} (yields : printing.plain.Yields code) :
    code.length < 2 ^ 32 := by
  have emitted := ((compile_yields_iff printing.sources rfl printing.limited code).mp yields).2
  have proper : Stmt.AllProper (fun _ => True) printed.stmts :=
    Program.parse_proper _ fun _ _ _ => trivial
  have base : Path.base printing.file.path = "a.mini" := by decide +kernel
  change printed.emit (Variables.ofProgram printed) printing.options .llvm printing.file =
    (.ok code, []) at emitted
  simp only [Program.emit, Program.emitAs, Program.toIr_eq _ proper, base] at emitted
  have same := Except.ok.inj (Prod.mk.inj emitted).1
  have bare : (Ir.render printing.options.dialect []
      (printed.irItems (Variables.ofProgram printed))).length < 1000 := by
    decide +kernel
  have named : ("a.mini" : Bytes).length = 6 ∧ (Text.quoted "a.mini").length ≤ 62 :=
    ⟨by decide, length_quoted (by decide)⟩
  have whole := length_render printing.options.dialect "a.mini"
    (printed.irItems (Variables.ofProgram printed))
  rw [same] at whole
  omega

/-- Compiling a file again, also behind an emptied store. -/
theorem printing_again_is_transparent :
    let past := [.compile printing, .dropAll, .compile printing]
    let before := Store.serveAll ⟨"cache"⟩ {} past
    let answer := Store.answer ⟨"cache"⟩ before printing
    (∀ code, answer.1.Yields code ↔ printing.plain.Yields code) ∧
      ((∀ code, ¬ printing.plain.Yields code) → answer.2 = before) ∧
      ∀ found, answer.1.outcome = .ok found → found.cached = true →
        ∃ code, found.code = some code ∧
          ∀ other : Call, printing.SameInput other → other.plain.Yields code := by
  refine Store.answer_is_transparent ⟨"cache"⟩ {} (fun _ _ => List.not_mem_nil) _ printing ?_
  have all : ∀ call ∈ [printing, printing, printing], call = printing := by simp
  have same : ∀ f : Call → Bytes, Digest.CollisionFree ([printing, printing, printing].map f) := by
    intro f first here second there _
    simp only [List.map_cons, List.map_nil, List.mem_cons, List.not_mem_nil, or_false, or_self]
      at here there
    rw [here, there]
  refine ⟨same _, same _, fun call member code yields => ?_⟩
  rw [all call member] at yields ⊢
  refine Payload.decode?_encode (show printing.file.path.length < _ by decide) ?_ (length_printing yields)
  change (Digest.sha256 printing.content).length < 2 ^ 32
  rw [Digest.length_sha256]
  decide

end Cache

end Minilang
