import Minilang.Cache.Store

/-! The text under whose digest an artefact is kept tells everything that shapes the artefact. Its
fields are apart by zero bytes: the digest of the source has a fixed length, targets and dialects
are few, and the base name, which comes last, has no zero byte in it, whatever the class name
holds. -/

namespace Minilang.Cache

/-- The name of a target, also of one that there is not. -/
def targetName (options : CompileOptions) : Bytes :=
  (options.target.map Target.name).getD "unknown"

/-- The text of which a key is the digest. -/
def keyText (file : SourceFile) (options : CompileOptions) : Bytes :=
  file.hash ++ "\x00schema=" ++ Bytes.dec schema.toNat ++ "\x00target=" ++ targetName options ++
    "\x00dialect=" ++ options.dialect.name ++ "\x00class=" ++ options.className ++ "\x00name=" ++
    Path.base file.path

theorem key_eq (file : SourceFile) (options : CompileOptions) :
    key file options = Digest.sha256 (keyText file options) := rfl

theorem append_zero_inj {first second tail rest : Bytes} (clean : 0 ∉ tail) (quiet : 0 ∉ rest)
    (same : first ++ 0 :: tail = second ++ 0 :: rest) : first = second ∧ tail = rest := by
  rcases List.append_eq_append_iff.mp same with ⟨gap, rfl, split⟩ | ⟨gap, rfl, split⟩
  · cases gap with
    | nil =>
      rw [List.nil_append, List.cons.injEq] at split
      exact ⟨(List.append_nil _).symm, split.2⟩
    | cons b gap =>
      rw [List.cons_append, List.cons.injEq] at split
      refine (clean ?_).elim
      rw [split.2]
      exact List.mem_append_right _ List.mem_cons_self
  · cases gap with
    | nil =>
      rw [List.nil_append, List.cons.injEq] at split
      exact ⟨List.append_nil _, split.2.symm⟩
    | cons b gap =>
      rw [List.cons_append, List.cons.injEq] at split
      refine (quiet ?_).elim
      rw [split.2]
      exact List.mem_append_right _ List.mem_cons_self

theorem targetName_inj {options choices : CompileOptions} {tail rest : Bytes}
    (same : targetName options ++ 0 :: tail = targetName choices ++ 0 :: rest) :
    options.target = choices.target ∧ tail = rest := by
  have names : ("llvm" : Bytes) = [108, 108, 118, 109] ∧ ("jvm" : Bytes) = [106, 118, 109] ∧
      ("unknown" : Bytes) = [117, 110, 107, 110, 111, 119, 110] := ⟨rfl, rfl, rfl⟩
  unfold targetName at same
  cases one : options.target with
  | none =>
    cases two : choices.target with
    | none => simpa [one, two] using same
    | some other => cases other <;> simp [one, two, Target.name, names] at same
  | some target =>
    cases two : choices.target with
    | none => cases target <;> simp [one, two, Target.name, names] at same
    | some other =>
      cases target <;> cases other <;> simp_all [Target.name]

theorem dialectName_inj {dialect other : Ir.Dialect} {tail rest : Bytes}
    (same : dialect.name ++ 0 :: tail = other.name ++ 0 :: rest) : dialect = other ∧ tail = rest := by
  have names : ("opaque" : Bytes) = [111, 112, 97, 113, 117, 101] ∧
      ("typed" : Bytes) = [116, 121, 112, 101, 100] := ⟨rfl, rfl⟩
  cases dialect <;> cases other <;> simp_all [Ir.Dialect.name]

theorem keyText_inj {file other : SourceFile} {options choices : CompileOptions}
    (clean : 0 ∉ Path.base file.path) (quiet : 0 ∉ Path.base other.path)
    (same : keyText file options = keyText other choices) :
    file.hash = other.hash ∧ options.target = choices.target ∧ options.dialect = choices.dialect ∧
      options.className = choices.className ∧ Path.base file.path = Path.base other.path := by
  have split : ∀ (file : SourceFile) (options : CompileOptions), keyText file options =
      file.hash ++ (("\x00schema=" ++ Bytes.dec schema.toNat ++ "\x00target=") ++
        (targetName options ++ 0 :: (("dialect=" : Bytes) ++ (options.dialect.name ++
          0 :: (("class=" : Bytes) ++ (options.className ++
            0 :: (("name=" : Bytes) ++ Path.base file.path))))))) := by
    intro file options
    simp only [keyText, List.append_assoc]
    rfl
  have digests : file.hash.length = other.hash.length := by
    rw [SourceFile.hash, SourceFile.hash, Digest.length_sha256, Digest.length_sha256]
  rw [split, split] at same
  obtain ⟨hash, same⟩ := List.append_inj same digests
  obtain ⟨target, same⟩ := targetName_inj (List.append_cancel_left same)
  obtain ⟨dialect, same⟩ := dialectName_inj (List.append_cancel_left same)
  have named : ∀ {base : Bytes}, 0 ∉ base → 0 ∉ ("name=" : Bytes) ++ base := by
    intro base apart member
    rcases List.mem_append.mp member with inside | inside
    · exact absurd inside (by decide)
    · exact apart inside
  obtain ⟨className, same⟩ := append_zero_inj (named clean) (named quiet)
    (List.append_cancel_left same)
  exact ⟨hash, target, dialect, className, List.append_cancel_left same⟩

end Minilang.Cache
