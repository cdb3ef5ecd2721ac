import Minilang.Proofs.ParserCompleteness
import Minilang.Proofs.SameCode

/-! The limit on diagnostics. However many errors are reported and kept, a file has errors exactly
when there is something wrong with its text, and code does not depend on the limit. -/

namespace Minilang

open Grammar Rule

theorem SourceFile.reports_eq_nil_iff (file : SourceFile) (maxErrors : Nat) :
    (Program.parse { maxErrors } file.tokens).reports = [] ↔
      (Program.parse { maxErrors } file.tokens).errors = 0 := by
  constructor
  · intro silent
    rcases SourceFile.parse_beside (rfl : file.content = file.content) rfl maxErrors maxErrors with
      ⟨wrong, -⟩ | ⟨-, -, clean, -⟩
    · exact absurd silent wrong
    · exact clean
  · intro clean
    have valid := ((file.errors_eq_zero_iff maxErrors).mp clean).1
    refine List.eq_nil_iff_forall_not_mem.mpr fun d member => ?_
    obtain ⟨token, inside, complains⟩ := Program.parse_quiet clean member
    have faithful := file.tokens_whole.faithful token inside
    rw [Token.reports, faithful.valid (valid token inside)] at complains
    cases complains

/-- A token that is none, or tokens that make no program. -/
def SourceFile.HasErrors (file : SourceFile) : Prop :=
  (∃ token ∈ file.tokens, token.kind = .invalid) ∨
    ¬Derives (symbol .program) ((Tokens.body file.tokens).map Token.kind)

theorem SourceFile.hasErrors_iff (file : SourceFile) (maxErrors : Nat) :
    file.HasErrors ↔ 0 < (Program.parse { maxErrors } file.tokens).errors := by
  rw [Nat.pos_iff_ne_zero, ne_eq, file.errors_eq_zero_iff maxErrors]
  simp only [SourceFile.HasErrors, ne_eq, not_and_or, not_forall, exists_prop, not_not]

theorem SourceFile.parsed_hasErrors_iff (file : SourceFile) (limit : Nat) :
    (parseInto limit file).2.bag.hasErrors = true ↔
      0 < (Program.parse { maxErrors := limit } file.tokens).errors := by
  have errors := DistinctBag.hasErrors_iff limit fun d member =>
    (file.parse_reports { maxErrors := limit } member).1
  change ((DistinctBag.ofLimit limit).addAll
    (Program.parse { maxErrors := limit } file.tokens).reports).bag.hasErrors = true ↔ _
  rw [errors, ne_eq, file.reports_eq_nil_iff, Nat.pos_iff_ne_zero]

def Traced.IsOk (made : Traced Compilation) : Prop :=
  ∃ result, made.outcome = .ok result ∧ result.isOk = true

theorem Traced.isOk_iff (made : Traced Compilation) : made.IsOk ↔ ∃ code, made.Yields code := by
  constructor
  · rintro ⟨result, done, ok⟩
    have some_ : result.code.isSome = true := by
      rw [Compilation.isOk, Bool.and_eq_true] at ok
      exact ok.1
    obtain ⟨code, found⟩ := Option.isSome_iff_exists.mp some_
    exact ⟨code, result, done, ok, found⟩
  · rintro ⟨code, result, done, ok, -⟩
    exact ⟨result, done, ok⟩

/-- How many diagnostics are kept does not decide whether there is code, nor what it is: for every
limit the bag has errors after parsing exactly when the parser counted some, and that is when there
is a lexical or a syntax error. -/
theorem compile_ignores_limit (sources : SourceSet) (file : SourceFile) (options : CompileOptions)
    (limit bound : Nat) :
    let made := compile sources file { options with maxDiagnostics := limit } false
    let other := compile sources file { options with maxDiagnostics := bound } false
    (made.IsOk ↔ other.IsOk) ∧ (∀ code, made.Yields code ↔ other.Yields code) ∧
      ((parseInto limit file).2.bag.hasErrors = true ↔
        0 < (Program.parse { maxErrors := limit } file.tokens).errors) ∧
      (0 < (Program.parse { maxErrors := limit } file.tokens).errors ↔ file.HasErrors) := by
  intro made other
  have same : SameInput file file { options with maxDiagnostics := bound }
      { options with maxDiagnostics := limit } := ⟨rfl, rfl, rfl, rfl, rfl⟩
  have alike : ∀ code, made.Yields code ↔ other.Yields code :=
    same.yields_alike rfl rfl (Int.natCast_nonneg _) (Int.natCast_nonneg _) sources sources
  refine ⟨?_, alike, file.parsed_hasErrors_iff limit, (file.hasErrors_iff limit).symm⟩
  rw [Traced.isOk_iff, Traced.isOk_iff]
  exact exists_congr alike

end Minilang
