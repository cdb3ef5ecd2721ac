import Minilang.Bytes

/-! Taking apart computations that can fail. -/

namespace Minilang

/-- A sequence succeeds exactly when both of its parts do. -/
theorem bind_eq_ok {ε α β : Type} {first : Except ε α} {next : α → Except ε β} {result : β} :
    (first >>= next) = .ok result ↔ ∃ value, first = .ok value ∧ next value = .ok result := by
  cases first with
  | error fault =>
    refine ⟨fun wrong => ?_, fun ⟨_, wrong, _⟩ => ?_⟩ <;> cases wrong
  | ok value =>
    refine ⟨fun done => ⟨value, rfl, done⟩, ?_⟩
    rintro ⟨_, ⟨⟩, done⟩
    exact done

@[simp] theorem ok_bind {ε α β : Type} (value : α) (next : α → Except ε β) :
    (Except.ok value >>= next) = next value := rfl

@[simp] theorem error_bind {ε α β : Type} (fault : ε) (next : α → Except ε β) :
    (Except.error fault >>= next) = .error fault := rfl

@[simp] theorem pure_eq_ok {ε α : Type} (value : α) : (pure value : Except ε α) = .ok value := rfl

@[simp] theorem throw_eq_error {ε α : Type} (fault : ε) : (throw fault : Except ε α) = .error fault :=
  rfl

theorem exists_ok {ε α : Type} {result : Except ε α} (succeeds : result.toOption.isSome = true) :
    ∃ value, result = .ok value := by
  cases result with
  | error fault => cases succeeds
  | ok value => exact ⟨value, rfl⟩

end Minilang
