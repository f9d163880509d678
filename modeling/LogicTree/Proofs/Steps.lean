import Mathlib.Data.List.Basic

/-! # Steps that may fail

A step succeeds with a value or fails. What comes after a step is reached only if the step
succeeds. Of a list of steps either all succeed, or there is a first one that fails.
-/

namespace LogicTree

variable {ε α β : Type}

theorem throw_eq_error (failure : ε) : (throw failure : Except ε α) = .error failure := rfl

theorem pure_eq_ok (value : α) : (pure value : Except ε α) = .ok value := rfl

theorem error_bind (failure : ε) (rest : α → Except ε β) :
    (Except.error failure >>= rest) = .error failure := rfl

theorem bind_eq_ok_iff {step : Except ε α} {rest : α → Except ε β} {value : β} :
    (step >>= rest) = .ok value ↔ ∃ first, step = .ok first ∧ rest first = .ok value := by
  cases step with
  | error e => simp [bind, Except.bind]
  | ok first => simp [bind, Except.bind]

theorem bind_eq_error_iff {step : Except ε α} {rest : α → Except ε β} {failure : ε} :
    (step >>= rest) = .error failure ↔
      step = .error failure ∨ ∃ first, step = .ok first ∧ rest first = .error failure := by
  cases step with
  | error e => simp [bind, Except.bind]
  | ok first => simp [bind, Except.bind]

theorem test_bind_eq_ok_iff {test : Except ε Unit} {rest : Unit → Except ε β} {value : β} :
    (test >>= rest) = .ok value ↔ test = .ok () ∧ rest () = .ok value := by
  cases test with
  | error e => simp [bind, Except.bind]
  | ok first => simp [bind, Except.bind]

theorem map_eq_ok_iff {step : Except ε α} {f : α → β} {value : β} :
    step.map f = .ok value ↔ ∃ first, step = .ok first ∧ f first = value := by
  cases step with
  | error e => simp [Except.map]
  | ok first => simp [Except.map]

theorem mapError_eq_ok_iff {δ : Type} {step : Except ε α} {f : ε → δ} {value : α} :
    step.mapError f = .ok value ↔ step = .ok value := by
  cases step with
  | error e => simp [Except.mapError]
  | ok first => simp [Except.mapError]

theorem all_ok_or_first_error (results : List (Except ε α)) :
    (∃ values : List α, results = values.map .ok) ∨
      ∃ (values : List α) (failure : ε) (later : List (Except ε α)),
        results = values.map .ok ++ .error failure :: later := by
  induction results with
  | nil => exact .inl ⟨[], rfl⟩
  | cons result results ih =>
      cases result with
      | error failure => exact .inr ⟨[], failure, results, rfl⟩
      | ok value =>
          rcases ih with ⟨values, rfl⟩ | ⟨values, failure, later, rfl⟩
          · exact .inl ⟨value :: values, rfl⟩
          · exact .inr ⟨value :: values, failure, later, rfl⟩

end LogicTree
