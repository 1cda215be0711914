import Reckon.Eval
import Reckon.Proofs.Value.Kinds

/-!
# Outcomes of typed evaluations

An evaluation of something well typed may fail, but only for reasons that lie in the values: a
division by zero, an overflow, an argument or an index out of range. `EvalError.IsComputational`
names these errors, and `Yields` and `Eval.Yields` say that an outcome is a value with some property
or such an error. They compose along `bind`, so each function is checked step by step.
-/

namespace Reckon

/-- The error lies in the values that were computed with, not in their kinds and not in the
bindings. -/
def EvalError.IsComputational : EvalError → Prop
  | .divisionByZero | .overflow | .invalidArgument _ | .indexOutOfBounds .. => True
  | .missingParameter _ | .parameterKind .. | .typeMismatch _ => False

/-- The result has the property, or is a computational error. -/
inductive Yields {α : Type} (P : α → Prop) : Except EvalError α → Prop where
  | ok {a : α} (h : P a) : Yields P (.ok a)
  | error {e : EvalError} (h : e.IsComputational) : Yields P (.error e)

/-- Whatever is drawn, the result has the property, or is a computational error. -/
def Eval.Yields {α : Type} (P : α → Prop) (evaluation : Eval α) : Prop :=
  ∀ draws, Reckon.Yields P (evaluation.outcome draws)

section Strict

variable {α β : Type} {P Q : α → Prop} {R : β → Prop}

theorem Yields.mono {result : Except EvalError α} (h : Yields P result) (hPQ : ∀ a, P a → Q a) :
    Yields Q result := by
  cases h with
  | ok h => exact .ok (hPQ _ h)
  | error h => exact .error h

/-- Outcomes compose. -/
theorem Yields.bind {result : Except EvalError α} {next : α → Except EvalError β}
    (h : Yields P result) (hnext : ∀ a, P a → Yields R (next a)) : Yields R (result >>= next) := by
  cases h with
  | ok h => exact hnext _ h
  | error h => exact .error h

theorem yields_ite {c : Prop} [Decidable c] {yes no : Except EvalError α} (hyes : c → Yields P yes)
    (hno : ¬c → Yields P no) : Yields P (if c then yes else no) := by
  split
  · exact hyes ‹_›
  · exact hno ‹_›

/-- A step that only checks an argument: it fails with a computational error or goes on. -/
theorem yields_guard {c : Prop} [Decidable c] {e : EvalError} {next : Except EvalError α}
    (he : e.IsComputational) (hnext : ¬c → Yields P next) :
    Yields P (if c then throw e else next) :=
  yields_ite (fun _ => .error he) hnext

end Strict

namespace Eval

variable {α β : Type} {P : α → Prop} {R : β → Prop}

@[simp] theorem ofExcept_ok (a : α) : ofExcept (.ok a) = pure a :=
  rfl

theorem outcome_ofExcept (result : Except EvalError α) (draws : Draws) :
    (ofExcept result).outcome draws = result := by
  cases result <;> rfl

/-- An evaluation that draws nothing yields what its result yields. -/
theorem yields_ofExcept {result : Except EvalError α} :
    Eval.Yields P (ofExcept result) ↔ Reckon.Yields P result := by
  constructor
  · intro h
    simpa [outcome_ofExcept] using h ⟨fun _ => 0, 0⟩
  · intro h draws
    rwa [outcome_ofExcept]

theorem yields_pure {a : α} (h : P a) : Eval.Yields P (pure a : Eval α) :=
  fun _ => .ok h

/-- A step that only checks an argument: it fails with a computational error or goes on. -/
theorem yields_guard {c : Prop} [Decidable c] {e : EvalError} {next : Eval α}
    (he : e.IsComputational) (hnext : ¬c → Eval.Yields P next) :
    Eval.Yields P (if c then throw e else next) := by
  split
  · exact fun _ => .error he
  · exact hnext ‹_›

/-- Evaluations compose. -/
theorem Yields.bind {evaluation : Eval α} {next : α → Eval β} (h : Eval.Yields P evaluation)
    (hnext : ∀ a, P a → Eval.Yields R (next a)) : Eval.Yields R (evaluation >>= next) := by
  intro draws
  have hfirst := h draws
  show Reckon.Yields R (Except.map (·.1) (evaluation draws >>= fun (a, rest) => next a rest))
  unfold outcome at hfirst
  cases hrun : evaluation draws with
  | error e =>
      rw [hrun] at hfirst
      cases hfirst with
      | error h => exact .error h
  | ok result =>
      rw [hrun] at hfirst
      cases hfirst with
      | ok h => exact hnext result.1 h result.2

theorem Yields.mono {evaluation : Eval α} {Q : α → Prop} (h : Eval.Yields P evaluation)
    (hPQ : ∀ a, P a → Q a) : Eval.Yields Q evaluation :=
  fun draws => (h draws).mono hPQ

theorem yields_draw : Eval.Yields (fun _ => True) draw :=
  fun _ => .ok trivial

end Eval

namespace Value

theorem yields_expectFloat {value : Value} (h : value.kind.toClass = .numeric) :
    Yields (fun _ => True) value.expectFloat := by
  obtain ⟨i, rfl⟩ | ⟨x, rfl⟩ := numeric_cases h <;> exact .ok trivial

/-- A number has an integer, or it is a float that is not whole. -/
theorem yields_expectInteger {value : Value} (h : value.kind.toClass = .numeric) :
    Yields (fun _ => True) value.expectInteger := by
  obtain ⟨i, rfl⟩ | ⟨x, rfl⟩ := numeric_cases h
  · exact .ok trivial
  · simp only [expectInteger]
    split
    · exact .ok trivial
    · exact .error trivial

theorem yields_expectBool {value : Value} (h : value.kind.toClass = .boolean) :
    Yields (fun _ => True) value.expectBool := by
  obtain ⟨b, rfl⟩ := boolean_cases h
  exact .ok trivial

theorem yields_expectString {value : Value} (h : value.kind.toClass = .string) :
    Yields (fun _ => True) value.expectString := by
  obtain ⟨s, rfl⟩ := string_cases h
  exact .ok trivial

theorem yields_expectBytes {value : Value} (h : value.kind.toClass = .byteArray) :
    Yields (fun _ => True) value.expectBytes := by
  obtain ⟨bytes, rfl⟩ := byteArray_cases h
  exact .ok trivial

end Value

end Reckon
