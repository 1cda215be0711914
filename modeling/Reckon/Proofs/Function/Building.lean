import Reckon.Proofs.Fallible
import Reckon.Registry

/-!
# Building resolved calls

How a resolved call is built, by its number of arguments: one application if the function takes so
many (`ResolvedCall.buildM_of_arity`), a chain of them if it takes fewer
(`ResolvedCall.buildM_of_ne`), and none if there are more or fewer than it was resolved for
(`ResolvedCall.buildM_of_length_ne`).
-/

namespace Reckon

/-- A call that a function fits exactly is resolved to it. -/
theorem Registry.resolve_of_get {registry : Registry} {name : String} {function : Callable}
    (h : registry.get? name function.arity = some function) :
    registry.resolve name function.arity = .ok ⟨function, function.arity, .inl rfl⟩ := by
  unfold resolve
  split
  · next found hfound =>
      obtain rfl := Option.some.inj (h.symm.trans hfound)
      rfl
  · next hnone => exact absurd (h.symm.trans hnone) (by simp)

/-- A call is resolved for the number of arguments that was asked for. -/
theorem Registry.count_of_resolve {registry : Registry} {name : String} {count : Nat}
    {call : ResolvedCall} (h : registry.resolve name count = .ok call) : call.count = count := by
  unfold resolve at h
  split at h
  · cases h
    rfl
  · split at h
    · cases h
      rfl
    · split at h <;> cases h

namespace ResolvedCall

variable {m : Type → Type} [Monad m] [MonadLiftT (Except CompileError) m] {α : Type}
variable {call : ResolvedCall} {arguments : List α} {make : Operation → List α → m α}

theorem more_pos (call : ResolvedCall) (h : call.count ≠ call.function.arity) :
    0 < call.function.arity - 1 :=
  Nat.sub_pos_of_lt (call.fits.resolve_left h).2.1

/-- Another number of arguments than the call was resolved for is refused. -/
theorem buildM_of_length_ne (h : arguments.length ≠ call.count) :
    call.buildM arguments make =
      liftM (Except.error (.wrongArity call.function.name [call.function.arity] arguments.length) :
        Except CompileError α) := by
  unfold buildM
  exact if_pos (.inl h)

/-- A call with as many arguments as the function takes is one application. -/
theorem buildM_of_arity (h : arguments.length = call.count)
    (harity : call.count = call.function.arity) :
    call.buildM arguments make = make (.call call.function) arguments := by
  unfold buildM
  simp only
  rw [if_neg (by simp [h, harity]), dif_pos harity]

/-- A call with more arguments than the function takes is a chain of applications. -/
theorem buildM_of_ne (h : arguments.length = call.count)
    (harity : call.count ≠ call.function.arity) :
    call.buildM arguments make = (do
      let first ← make (.call call.function) (arguments.take call.function.arity)
      chain (make (.call call.function)) (call.more_pos harity) first
        (arguments.drop call.function.arity)) := by
  have hvariadic := (call.fits.resolve_left harity).1
  unfold buildM
  simp only
  rw [if_neg (by simp [h, hvariadic]), dif_neg harity]

theorem length_of_build {make : Operation → List α → Except CompileError α} {result : α}
    (h : call.build arguments make = .ok result) : arguments.length = call.count := by
  by_contra hne
  rw [build, buildM_of_length_ne hne] at h
  cases h

end ResolvedCall

end Reckon
