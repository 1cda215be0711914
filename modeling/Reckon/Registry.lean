import Reckon.CompileError
import Reckon.Function.Standard
import Reckon.Operation

/-!
# The registry of functions

A registry maps a name and a number of arguments to a function. One name may stand for several
functions with different numbers of arguments; registering a name again with the same number
replaces the function under that name only.

A call that no function fits exactly may still be one of a variadic function: it is then built as a
chain of calls from the left.
-/

namespace Reckon

/-- Functions by name, the last registered first. -/
structure Registry where
  entries : List (String × Callable)

/-- A function together with the number of arguments that it is called with. A function that takes
fewer arguments is variadic and takes two at least, so that a chain of its calls comes to an end. -/
structure ResolvedCall where
  function : Callable
  count : Nat
  fits : count = function.arity ∨
    function.variadic = true ∧ 2 ≤ function.arity ∧ function.arity < count

namespace Registry

/-- The registry without functions. -/
def empty : Registry :=
  ⟨[]⟩

/-- The registry with a function under each of its names. -/
def register (registry : Registry) (function : Callable) : Registry :=
  ⟨function.names.map (·, function) ++ registry.entries⟩

/-- The registry of the functions of the language. -/
def standard : Registry :=
  Callable.standard.foldl register empty

/-- The function with a name and a number of arguments. -/
def get? (registry : Registry) (name : String) (arity : Nat) : Option Callable :=
  (registry.entries.find? fun entry => entry.1 == name && entry.2.arity == arity).map (·.2)

/-- Some function has this name. -/
def contains (registry : Registry) (name : String) : Bool :=
  registry.entries.any (·.1 == name)

/-- The numbers of arguments with which a name is registered, in ascending order. -/
def arities (registry : Registry) (name : String) : List Nat :=
  let named := registry.entries.filter (·.1 == name)
  (named.map (·.2.arity)).eraseDups.mergeSort (· ≤ ·)

/-- All names, sorted by code point. -/
def names (registry : Registry) : List String :=
  (registry.entries.map (·.1)).eraseDups.mergeSort (· ≤ ·)

/-- The variadic function of a name that a number of arguments can be folded with, which takes two
arguments at least and fewer than that number. Which one of several is not fixed; here it is the one
with the fewest arguments. -/
def variadic? (registry : Registry) (name : String) (count : Nat) : Option Callable :=
  (registry.arities name).findSome? fun arity =>
    if 2 ≤ arity ∧ arity < count then (registry.get? name arity).filter (·.variadic) else none

theorem arity_of_get {registry : Registry} {name : String} {arity : Nat} {function : Callable}
    (h : registry.get? name arity = some function) : function.arity = arity := by
  obtain ⟨entry, hfind, rfl⟩ := Option.map_eq_some_iff.mp h
  have hfound := List.find?_some hfind
  rw [Bool.and_eq_true, beq_iff_eq, beq_iff_eq] at hfound
  exact hfound.2

/-- A function that further arguments can be folded with is registered as a variadic one. -/
theorem get_of_variadic {registry : Registry} {name : String} {count : Nat} {function : Callable}
    (h : registry.variadic? name count = some function) :
    registry.get? name function.arity = some function ∧ function.variadic = true ∧
      2 ≤ function.arity ∧ function.arity < count := by
  obtain ⟨arity, -, harity⟩ := List.exists_of_findSome?_eq_some h
  obtain ⟨hbounds, hfilter⟩ := Option.ite_none_right_eq_some.mp harity
  obtain ⟨hget, hvariadic⟩ := Option.filter_eq_some_iff.mp hfilter
  obtain rfl := arity_of_get hget
  exact ⟨hget, hvariadic, hbounds⟩

/-- The function that a call refers to. -/
def resolve (registry : Registry) (name : String) (count : Nat) :
    Except CompileError ResolvedCall :=
  match h : registry.get? name count with
  | some function => .ok ⟨function, count, .inl (arity_of_get h).symm⟩
  | none =>
    match hvariadic : registry.variadic? name count with
    | some function => .ok ⟨function, count, .inr (get_of_variadic hvariadic).2⟩
    | none =>
      if registry.contains name then
        .error (.wrongArity name (registry.arities name) count)
      else
        .error (.unknownSymbol name count)

end Registry

namespace ResolvedCall

/-- Fold further arguments into a call that is already made. Each step makes a call of the call so
far and of `more` further arguments, or of as many as there are. -/
def chain {m : Type → Type} [Monad m] {α : Type} (make : List α → m α) {more : Nat}
    (hmore : 0 < more) (made : α) : List α → m α
  | [] => pure made
  | argument :: rest => do
    let made ← make (made :: (argument :: rest).take more)
    chain make hmore made ((argument :: rest).drop more)
termination_by arguments => arguments.length
decreasing_by
  rw [List.length_drop, List.length_cons]
  omega

/-- Build the call over its arguments with a maker of applications, which may have effects of its
own. More arguments than the arity are chained from the left: `f(f(a, b), c)` for three arguments of
a function of two. -/
def buildM {m : Type → Type} [Monad m] [MonadLiftT (Except CompileError) m] {α : Type}
    (call : ResolvedCall) (arguments : List α) (make : Operation → List α → m α) : m α :=
  let arity := call.function.arity
  let make := make (.call call.function)
  if arguments.length ≠ call.count ∨ (call.count ≠ arity ∧ !call.function.variadic) then
    liftM (Except.error (.wrongArity call.function.name [arity] arguments.length) :
      Except CompileError α)
  else if h : call.count = arity then
    make arguments
  else do
    let first ← make (arguments.take arity)
    have hmore : 0 < arity - 1 := Nat.sub_pos_of_lt (call.fits.resolve_left h).2.1
    chain make hmore first (arguments.drop arity)

/-- Build the call with a maker that may only fail. -/
def build {α : Type} (call : ResolvedCall) (arguments : List α)
    (make : Operation → List α → Except CompileError α) : Except CompileError α :=
  call.buildM arguments make

end ResolvedCall

end Reckon
