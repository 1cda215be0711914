import Reckon.Typing.Parameters

/-!
# Bindings

Values for the parameters of an expression, by name. A value is handed to a parameter in the form
that the parameter's kind asks for, or it is refused.
-/

namespace Reckon

/-- Values for parameters, by name. Each name stands once. -/
structure Bindings where
  entries : List (String × Value)

namespace Bindings

/-- No bindings. -/
def empty : Bindings :=
  ⟨[]⟩

/-- The value bound to a name. -/
def get? (bindings : Bindings) (name : String) : Option Value :=
  bindings.entries.lookup name

/-- The bindings with a value for a name, in place of any other. -/
def set (bindings : Bindings) (name : String) (value : Value) : Bindings :=
  ⟨bindings.entries.filter (·.1 != name) ++ [(name, value)]⟩

/-- The bindings of a list of pairs; of two pairs with one name the later counts. -/
def ofList (pairs : List (String × Value)) : Bindings :=
  pairs.foldl (fun bindings (name, value) => bindings.set name value) empty

/-- The number of names that are bound. -/
def size (bindings : Bindings) : Nat :=
  bindings.entries.length

/-- The bindings as pairs, sorted by name. -/
def toSortedList (bindings : Bindings) : List (String × Value) :=
  bindings.entries.mergeSort fun a b => a.1 ≤ b.1

/-- The same names are bound to the same values. -/
def same (a b : Bindings) : Bool :=
  a.size == b.size && a.entries.all fun (name, value) =>
    match b.get? name with
    | some other => value.same other
    | none => false

/-- The value of a parameter, in the form that its kind asks for. -/
def valueOf (bindings : Bindings) (parameter : TypedParameter) : Except EvalError Value :=
  match bindings.get? parameter.name with
  | none => .error (.missingParameter parameter.name)
  | some value =>
    match value.adjust? parameter.kind with
    | some value => .ok value
    | none => .error (.parameterKind parameter.name parameter.kind value.kind)

/-- The values of parameters, in their order, or the error of the first that has none. -/
def frame (bindings : Bindings) (parameters : List TypedParameter) :
    Except EvalError (List Value) :=
  parameters.mapM bindings.valueOf

end Bindings

end Reckon
