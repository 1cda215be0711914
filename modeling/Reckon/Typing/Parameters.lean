import Reckon.Node.Basic

/-!
# Parameters of an expression

The free variables of one expression, in the order in which they were first mentioned, which is also
the order of their slots. What is known about a parameter only ever grows: from nothing to a kind,
and from a number to an integer or a float. The changes are counted, which tells whether anything
was learned.
-/

namespace Reckon

/-- A parameter with the kind that its values must have. -/
structure TypedParameter where
  name : String
  kind : Kind
deriving DecidableEq

/-- The parameters met so far. -/
structure Parameters where
  /-- Names with what is known of their kinds, in slot order. -/
  entries : List (String × Option Kind)
  /-- How often a name was added or something was learned about one. -/
  changes : Nat

namespace Parameters

/-- No parameters. -/
def empty : Parameters :=
  ⟨[], 0⟩

/-- The number of parameters. -/
def size (parameters : Parameters) : Nat :=
  parameters.entries.length

/-- The slot of a parameter. -/
def slot? (parameters : Parameters) (name : String) : Option Nat :=
  parameters.entries.findIdx? (·.1 == name)

/-- The parameter in a slot. -/
def atSlot? (parameters : Parameters) (slot : Nat) : Option Parameter :=
  parameters.entries[slot]?.map fun entry => ⟨entry.1, entry.2, slot⟩

/-- The parameter with a name. -/
def get? (parameters : Parameters) (name : String) : Option Parameter :=
  (parameters.slot? name).bind parameters.atSlot?

/-- What is known of the kind of a parameter. -/
def kind? (parameters : Parameters) (name : String) : Option Kind :=
  (parameters.get? name).bind (·.state)

/-- The parameters with one more name, unless it is there. -/
def mention (parameters : Parameters) (name : String) : Parameters :=
  match parameters.slot? name with
  | some _ => parameters
  | none => ⟨parameters.entries ++ [(name, none)], parameters.changes + 1⟩

/-- The parameters with several more names, in order. -/
def mentionAll (parameters : Parameters) (names : List String) : Parameters :=
  names.foldl mention parameters

/-- What is known about a parameter after one more requirement: the requirement itself where nothing
was known, and otherwise the more specific of the two, if they agree. -/
def narrow? (current : Option Kind) (required : Kind) : Option Kind :=
  match current, required with
  | none, required => some required
  | some (.numeric a), .numeric b => (a.meet? b).map .numeric
  | some current, required => if current = required then some current else none

/-- The parameters with another state in a slot. Only another state counts as a change. -/
def setState (parameters : Parameters) (slot : Nat) (name : String) (state : Option Kind) :
    Parameters :=
  if parameters.kind? name = state then parameters
  else ⟨parameters.entries.set slot (name, state), parameters.changes + 1⟩

/-- The parameters after one more requirement on a name, which is added if it is new. A requirement
that contradicts an earlier one is an error. -/
def constrain (parameters : Parameters) (name : String) (required : Kind) :
    Except CompileError Parameters :=
  let parameters := parameters.mention name
  let current := parameters.kind? name
  match narrow? current required with
  | none => .error (.typeConflict (.parameter name (current.getD .number) required))
  | some kind =>
    match parameters.slot? name with
    | some slot => .ok (parameters.setState slot name (some kind))
    | none => .ok parameters

/-- The parameters with a kind for each: those that nothing constrains are numbers. -/
def withDefaults (parameters : Parameters) : Parameters :=
  { parameters with entries := parameters.entries.map fun (name, state) =>
      (name, some (state.getD .number)) }

/-- The names and kinds in slot order; what is not known counts as a number. -/
def manifest (parameters : Parameters) : List TypedParameter :=
  parameters.entries.map fun (name, state) => ⟨name, state.getD .number⟩

/-- The parameters in slot order. -/
def toList (parameters : Parameters) : List Parameter :=
  parameters.entries.zipIdx.map fun ((name, state), slot) => ⟨name, state, slot⟩

end Parameters

end Reckon
