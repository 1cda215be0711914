/-!
# Kinds

The static type of an expression, a parameter or a value. Numbers have one kind per mode: integer,
float, or either of them. Kinds fall into four classes, and only kinds of one class can ever meet.
-/

namespace Reckon

/-- What is known about a number: `any` may be an integer or a float when it is computed. -/
inductive Mode where
  | any
  | integer
  | float
deriving DecidableEq, Repr

/-- The coarse class of a kind. -/
inductive KindClass where
  | numeric
  | string
  | boolean
  | byteArray
deriving DecidableEq, Repr

/-- The static type of an expression, a parameter or a value. -/
inductive Kind where
  | numeric (mode : Mode)
  | string
  | boolean
  | byteArray
deriving DecidableEq, Repr

namespace Mode

/-- Two constraints on one number together: the more specific one; an integer is never a float. -/
def meet? (a b : Mode) : Option Mode :=
  match a, b with
  | .any, mode => some mode
  | mode, .any => some mode
  | a, b => if a = b then some a else none

/-- The mode of a result computed from numbers of these modes: a float if one of them is, an integer
if all are and there is one, and otherwise either. -/
def ofOperands (modes : List Mode) : Mode :=
  if modes.contains .float then .float
  else if !modes.isEmpty && modes.all (· == .integer) then .integer
  else .any

end Mode

namespace KindClass

/-- The least constrained kind of the class. -/
def widest : KindClass → Kind
  | .numeric => .numeric .any
  | .string => .string
  | .boolean => .boolean
  | .byteArray => .byteArray

/-- The name of the class. -/
def name : KindClass → String
  | .numeric => "numeric"
  | .string => "string"
  | .boolean => "boolean"
  | .byteArray => "byte array"

end KindClass

namespace Kind

/-- A number, integer or float. -/
@[match_pattern] abbrev number : Kind := .numeric .any

/-- A 64-bit integer. -/
@[match_pattern] abbrev integer : Kind := .numeric .integer

/-- A binary64 float. -/
@[match_pattern] abbrev float : Kind := .numeric .float

/-- The class of a kind. -/
def toClass : Kind → KindClass
  | .numeric _ => .numeric
  | .string => .string
  | .boolean => .boolean
  | .byteArray => .byteArray

/-- The mode of a numeric kind. -/
def mode? : Kind → Option Mode
  | .numeric mode => some mode
  | _ => none

/-- A value of this kind can stand where `required` is expected. The classes agree, and a float
never stands for an integer; an integer widens to a float, and a number of either mode is accepted
for an integer, to be checked when it is known. -/
def standsFor (kind required : Kind) : Bool :=
  match kind, required with
  | .float, .integer => false
  | kind, required => kind.toClass == required.toClass

/-- The name of the kind. -/
def name : Kind → String
  | .numeric .any => "numeric"
  | .numeric .integer => "integer"
  | .numeric .float => "float"
  | kind => kind.toClass.name

end Kind

end Reckon
