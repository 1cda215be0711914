import Reckon.EvalError

/-!
# Taking values apart

The form of a value that an operation needs, or the error that names what was found instead. These
are the only places where an evaluation can meet a value of the wrong class.
-/

namespace Reckon.Value

/-- The error of a value that is not what was expected. -/
def unexpected {α : Type} (expected : Expectation) (found : Value) : Except EvalError α :=
  .error (.typeMismatch (.unexpected expected found))

/-- The value as a float; an integer widens to the nearest one. -/
def expectFloat : Value → Except EvalError Float
  | .float x => .ok x
  | .integer i => .ok (Binary64.ofInt64 i)
  | other => unexpected .number other

/-- The value as an integer; a float must be whole and in range. -/
def expectInteger : Value → Except EvalError Int64
  | .integer i => .ok i
  | .float x =>
    match Binary64.toInt64? x with
    | some i => .ok i
    | none => .error (.invalidArgument (.notInteger x))
  | other => unexpected .integer other

/-- The truth value. -/
def expectBool : Value → Except EvalError Bool
  | .boolean b => .ok b
  | other => unexpected .boolean other

/-- The text of a string. -/
def expectString : Value → Except EvalError String
  | .string s => .ok s
  | other => unexpected .string other

/-- The bytes of a byte array. -/
def expectBytes : Value → Except EvalError (List UInt8)
  | .byteArray bytes => .ok bytes
  | other => unexpected .byteArray other

end Reckon.Value
