import Reckon.Bytes.Utf8
import Reckon.Value.Basic

/-!
# Evaluation errors

Why an evaluation has no value. Errors are kept as causes; `EvalError.message` is the one place
where they are put into words.
-/

namespace Reckon

/-- What an operation wanted of a value. -/
inductive Expectation where
  | number
  | integer
  | boolean
  | string
  | byteArray

/-- A value, or a number of values, that an operation cannot take at all. -/
inductive TypeFault where
  | unexpected (expected : Expectation) (found : Value)
  | operandCount (operation : String) (found : Nat)

/-- An argument outside what a function is defined for. -/
inductive ArgumentFault where
  | notInteger (x : Float)
  | argumentCount (expected found : Nat)
  | branchCount (found : Nat)
  | outsideDomain (function requirement : String) (x : Float)
  | logarithm (value base : Float)
  | emptyInterval (low high : Value)
  | unknownRounding (name : String)
  | roundingDigits (digits : Int64)
  | negativeLength (count : Int64)
  | negativeCopies (count : Int64)
  | tooManyCopies (count : Int64)
  | emptyPattern
  | notUtf8 (fault : Utf8.Fault)
  | notNumber (text : Text)
  | emptyRange (bound : Int64)
  | emptyRangeBetween (low high : Int64)
  /-- A cause that a function outside this library gives in its own words. -/
  | custom (details : String)

/-- Why an evaluation has no value. -/
inductive EvalError where
  /-- A parameter has no binding. -/
  | missingParameter (name : String)
  /-- A parameter is bound to a value that cannot take its kind. -/
  | parameterKind (name : String) (expected found : Kind)
  | divisionByZero
  /-- An integer result does not fit in 64 bits. -/
  | overflow
  | invalidArgument (fault : ArgumentFault)
  /-- A position outside a text or a byte array. -/
  | indexOutOfBounds (index : Int64) (length : Nat)
  | typeMismatch (fault : TypeFault)

/-- The text of a float in a message. -/
def floatText (x : Float) : String :=
  String.ofList (Shortest.write x)

/-- The text of an integer in a message. -/
def integerText (i : Int64) : String :=
  String.ofList (Value.writeInteger i)

namespace Expectation

/-- The expectation in words. -/
def describe : Expectation → String
  | .number => "a number"
  | .integer => "an integer"
  | .boolean => "a boolean"
  | .string => "a string"
  | .byteArray => "a byte array"

end Expectation

namespace TypeFault

/-- The fault in words. -/
def describe : TypeFault → String
  | .unexpected expected found =>
    s!"expected {expected.describe}, found {found.kind.name} value {found.display}"
  | .operandCount operation found => s!"'{operation}' cannot take {found} operand(s)"

end TypeFault

namespace Utf8.Fault

/-- The fault in words. -/
def describe : Fault → String
  | .invalid start length => s!"invalid utf-8 sequence of {length} bytes from index {start}"
  | .incomplete start => s!"incomplete utf-8 byte sequence from index {start}"

end Utf8.Fault

namespace ArgumentFault

/-- The fault in words. -/
def describe : ArgumentFault → String
  | .notInteger x => s!"{floatText x} is not an integer"
  | .argumentCount expected found => s!"expected {expected} argument(s), found {found}"
  | .branchCount found => s!"if expects 3 arguments, found {found}"
  | .outsideDomain function requirement x =>
    s!"{function} expects {requirement}, found {floatText x}"
  | .logarithm value base =>
    s!"log({floatText value}, {floatText base}): value and base must be positive"
  | .emptyInterval low high => s!"clamp: min ({low.display}) > max ({high.display})"
  | .unknownRounding name => s!"unknown rounding '{name}'"
  | .roundingDigits digits => s!"cannot round to {integerText digits} digits"
  | .negativeLength count => s!"negative count {integerText count}"
  | .negativeCopies count => s!"repeat: negative count {integerText count}"
  | .tooManyCopies count => s!"repeat: result of {integerText count} copies is too long"
  | .emptyPattern => "replace: empty pattern"
  | .notUtf8 fault => s!"utf8: {fault.describe}"
  | .notNumber text => s!"'{String.ofList text}' is not a number"
  | .emptyRange bound => s!"random({integerText bound}): bound must be positive"
  | .emptyRangeBetween low high =>
    s!"random({integerText low}, {integerText high}): empty range"
  | .custom details => details

end ArgumentFault

namespace EvalError

/-- The error in words. -/
def message : EvalError → String
  | .missingParameter name => s!"Missing value for parameter '{name}'."
  | .parameterKind name expected found =>
    s!"Parameter '{name}' expects a {expected.name} value, but a {found.name} value was supplied."
  | .divisionByZero => "Division by zero."
  | .overflow => "Integer overflow while computing the result."
  | .invalidArgument fault => s!"Invalid argument: {fault.describe}."
  | .indexOutOfBounds index length =>
    s!"Index {integerText index} is out of bounds for length {length}."
  | .typeMismatch fault => s!"Type mismatch: {fault.describe}."

end EvalError

end Reckon
