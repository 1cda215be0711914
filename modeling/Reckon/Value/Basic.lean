import Reckon.Bytes.Hex
import Reckon.Kind
import Reckon.Number.Shortest
import Reckon.Number.Whole

/-!
# Values

What constants hold, bindings supply and evaluation produces. Every value has an exact kind and a
text. Two floats are the same value when they stand for the same number, or both for none.
-/

namespace Reckon

/-- A value of an expression. -/
inductive Value where
  | integer (i : Int64)
  | float (x : Float)
  | string (s : String)
  | boolean (b : Bool)
  | byteArray (bytes : List UInt8)

namespace Value

/-- The exact kind of the value. -/
def kind : Value → Kind
  | .integer _ => .integer
  | .float _ => .float
  | .string _ => .string
  | .boolean _ => .boolean
  | .byteArray _ => .byteArray

/-- The two values are one and the same. An integer is never the same value as a float. -/
def same : Value → Value → Bool
  | .integer a, .integer b => a == b
  | .float a, .float b => Binary64.same a b
  | .string a, .string b => a == b
  | .boolean a, .boolean b => a == b
  | .byteArray a, .byteArray b => a == b
  | _, _ => false

instance : BEq Value :=
  ⟨same⟩

/-- The text of a 64-bit integer. -/
def writeInteger (i : Int64) : Text :=
  if i.toInt < 0 then
    '-' :: Nat.toDigits 10 i.toInt.natAbs
  else
    Nat.toDigits 10 i.toInt.natAbs

/-- The text of the value: decimal digits, the bare text of a string, `true` or `false`, and bytes
as hex digits behind `0x`. -/
def write : Value → Text
  | .integer i => writeInteger i
  | .float x => Shortest.write x
  | .string s => s.toList
  | .boolean true => "true".toList
  | .boolean false => "false".toList
  | .byteArray bytes => '0' :: 'x' :: Hex.encode bytes

/-- The text of the value, as a string. -/
def display (value : Value) : String :=
  String.ofList value.write

/-- The value adjusted to a kind: an integer widens to a float, a whole float narrows to an integer,
and any other value keeps its form if it has the kind's class. -/
def adjust? (value : Value) (kind : Kind) : Option Value :=
  match value, kind with
  | .integer i, .float => some (.float (Binary64.ofInt64 i))
  | .float x, .integer => (Binary64.toInt64? x).map .integer
  | value, kind => if value.kind.toClass = kind.toClass then some value else none

end Value

end Reckon
