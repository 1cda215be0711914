import Reckon.Number.Decimal
import Reckon.Value.Basic

/-!
# Reading values from text

The texts in which a value of a known kind can be given from outside an expression.
-/

namespace Reckon.Value

/-- The number that a text spells: an integer if it fits, otherwise a float. -/
def readNumber? (text : Text) : Option Value :=
  match Decimal.readInt64? text with
  | some i => some (.integer i)
  | none => (Decimal.readFloat? text).map .float

/-- The text behind an optional `0x` or `0X`. -/
def dropHexMark : Text → Text
  | '0' :: 'x' :: digits => digits
  | '0' :: 'X' :: digits => digits
  | digits => digits

/-- The value of a kind that a text spells. A string is its own text. -/
def read? (kind : Kind) (text : Text) : Option Value :=
  match kind with
  | .numeric mode => (readNumber? text).bind (·.adjust? (.numeric mode))
  | .boolean =>
    if text = "true".toList then some (.boolean true)
    else if text = "false".toList then some (.boolean false)
    else none
  | .string => some (.string (String.ofList text))
  | .byteArray => (Hex.decode (dropHexMark text)).map .byteArray

end Reckon.Value
