import Reckon.Number.Real
import Reckon.Operator.Basic
import Reckon.Value.Expect

/-!
# Applying operators

What the operators compute. Integer arithmetic is exact or an overflow. A quotient of integers stays
an integer when it is whole. Integers and floats are compared as the exact numbers they stand for.
-/

namespace Reckon

/-- An integer result, or the overflow error. -/
def integerOrOverflow (result : Option Int64) : Except EvalError Value :=
  match result with
  | some i => .ok (.integer i)
  | none => .error .overflow

namespace BinaryOperator

/-- Arithmetic that is exact on integers and otherwise done on floats. -/
def exactOrRounded (exact : Int64 → Int64 → Option Int64) (rounded : Float → Float → Float)
    (left right : Value) : Except EvalError Value :=
  match left, right with
  | .integer a, .integer b => integerOrOverflow (exact a b)
  | left, right => do
    let a ← left.expectFloat
    let b ← right.expectFloat
    return .float (rounded a b)

/-- A float operation that refuses a zero divisor. The divisor is looked at first. -/
def divideFloats (rounded : Float → Float → Float) (left right : Value) :
    Except EvalError Value := do
  let divisor ← right.expectFloat
  if divisor == 0 then
    throw .divisionByZero
  let dividend ← left.expectFloat
  return .float (rounded dividend divisor)

/-- The quotient: an integer where it is one, otherwise a float. -/
def divide (left right : Value) : Except EvalError Value :=
  match left, right with
  | .integer a, .integer b =>
    if b = 0 then
      .error .divisionByZero
    else
      match Integer.remainder? a b with
      | none => .error .overflow
      | some rest =>
        if rest = 0 then integerOrOverflow (Integer.quotient? a b)
        else divideFloats (· / ·) left right
  | left, right => divideFloats (· / ·) left right

/-- The remainder of the division toward zero. -/
def remainder (left right : Value) : Except EvalError Value :=
  match left, right with
  | .integer a, .integer b =>
    if b = 0 then .error .divisionByZero else integerOrOverflow (Integer.remainder? a b)
  | left, right => divideFloats Real.remainder left right

/-- The power: exact for integers with an exponent that is not negative, otherwise a float. -/
def power (left right : Value) : Except EvalError Value :=
  let floats : Except EvalError Value := do
    let a ← left.expectFloat
    let b ← right.expectFloat
    return .float (a.pow b)
  match left, right with
  | .integer base, .integer exponent =>
    if 0 ≤ exponent.toInt then
      integerOrOverflow (Integer.pow? base exponent.toInt.toNat)
    else
      floats
  | _, _ => floats

/-- The order of two numbers or of two strings. A float that is no number has none. -/
def compareValues (left right : Value) : Except EvalError (Option Ordering) :=
  match left, right with
  | .integer a, .integer b => .ok (some (compare a b))
  | .integer a, .float b => .ok (Binary64.compareInt64? a b)
  | .float a, .integer b => .ok ((Binary64.compareInt64? b a).map Ordering.swap)
  | .string a, .string b => .ok (some (compare a b))
  | left, right => do
    let a ← left.expectFloat
    let b ← right.expectFloat
    return Binary64.compare? a b

/-- The values are equal: as exact numbers if both are numbers, otherwise only within one class. -/
def equalValues (left right : Value) : Bool :=
  match left, right with
  | .integer a, .integer b => a == b
  | .float a, .float b => a == b
  | .integer a, .float b => Binary64.compareInt64? a b == some .eq
  | .float a, .integer b => Binary64.compareInt64? b a == some .eq
  | .string a, .string b => a == b
  | .boolean a, .boolean b => a == b
  | .byteArray a, .byteArray b => a == b
  | _, _ => false

/-- A test of the order of two values, which fails where there is none. -/
def ordered (test : Ordering → Bool) (left right : Value) : Except EvalError Value := do
  let order ← compareValues left right
  return .boolean (order.any test)

/-- The value of the operator on two values. -/
def apply (operator : BinaryOperator) (left right : Value) : Except EvalError Value :=
  match operator with
  | .add =>
    match left, right with
    | .string a, .string b => .ok (.string (a ++ b))
    | .byteArray a, .byteArray b => .ok (.byteArray (a ++ b))
    | left, right => exactOrRounded Integer.add? (· + ·) left right
  | .sub => exactOrRounded Integer.sub? (· - ·) left right
  | .mul => exactOrRounded Integer.mul? (· * ·) left right
  | .div => divide left right
  | .mod => remainder left right
  | .pow => power left right
  | .less => ordered (·.isLT) left right
  | .lessEqual => ordered (·.isLE) left right
  | .greater => ordered (·.isGT) left right
  | .greaterEqual => ordered (·.isGE) left right
  | .equal => .ok (.boolean (equalValues left right))
  | .notEqual => .ok (.boolean (!equalValues left right))
  | .and => do
    let a ← left.expectBool
    if a then
      return .boolean (← right.expectBool)
    else
      return .boolean false
  | .or => do
    let a ← left.expectBool
    if a then
      return .boolean true
    else
      return .boolean (← right.expectBool)
  | .xor => do
    let a ← left.expectBool
    let b ← right.expectBool
    return .boolean (a ^^ b)

end BinaryOperator

namespace UnaryOperator

/-- The value of the operator on a value. -/
def apply (operator : UnaryOperator) (operand : Value) : Except EvalError Value :=
  match operator, operand with
  | .negate, .integer i => integerOrOverflow (Integer.neg? i)
  | .negate, operand => do
    let x ← operand.expectFloat
    return .float (-x)
  | .plus, .integer i => .ok (.integer i)
  | .plus, operand => operand.expectFloat.map .float
  | .not, operand => do
    let b ← operand.expectBool
    return .boolean (!b)

end UnaryOperator

end Reckon
