import Reckon.Function.Basic
import Reckon.Number.Real
import Reckon.Operator.Apply

/-!
# Numeric functions

Functions of reals compute on floats, and refuse arguments outside their domain where the result
would be no number. Those that make sense on integers keep them integers.
-/

namespace Reckon.Numeric

open Strict

/-- A function of one real. -/
def real (compute : Float → Float) : Strict :=
  unary fun x => return .float (compute (← x.expectFloat))

/-- A function of one real with a domain. The requirement says in words what the domain is. -/
def realWithin (function requirement : String) (inDomain : Float → Bool) (compute : Float → Float) :
    Strict :=
  unary fun x => do
    let x ← x.expectFloat
    if inDomain x then
      return .float (compute x)
    else
      throw (.invalidArgument (.outsideDomain function requirement x))

/-- A function of two reals. -/
def real₂ (compute : Float → Float → Float) : Strict :=
  binary fun x y => do
    let x ← x.expectFloat
    let y ← y.expectFloat
    return .float (compute x y)

/-- A constant. -/
def constant (x : Float) : Strict :=
  nullary (.ok (.float x))

/-- The arcsine and the arccosine are defined between minus one and one. -/
def inUnitInterval (x : Float) : Bool :=
  -1 ≤ x && x ≤ 1

/-- The arcsine. -/
def arcsine : Strict :=
  realWithin "asin" "a value in [-1, 1]" inUnitInterval Float.asin

/-- The arccosine. -/
def arccosine : Strict :=
  realWithin "acos" "a value in [-1, 1]" inUnitInterval Float.acos

/-- The square root. -/
def squareRoot : Strict :=
  realWithin "sqrt" "a non-negative value" (fun x => 0 ≤ x) Float.sqrt

/-- The natural logarithm. -/
def naturalLogarithm : Strict :=
  realWithin "ln" "a positive value" (fun x => 0 < x) Float.log

/-- The logarithm to base ten. -/
def commonLogarithm : Strict :=
  realWithin "log10" "a positive value" (fun x => 0 < x) Float.log10

/-- The logarithm to base two. -/
def binaryLogarithm : Strict :=
  realWithin "log2" "a positive value" (fun x => 0 < x) Float.log2

/-- The logarithm to any base. A base whose logarithm is zero divides by zero. -/
def logarithm : Strict :=
  binary fun value base => do
    let value ← value.expectFloat
    let base ← base.expectFloat
    if value ≤ 0 || base ≤ 0 then
      throw (.invalidArgument (.logarithm value base))
    let divisor := base.log
    if divisor == 0 then
      throw .divisionByZero
    return .float (value.log / divisor)

/-- The distance from zero. -/
def absolute : Strict :=
  unary fun
    | .integer i => integerOrOverflow (Integer.abs? i)
    | x => return .float (← x.expectFloat).abs

/-- The sign of an integer. -/
def integerSign (i : Int64) : Int64 :=
  if i.toInt < 0 then -1 else if i.toInt = 0 then 0 else 1

/-- The sign: minus one, zero or one. -/
def sign : Strict :=
  unary fun
    | .integer i => .ok (.integer (integerSign i))
    | x => return .float (Real.sign (← x.expectFloat))

/-- The ways to make a number whole. -/
inductive Rounding where
  | down
  | up
  /-- To the nearest integer, away from zero from half-way. -/
  | nearest
  | towardZero

namespace Rounding

/-- The rounding that a function name stands for. -/
def ofName? : String → Option Rounding
  | "floor" => some .down
  | "ceil" => some .up
  | "round" => some .nearest
  | "trunc" => some .towardZero
  | _ => none

/-- The rounding on floats. -/
def compute : Rounding → Float → Float
  | .down => Float.floor
  | .up => Float.ceil
  | .nearest => Float.round
  | .towardZero => Binary64.truncate

/-- The rounding on values; the result is an integer. -/
def apply (rounding : Rounding) : Value → Except EvalError Value
  | .integer i => .ok (.integer i)
  | x => do
    let x ← x.expectFloat
    integerOrOverflow (Binary64.toInt64? (rounding.compute x))

end Rounding

/-- A rounding as a function. -/
def round (rounding : Rounding) : Strict :=
  unary rounding.apply

/-- The rounding with a given name. -/
def roundNamed (name : String) : Strict :=
  unary fun x =>
    match Rounding.ofName? name with
    | some rounding => rounding.apply x
    | none => .error (.invalidArgument (.unknownRounding name))

/-- Rounding to a number of decimal digits; a negative number of them rounds to tens, hundreds and
so on. Powers of ten beyond the range of floats are refused. -/
def roundToDigits : Strict :=
  binary fun x digits => do
    let x ← x.expectFloat
    let digits ← digits.expectInteger
    if digits.toInt.natAbs > 308 then
      throw (.invalidArgument (.roundingDigits digits))
    let factor := Real.power 10 digits.toInt.natAbs
    if digits.toInt < 0 then
      return .float ((x / factor).round * factor)
    else
      return .float ((x * factor).round / factor)

/-- Which of two numbers is wanted. -/
inductive Extremum where
  | least
  | greatest

namespace Extremum

/-- The extremum that a function name stands for: the least for `min`, else the greatest. -/
def ofName (name : String) : Extremum :=
  if name = "min" then .least else .greatest

/-- The extremum of two integers. -/
def ofIntegers (extremum : Extremum) (a b : Int64) : Int64 :=
  match extremum with
  | .least => if b.toInt < a.toInt then b else a
  | .greatest => if b.toInt < a.toInt then a else b

/-- The extremum of two floats. -/
def ofFloats : Extremum → Float → Float → Float
  | .least => Real.minimum
  | .greatest => Real.maximum

end Extremum

/-- The extremum of two numbers: an integer if both are. -/
def extremum (extremum : Extremum) : Strict :=
  binary fun
    | .integer a, .integer b => .ok (.integer (extremum.ofIntegers a b))
    | x, y => do
      let x ← x.expectFloat
      let y ← y.expectFloat
      return .float (extremum.ofFloats x y)

/-- An integer moved into an interval. -/
def clampInteger (x low high : Int64) : Int64 :=
  if x.toInt < low.toInt then low else if high.toInt < x.toInt then high else x

/-- A number moved into an interval: an integer if all three numbers are. -/
def clamp : Strict :=
  ternary fun
    | .integer x, .integer low, .integer high =>
      if high.toInt < low.toInt then
        .error (.invalidArgument (.emptyInterval (.integer low) (.integer high)))
      else
        .ok (.integer (clampInteger x low high))
    | x, low, high => do
      let x ← x.expectFloat
      let low ← low.expectFloat
      let high ← high.expectFloat
      if high < low || low.isNaN || high.isNaN then
        throw (.invalidArgument (.emptyInterval (.float low) (.float high)))
      return .float (Real.clamp x low high)

/-- Any number as a float. -/
def toFloat : Strict :=
  real id

end Reckon.Numeric
