import Reckon.Number.Exact

/-!
# Operations on floats

The operations that need more than one primitive: the exact remainder, the hypotenuse rounded once,
minimum and maximum that pass over a missing number, and whole powers.
-/

namespace Reckon.Real

/-- The circle's circumference over its diameter. -/
def pi : Float := 3.14159265358979323846

/-- The base of the natural logarithm. -/
def e : Float := 2.71828182845904523536

/-- A full turn. -/
def tau : Float := 6.28318530717958647692

/-- Degrees per radian. -/
def degreesPerRadian : Float := 57.2957795130823208768

/-- The remainder of the division toward zero, with the sign of the dividend. It is exact: both
significands are taken over a common exponent, and what remains has no more bits than one of them.
-/
def remainder (x y : Float) : Float :=
  match Exact.ofFloat x, Exact.ofFloat y with
  | .finite negative a p, .finite _ b q =>
    if b = 0 then
      0 / 0
    else
      let low := min p q
      let rest := (a * Nat.pow 2 (p - low).toNat) % (b * Nat.pow 2 (q - low).toNat)
      Binary64.nearest negative (rest * Nat.pow 2 low.toNat) (Nat.pow 2 (-low).toNat)
  | .finite .., .infinite _ => x
  | _, _ => 0 / 0

/-- The whole part of a square root, from the root of a quarter of the number. -/
def wholeRoot (n : Nat) : Nat :=
  if n < 2 then
    n
  else
    let root := 2 * wholeRoot (n / 4)
    if (root + 1) * (root + 1) ≤ n then root + 1 else root
termination_by n

/-- The square root of `square · 4 ^ exponent`, rounded once: the whole root of a scaled square has
more bits than a float, and a last odd bit stands for what is left. -/
def squareRoot (square : Nat) (exponent : Int) : Float :=
  let scaled := square * Nat.pow 4 64
  let root := wholeRoot scaled
  let sticky := if root * root = scaled then 0 else 1
  let exponent := exponent - 65
  Binary64.nearest false ((2 * root + sticky) * Nat.pow 2 exponent.toNat)
    (Nat.pow 2 (-exponent).toNat)

/-- The length of the hypotenuse over two legs. An infinite leg decides, whatever the other is. -/
def hypotenuse (x y : Float) : Float :=
  match Exact.ofFloat x, Exact.ofFloat y with
  | .infinite _, _ => x.abs
  | _, .infinite _ => y.abs
  | .finite _ a p, .finite _ b q =>
    let low := min p q
    let a := a * Nat.pow 2 (p - low).toNat
    let b := b * Nat.pow 2 (q - low).toNat
    squareRoot (a * a + b * b) low
  | _, _ => 0 / 0

/-- The lesser of two floats. A float that is no number gives way to the other, and so does the
first of two equal ones: of two zeros the second one keeps its sign. -/
def minimum (x y : Float) : Float :=
  if y.isNaN then x else if x < y then x else y

/-- The greater of two floats. A float that is no number gives way to the other, and so does the
first of two equal ones: of two zeros the second one keeps its sign. -/
def maximum (x y : Float) : Float :=
  if y.isNaN then x else if y < x then x else y

/-- The float moved into an interval. -/
def clamp (x low high : Float) : Float :=
  let x := if x < low then low else x
  if high < x then high else x

/-- Minus one, one, or zero for a zero of either sign; a float that is no number stays. -/
def sign (x : Float) : Float :=
  if x < 0 then -1 else if 0 < x then 1 else if x == 0 then 0 else x

/-- `result · base ^ exponent`, by repeated squaring. -/
def powerFrom (result base : Float) (exponent : Nat) : Float :=
  if exponent = 0 then
    result
  else
    powerFrom (if exponent % 2 = 1 then result * base else result) (base * base) (exponent / 2)
termination_by exponent

/-- A whole power, by repeated squaring. -/
def power (base : Float) (exponent : Nat) : Float :=
  powerFrom 1 base exponent

end Reckon.Real
