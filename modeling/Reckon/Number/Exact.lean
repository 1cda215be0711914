import Reckon.Number.Integer

/-!
# Floats as exact numbers

A binary64 float stands for a multiple of a power of two, for an infinity or for no number at all.
This module reads that number off the bits, orders such numbers without rounding, and gives the
float nearest to a quotient of naturals.
-/

namespace Reckon

/-- The exact number that a float stands for. -/
inductive Exact where
  /-- No number. -/
  | nan
  /-- Beyond every number, on one side. -/
  | infinite (negative : Bool)
  /-- `significand · 2 ^ exponent`, or its opposite. -/
  | finite (negative : Bool) (significand : Nat) (exponent : Int)

namespace Exact

/-- The number that the bits of a float encode. -/
def ofFloat (x : Float) : Exact :=
  let bits := x.toBits.toNat
  let negative := bits / 0x8000000000000000 == 1
  let biased : Nat := bits / 0x10000000000000 % 0x800
  let fraction : Nat := bits % 0x10000000000000
  if biased = 2047 then
    if fraction = 0 then .infinite negative else .nan
  else if biased = 0 then
    .finite negative fraction (-1074)
  else
    .finite negative (0x10000000000000 + fraction) ((biased : Int) - 1075)

/-- A significand with its sign. -/
def signed (negative : Bool) (significand : Nat) : Int :=
  if negative then -(significand : Int) else significand

/-- The order of two numbers, by their significands over a common exponent; nothing orders `nan`. -/
def compare? : Exact → Exact → Option Ordering
  | .nan, _ => none
  | _, .nan => none
  | .infinite a, .infinite b => some (compare b.toNat a.toNat)
  | .infinite negative, .finite .. => some (if negative then .lt else .gt)
  | .finite .., .infinite negative => some (if negative then .gt else .lt)
  | .finite sa a p, .finite sb b q =>
    let low := min p q
    some (compare (signed sa a * Nat.pow 2 (p - low).toNat)
      (signed sb b * Nat.pow 2 (q - low).toNat))

end Exact

namespace Binary64

/-- The float nearest to a 64-bit integer; of two nearest ones the one with the even significand. -/
def ofInt64 (i : Int64) : Float :=
  .ofModel (.ofInt64 i)

/-- The two floats stand for the same number, or both for none. -/
def same (x y : Float) : Bool :=
  match Exact.ofFloat x, Exact.ofFloat y with
  | .nan, .nan => true
  | a, b => a.compare? b == some .eq

/-- The natural number nearest to a quotient, the even one of two. -/
def roundEven (numerator denominator : Nat) : Nat :=
  let quotient := numerator / denominator
  let twice := 2 * (numerator % denominator)
  if twice < denominator then quotient
  else if twice > denominator then quotient + 1
  else quotient + quotient % 2

/-- The float nearest to a quotient of positive naturals, with a sign; of two nearest floats the one
with the even significand, and infinity beyond the largest float. The exponent is chosen so that the
significand has 53 bits, or the least exponent; a significand that rounds up to 54 bits carries into
the exponent field by itself. -/
def nearest (negative : Bool) (numerator denominator : Nat) : Float :=
  let sign := if negative then 0x8000000000000000 else 0
  if numerator = 0 then
    Float.ofBits (UInt64.ofNat sign)
  else
    let scale (exponent : Int) : Nat × Nat :=
      (numerator * Nat.pow 2 (-exponent).toNat, denominator * Nat.pow 2 exponent.toNat)
    let guess : Int := (Nat.log2 numerator : Int) - Nat.log2 denominator - 52
    let (n, d) := scale guess
    let exponent := max (if n < 0x10000000000000 * d then guess - 1 else guess) (-1074)
    let (n, d) := scale exponent
    let bits := (exponent + 1074).toNat * 0x10000000000000 + roundEven n d
    Float.ofBits (UInt64.ofNat (sign + min bits 0x7FF0000000000000))

end Binary64

end Reckon
