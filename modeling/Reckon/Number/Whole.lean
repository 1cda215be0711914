import Reckon.Number.Exact

/-!
# Floats and whole numbers

The whole part of a float, and the exact comparison of floats with 64-bit integers. The least of
these integers is a float; the greatest one is none and widens to `2 ^ 63`, which is the first
float that is too large for any of them.
-/

namespace Reckon.Binary64

/-- The order of two floats; nothing orders a float that is no number. -/
def compare? (x y : Float) : Option Ordering :=
  x.toModel.compare y.toModel

/-- The float toward zero without what is behind its point. The bits of a float below its point are
the last ones, and all but the sign for a float below one. -/
def truncate (x : Float) : Float :=
  let bits := x.toBits.toNat
  let biased := bits / 0x10000000000000 % 0x800
  let behind := Nat.pow 2 (if biased < 1023 then 63 else 1075 - biased)
  Float.ofBits (UInt64.ofNat (bits / behind * behind))

/-- What is behind the point of a float. -/
def fraction (x : Float) : Float :=
  x - truncate x

/-- The 64-bit integer that a float stands for, if it is whole and in range. -/
def toInt64? (x : Float) : Option Int64 :=
  if !x.isFinite || fraction x != 0 then
    none
  else if x < ofInt64 Int64.minValue || ofInt64 Int64.maxValue ≤ x then
    none
  else
    some x.toModel.toInt64

/-- The order of an integer and a float, without rounding either. In range the integer is compared
with the whole part of the float; what is behind the point decides where these are equal. -/
def compareInt64? (i : Int64) (x : Float) : Option Ordering :=
  if x.isNaN then
    none
  else if ofInt64 Int64.maxValue ≤ x then
    some .lt
  else if x < ofInt64 Int64.minValue then
    some .gt
  else
    match compare i (truncate x).toModel.toInt64 with
    | .eq => compare? 0 (fraction x)
    | unequal => some unequal

end Reckon.Binary64
