/-!
# Checked integer arithmetic

Operations on 64-bit integers whose result is the exact integer, or nothing when that integer does
not fit.
-/

namespace Reckon

/-- The 64-bit integer of this value, if it is in range. -/
def fit? (n : Int) : Option Int64 :=
  if -0x8000000000000000 ≤ n ∧ n < 0x8000000000000000 then some (Int64.ofInt n) else none

namespace Integer

/-- The integer as a natural number of so many bits, if it is one. -/
def unsigned? (bits : Nat) (n : Int) : Option Nat :=
  if 0 ≤ n ∧ n < Nat.pow 2 bits then some n.toNat else none

/-- The exact sum. -/
def add? (a b : Int64) : Option Int64 :=
  fit? (a.toInt + b.toInt)

/-- The exact difference. -/
def sub? (a b : Int64) : Option Int64 :=
  fit? (a.toInt - b.toInt)

/-- The exact product. -/
def mul? (a b : Int64) : Option Int64 :=
  fit? (a.toInt * b.toInt)

/-- The exact opposite. -/
def neg? (a : Int64) : Option Int64 :=
  fit? (-a.toInt)

/-- The exact distance from zero. -/
def abs? (a : Int64) : Option Int64 :=
  fit? a.toInt.natAbs

/-- The quotient toward zero. Only the least integer by minus one does not fit. -/
def quotient? (a b : Int64) : Option Int64 :=
  fit? (a.toInt.tdiv b.toInt)

/-- The remainder of `quotient?`, with the sign of the dividend; nothing where the quotient does not
fit. -/
def remainder? (a b : Int64) : Option Int64 :=
  (quotient? a b).bind fun _ => fit? (a.toInt.tmod b.toInt)

/-- The exact product with a power, one factor after another, as long as the products fit. -/
def mulPow? (base : Int64) : Nat → Int64 → Option Int64
  | 0, product => some product
  | exponent + 1, product => (mul? product base).bind (mulPow? base exponent)

/-- The exact power. The bases 0, 1 and -1 have powers for all exponents, and no other base has one
for an exponent of more than 32 bits. -/
def pow? (base : Int64) (exponent : Nat) : Option Int64 :=
  if base = 0 then
    some (if exponent = 0 then 1 else 0)
  else if base = 1 then
    some 1
  else if base = -1 then
    some (if exponent % 2 = 0 then 1 else -1)
  else
    (unsigned? 32 exponent).bind fun exponent => mulPow? base exponent 1

end Integer

end Reckon
