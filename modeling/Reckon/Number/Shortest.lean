import Reckon.Number.Exact
import Reckon.Text.Basic

/-!
# The fewest digits that read back

A float is written with the fewest decimal digits for which it is the nearest float, and among those
with the digits nearest to its exact value. Digits are always laid out positionally: an exponent is
never shown, and a whole number has no point.
-/

namespace Reckon.Shortest

/-- Decimal digits and the place of the point: `0.d₁d₂… · 10 ^ point`. -/
structure Digits where
  digits : Text
  point : Int

/-- The exact value of a float and the interval of numbers that round to it, all over one
denominator. Each is compared with a decimal grid by cross multiplication. -/
structure Target where
  low : Nat
  value : Nat
  high : Nat
  denominator : Nat
  /-- The ends of the interval round to the float too. -/
  closed : Bool

/-- The target of `significand · 2 ^ exponent`. The neighbour below a power of two is half as far as
the neighbour above. -/
def Target.ofFinite (significand : Nat) (exponent : Int) : Target :=
  let unit := Nat.pow 2 (exponent - 2).toNat
  { low := (4 * significand - if significand = 0x10000000000000 then 1 else 2) * unit
    value := 4 * significand * unit
    high := (4 * significand + 2) * unit
    denominator := Nat.pow 2 (2 - exponent).toNat
    closed := significand % 2 == 0 }

/-- The numerator and the denominator of a power of ten. -/
def powerOfTen (exponent : Int) : Nat × Nat :=
  (Nat.pow 10 exponent.toNat, Nat.pow 10 (-exponent).toNat)

/-- The least `k` with the value below `10 ^ k`. The binary logarithm gives a first guess that is at
most two too small. -/
def Target.magnitude (target : Target) : Int :=
  let bits : Int := (Nat.log2 target.value : Int) - Nat.log2 target.denominator
  let guess := (bits - 1) * 30103 / 100000
  let below (k : Int) : Bool :=
    let (up, down) := powerOfTen k
    target.value * down < up * target.denominator
  if below guess then guess
  else if below (guess + 1) then guess + 1
  else if below (guess + 2) then guess + 2
  else guess + 3

/-- The point of the grid `count · 10 ^ unit` nearest to the value, if one of the value's two
neighbours on the grid lies in the interval. A value half-way between the two goes up. -/
def Target.onGrid? (target : Target) (unit : Int) : Option Nat :=
  let (up, down) := powerOfTen unit
  let step := up * target.denominator
  let value := target.value * down
  let inside (count : Nat) : Bool :=
    let point := count * step
    let low := target.low * down
    let high := target.high * down
    if target.closed then low ≤ point && point ≤ high else low < point && point < high
  let below := value / step
  let above := below + 1
  match inside below, inside above with
  | true, true => some (if value - below * step < above * step - value then below else above)
  | true, false => some below
  | false, true => some above
  | false, false => none

/-- The digits of `count · 10 ^ unit` without zeros at the end. -/
def Digits.ofCount (count : Nat) (unit : Int) : Digits :=
  let digits := Nat.toDigits 10 count
  { digits := Text.dropEndWhile (· == '0') digits, point := unit + digits.length }

/-- The first grid with a point in the interval, trying `count` more digits than `digits`. -/
def search (target : Target) (magnitude : Int) (digits : Nat) : Nat → Digits
  | 0 => Digits.ofCount 0 0
  | count + 1 =>
    let unit := magnitude - digits
    match target.onGrid? unit with
    | some point => Digits.ofCount point unit
    | none => search target magnitude (digits + 1) count

/-- The shortest digits of `significand · 2 ^ exponent`. Seventeen always suffice. -/
def digits (significand : Nat) (exponent : Int) : Digits :=
  let target := Target.ofFinite significand exponent
  search target target.magnitude 1 17

/-- The digits with the point in its place, and zeros up to it. -/
def Digits.layout (number : Digits) : Text :=
  let count : Int := number.digits.length
  if number.point ≤ 0 then
    ['0', '.'] ++ List.replicate (-number.point).toNat '0' ++ number.digits
  else if count ≤ number.point then
    number.digits ++ List.replicate (number.point - count).toNat '0'
  else
    number.digits.take number.point.toNat ++ '.' :: number.digits.drop number.point.toNat

/-- The text of a float. -/
def write (x : Float) : Text :=
  match Exact.ofFloat x with
  | .nan => "NaN".toList
  | .infinite negative => (if negative then ['-'] else []) ++ "inf".toList
  | .finite negative significand exponent =>
    (if negative then ['-'] else []) ++
      if significand = 0 then ['0'] else (digits significand exponent).layout

end Reckon.Shortest
