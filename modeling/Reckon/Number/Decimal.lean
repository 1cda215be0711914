import Reckon.Number.Exact
import Reckon.Text.Basic

/-!
# Reading decimal numbers

Integers are an optional sign and digits; floats also take a point, an exponent, and the names of
the infinities and of the number that is none. A float is the one nearest to the decimal it is
written as.
-/

namespace Reckon.Decimal

/-- The character is a decimal digit of ASCII. -/
def isDigit (c : Char) : Bool :=
  '0' ≤ c && c ≤ '9'

/-- The natural number that a run of digits spells. -/
def ofDigits (digits : Text) : Nat :=
  Nat.ofDigitChars 10 digits 0

/-- Whether the text starts with a minus sign, and the text after its sign. -/
def splitSign : Text → Bool × Text
  | '-' :: rest => (true, rest)
  | '+' :: rest => (false, rest)
  | text => (false, text)

/-- The text is a non-empty run of digits. -/
def isDigits (text : Text) : Bool :=
  !text.isEmpty && text.all isDigit

/-- The integer that a text spells: a sign or none, and digits. -/
def readInt? (text : Text) : Option Int :=
  let (negative, digits) := splitSign text
  if isDigits digits then some (Exact.signed negative (ofDigits digits)) else none

/-- The 64-bit integer that a text spells. -/
def readInt64? (text : Text) : Option Int64 :=
  (readInt? text).bind fit?

/-- The number of leading digits by which a decimal is rounded. The numbers half-way between two
floats have fewer digits, so of what follows it only counts whether all of it is zero. -/
def decidingDigits : Nat := 800

/-- The deciding digits, with a last digit for what follows them unless that is zero. -/
def condense (digits : Text) : Text :=
  let leading := digits.take decidingDigits
  if (digits.drop decidingDigits).all (· == '0') then leading else leading ++ ['1']

/-- The float nearest to `digits · 10 ^ exponent`. Decimals beyond the range of floats are decided
by the place of their first digit, so that no huge power is computed. -/
def nearest (negative : Bool) (digits : Text) (exponent : Int) : Float :=
  let digits := digits.dropWhile (· == '0')
  let magnitude := digits.length + exponent
  if digits.isEmpty ∨ magnitude < -400 then
    Binary64.nearest negative 0 1
  else if 400 < magnitude then
    Binary64.nearest negative (Nat.pow 2 1024) 1
  else
    let digits := condense digits
    let exponent := magnitude - digits.length
    Binary64.nearest negative (ofDigits digits * Nat.pow 10 exponent.toNat)
      (Nat.pow 10 (-exponent).toNat)

/-- An exponent is not read any further once it has reached this number. -/
def exponentLimit : Nat := 65536

/-- The exponent that a run of digits spells. Digits that follow when the limit has been reached are
passed over. -/
def exponentOfDigits (digits : Text) : Nat :=
  digits.foldl (fun n c => if n < exponentLimit then 10 * n + (c.toNat - '0'.toNat) else n) 0

/-- The exponent part of a number: nothing, or a letter `e`, an optional sign and digits. -/
def readExponent? : Text → Option Int
  | [] => some 0
  | c :: rest =>
    let (negative, digits) := splitSign rest
    if (c = 'e' ∨ c = 'E') ∧ isDigits digits then
      some (Exact.signed negative (exponentOfDigits digits))
    else
      none

/-- A number without a sign: digits with or without a point, at least one of them, and an exponent
part. -/
def readUnsigned? (negative : Bool) (text : Text) : Option Float := do
  let whole := text.takeWhile isDigit
  let rest := text.dropWhile isDigit
  let (fraction, rest) :=
    match rest with
    | '.' :: rest => (rest.takeWhile isDigit, rest.dropWhile isDigit)
    | rest => ([], rest)
  if whole.isEmpty && fraction.isEmpty then
    none
  else
    let exponent ← readExponent? rest
    return nearest negative (whole ++ fraction) (exponent - fraction.length)

/-- The name of an infinity or of the number that is none, in any case. -/
def readNamed? (negative : Bool) (text : Text) : Option Float :=
  match String.ofList (text.map Char.toLower) with
  | "inf" | "infinity" => some (Binary64.nearest negative (Nat.pow 2 1024) 1)
  | "nan" => some (Float.ofBits 0x7FF8000000000000)
  | _ => none

/-- The float that a text spells. -/
def readFloat? (text : Text) : Option Float :=
  let (negative, rest) := splitSign text
  (readUnsigned? negative rest).orElse fun _ => readNamed? negative rest

end Reckon.Decimal
