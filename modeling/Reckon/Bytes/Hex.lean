import Reckon.Text.Basic

/-!
# Bytes as hex digits

Each byte is written as two lower case hex digits. Reading also takes upper case digits, and a byte
written as a plus sign and one digit.
-/

namespace Reckon.Hex

/-- The value of a hex digit of either case. -/
def digitValue? (c : Char) : Option Nat :=
  if '0' ≤ c && c ≤ '9' then some (c.toNat - '0'.toNat)
  else if 'a' ≤ c && c ≤ 'f' then some (c.toNat - 'a'.toNat + 10)
  else if 'A' ≤ c && c ≤ 'F' then some (c.toNat - 'A'.toNat + 10)
  else none

/-- The character is a hex digit. -/
def isDigit (c : Char) : Bool :=
  (digitValue? c).isSome

/-- The byte that a pair of characters spells. -/
def byte? (high low : Char) : Option UInt8 := do
  let high ← if high = '+' then some 0 else digitValue? high
  let low ← digitValue? low
  return UInt8.ofNat (16 * high + low)

/-- The bytes that a text spells, two characters each. -/
def decode : Text → Option (List UInt8)
  | [] => some []
  | [_] => none
  | high :: low :: rest => do
    let byte ← byte? high low
    let bytes ← decode rest
    return byte :: bytes

/-- The two digits of a byte. -/
def encodeByte (byte : UInt8) : Text :=
  [Nat.digitChar (byte.toNat / 16), Nat.digitChar (byte.toNat % 16)]

/-- The digits of a sequence of bytes. -/
def encode (bytes : List UInt8) : Text :=
  bytes.flatMap encodeByte

end Reckon.Hex
