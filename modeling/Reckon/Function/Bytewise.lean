import Reckon.Function.Basic

/-!
# Functions of byte arrays
-/

namespace Reckon.Bytewise

open Strict

/-- The bytes as hex digits. -/
def hex : Strict :=
  unary fun x => return .string (String.ofList (Hex.encode (← x.expectBytes)))

/-- The UTF-8 bytes of a string. -/
def ofString : Strict :=
  unary fun x => return .byteArray (← x.expectString).toUTF8.toList

/-- The string that bytes spell in UTF-8. -/
def toText : Strict :=
  unary fun x => do
    match Utf8.decode (← x.expectBytes) with
    | .ok text => return .string (String.ofList text)
    | .error fault => throw (.invalidArgument (.notUtf8 fault))

/-- The byte at a position, as an integer. -/
def byteAt : Strict :=
  binary fun bytes index => do
    let bytes ← bytes.expectBytes
    let index ← index.expectInteger
    if index.toInt < 0 then
      throw (.indexOutOfBounds index bytes.length)
    match bytes[index.toInt.toNat]? with
    | some byte => return .integer (Int64.ofNat byte.toNat)
    | none => throw (.indexOutOfBounds index bytes.length)

end Reckon.Bytewise
