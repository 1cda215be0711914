import Reckon.Function.Basic
import Reckon.Unicode.CaseMap
import Reckon.Value.Reading

/-!
# Functions of strings

Lengths and positions count characters.
-/

namespace Reckon.Textual

open Strict

/-- The longest text that repetition may build, in bytes. -/
def repetitionLimit : Nat := 0x1000000

/-- A function of a text. -/
def ofText (compute : Text → Text) : Strict :=
  unary fun x => return .string (String.ofList (compute (← x.expectString).toList))

/-- A question about two texts. -/
def test (holds : Text → Text → Bool) : Strict :=
  binary fun x y => do
    let x ← x.expectString
    let y ← y.expectString
    return .boolean (holds x.toList y.toList)

/-- The number of characters of a string or of bytes of a byte array. -/
def length : Strict :=
  unary fun
    | .byteArray bytes => .ok (.integer (Int64.ofNat bytes.length))
    | x => return .integer (Int64.ofNat (← x.expectString).length)

/-- The string in upper case. -/
def upper : Strict :=
  ofText Unicode.upperCase

/-- The string in lower case. -/
def lower : Strict :=
  ofText Unicode.lowerCase

/-- The string without blanks at both ends. -/
def trim : Strict :=
  ofText Text.trim

/-- Two strings or two byte arrays, one after the other. -/
def concat : Strict :=
  binary fun
    | .byteArray a, .byteArray b => .ok (.byteArray (a ++ b))
    | x, y => do
      let x ← x.expectString
      let y ← y.expectString
      return .string (x ++ y)

/-- The second string occurs in the first. -/
def contains : Strict :=
  test fun text pattern => Text.contains pattern text

/-- The first string starts with the second. -/
def startsWith : Strict :=
  test fun text pattern => pattern.isPrefixOf text

/-- The first string ends with the second. -/
def endsWith : Strict :=
  test fun text pattern => pattern.isSuffixOf text

/-- The sum of two integers, or the limit that it lies beyond. -/
def saturatingAdd (a b : Int64) : Int64 :=
  Int64.ofInt (max (-0x8000000000000000) (min 0x7FFFFFFFFFFFFFFF (a.toInt + b.toInt)))

/-- A number of characters of a string, from a position on. All of them must lie in the string. -/
def substring : Strict :=
  ternary fun text start count => do
    let text ← text.expectString
    let start ← start.expectInteger
    let count ← count.expectInteger
    let length := text.length
    if start.toInt < 0 then
      throw (.indexOutOfBounds start length)
    if count.toInt < 0 then
      throw (.invalidArgument (.negativeLength count))
    if (length : Int) < start.toInt + count.toInt then
      throw (.indexOutOfBounds (saturatingAdd start count) length)
    return .string (String.ofList ((text.toList.drop start.toInt.toNat).take count.toInt.toNat))

/-- The first string with each occurrence of the second replaced by the third. -/
def replace : Strict :=
  ternary fun text pattern replacement => do
    let pattern ← pattern.expectString
    if pattern.isEmpty then
      throw (.invalidArgument .emptyPattern)
    let text ← text.expectString
    let replacement ← replacement.expectString
    return .string (String.ofList
      (Text.replaceAll pattern.toList replacement.toList text.toList))

/-- Copies of a string, one after the other, from copies of half their number. -/
def copies (text : String) (count : Nat) : String :=
  if count = 0 then
    ""
  else
    let half := copies text (count / 2)
    if count % 2 = 0 then half ++ half else half ++ half ++ text
termination_by count

/-- A number of copies of a string. -/
def repetition : Strict :=
  binary fun text count => do
    let text ← text.expectString
    let count ← count.expectInteger
    if count.toInt < 0 then
      throw (.invalidArgument (.negativeCopies count))
    if repetitionLimit < text.utf8ByteSize * count.toInt.toNat then
      throw (.invalidArgument (.tooManyCopies count))
    return .string (copies text count.toInt.toNat)

/-- The text of any value. -/
def toText : Strict :=
  unary fun x => .ok (.string x.display)

/-- The number that a string spells between blanks. -/
def toNumber : Strict :=
  unary fun x => do
    let text := Text.trim (← x.expectString).toList
    match Value.readNumber? text with
    | some number => return number
    | none => throw (.invalidArgument (.notNumber text))

end Reckon.Textual
