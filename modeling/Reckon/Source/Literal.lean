import Reckon.CompileError
import Reckon.Number.Decimal

/-!
# Literals

An operand that is exactly one literal or one name. Floats have a point with digits after it or an
exponent; bytes are hex digits behind `0x`; names start with a letter or an underscore. Integers
that do not fit and bytes with an odd number of digits are errors, not other things.
-/

namespace Reckon

/-- An operand without operators and parentheses. -/
inductive Literal where
  | float (x : Float)
  | integer (digits : Text)
  | bytes (digits : Text)
  | boolean (b : Bool)
  | name (name : Text)

namespace Literal

/-- The blanks that may surround a literal. -/
def isBlank (c : Char) : Bool :=
  c == ' ' || c == '\t' || c == '\r' || c == '\n' || c == '\x0c'

/-- The text is the exponent of a float: the letter, an optional sign, and digits. -/
def isExponent : Text → Bool
  | 'e' :: rest => Decimal.isDigits (Decimal.splitSign rest).2
  | 'E' :: rest => Decimal.isDigits (Decimal.splitSign rest).2
  | _ => false

/-- The text has the shape of a float: digits or none, a point and digits, with or without an
exponent; or digits and an exponent. -/
def isFloat (text : Text) : Bool :=
  let whole := text.takeWhile Decimal.isDigit
  match text.dropWhile Decimal.isDigit with
  | '.' :: rest =>
    let exponent := rest.dropWhile Decimal.isDigit
    !(rest.takeWhile Decimal.isDigit).isEmpty && (exponent.isEmpty || isExponent exponent)
  | rest => !whole.isEmpty && isExponent rest

/-- The digits of a byte array literal. -/
def hexDigits? : Text → Option Text
  | '0' :: 'x' :: digits => if digits.all Hex.isDigit then some digits else none
  | '0' :: 'X' :: digits => if digits.all Hex.isDigit then some digits else none
  | _ => none

/-- The character starts a name. -/
def isNameStart (c : Char) : Bool :=
  Unicode.isLetter c || c == '_'

/-- The character continues a name. -/
def isNamePart (c : Char) : Bool :=
  Unicode.isLetter c || Unicode.isNumber c || c == '_'

/-- The text is a name. -/
def isName : Text → Bool
  | [] => false
  | c :: rest => isNameStart c && rest.all isNamePart

/-- The literal or name that a text is as a whole, if it is one. A keyword is no name. -/
def ofWord (word : Text) : Except SyntaxFault (Option Literal) :=
  if Decimal.isDigits word then
    match Decimal.readInt64? word with
    | some _ => .ok (some (.integer word))
    | none => .error (.integerOutOfRange word)
  else
    match hexDigits? word with
    | some digits =>
      if digits.length % 2 = 0 then .ok (some (.bytes digits))
      else .error (.oddHexDigits digits)
    | none =>
      if isFloat word then
        .ok ((Decimal.readFloat? word).map .float)
      else if word = "true".toList then
        .ok (some (.boolean true))
      else if word = "false".toList then
        .ok (some (.boolean false))
      else if isName word then
        .ok (some (.name word))
      else
        .ok none

/-- The text has the shape of a token. The two keywords have the shape of names. -/
def isToken (text : Text) : Bool :=
  Decimal.isDigits text || (hexDigits? text).isSome || isFloat text || isName text

/-- The length of the longest token that a text starts with, up to a length. -/
def longest? (text : Text) : Nat → Option Nat
  | 0 => none
  | length + 1 =>
    if isToken (text.take (length + 1)) then some (length + 1) else longest? text length

/-- The literal or name that a text is, if it is one, whatever blanks surround it. The first token
is the longest one that the text starts with behind its blanks; nothing but blanks may follow it.
-/
def ofText (text : Text) : Except SyntaxFault (Option Literal) :=
  let start := text.dropWhile isBlank
  match longest? start start.length with
  | none => .ok none
  | some length =>
    if (start.drop length).all isBlank then ofWord (start.take length) else .ok none

/-- The value of a literal; a name has none. -/
def value? : Literal → Option Value
  | .float x => some (.float x)
  | .integer digits => (Decimal.readInt64? digits).map .integer
  | .bytes digits => (Hex.decode digits).map .byteArray
  | .boolean b => some (.boolean b)
  | .name _ => none

end Literal

end Reckon
