import Reckon.Text.Basic
import Reckon.Unicode.Printable

/-!
# Quoted text

How a text is shown between double quotes: quotes and backslashes are escaped, the common controls
have short escapes, and a character without a visible form of its own is shown by its code point.
-/

namespace Reckon.Text

/-- One character as it stands between double quotes. -/
def escapeChar (c : Char) : Text :=
  match c with
  | '"' => ['\\', '"']
  | '\\' => ['\\', '\\']
  | '\n' => ['\\', 'n']
  | '\r' => ['\\', 'r']
  | '\t' => ['\\', 't']
  | '\x00' => ['\\', '0']
  | c =>
    if Unicode.isGraphemeExtend c || !Unicode.isPrintable c then
      ['\\', 'u', '{'] ++ Nat.toDigits 16 c.toNat ++ ['}']
    else
      [c]

/-- The text between double quotes, with escapes. -/
def quoted (text : Text) : Text :=
  '"' :: text.flatMap escapeChar ++ ['"']

end Reckon.Text
