import Reckon.Grammar.Basic
import Reckon.Number.Decimal

/-!
# Finding operators

Where the operator tokens of a grammar stand in a text without parentheses. A word token counts only
as a whole word, and the sign of an exponent belongs to its number. Of tokens that start at one
place the longest counts, and nothing counts that starts inside another occurrence.
-/

namespace Reckon

/-- A token to look for, with its level as a binary operator if it is one. -/
structure OperatorToken where
  token : Text
  level : Option Nat

/-- An operator token in a text. Places count characters. -/
structure Occurrence where
  level : Option Nat
  start : Nat
  token : Text

/-- The place behind the token. -/
def Occurrence.stop (occurrence : Occurrence) : Nat :=
  occurrence.start + occurrence.token.length

/-- The place of a character of a text, counted in bytes. -/
def Text.byteOffset (text : Text) (place : Nat) : Nat :=
  Text.utf8Size (text.take place)

namespace OperatorToken

/-- No word character stands directly before or behind a place. -/
def standsAlone (head rest : Text) : Bool :=
  !head.getLast?.any Text.isWordChar && !rest.head?.any Text.isWordChar

/-- A sign between these texts belongs to the exponent of a number: the letter of an exponent and a
mantissa stand before it, and a digit behind it. -/
def belongsToExponent (head rest : Text) : Bool :=
  match head.reverse with
  | [] => false
  | c :: mantissa =>
    let isMantissa (c : Char) := Decimal.isDigit c || c == '.'
    (c == 'e' || c == 'E') && rest.head?.any Decimal.isDigit &&
      (mantissa.takeWhile isMantissa).any Decimal.isDigit &&
      !(mantissa.dropWhile isMantissa).head?.any Text.isWordChar

/-- The token counts between these texts. -/
def fits (token head rest : Text) : Bool :=
  if Text.isWord token then standsAlone head rest
  else if token = ['+'] ∨ token = ['-'] then !belongsToExponent head rest
  else true

/-- The places where a token counts, found from left to right without overlap. -/
def occurrences (operator : OperatorToken) (text : Text) : List Occurrence :=
  let starts := (Text.occurrences operator.token text).filter fun start =>
    fits operator.token (text.take start) (text.drop (start + operator.token.length))
  starts.map fun start => ⟨operator.level, start, operator.token⟩

end OperatorToken

namespace Occurrence

/-- The order of reading: from left to right, and from one place the longest first. -/
def reads (a b : Occurrence) : Bool :=
  a.start < b.start || (a.start == b.start && b.token.length ≤ a.token.length)

/-- The occurrences that start inside none that is kept before them. `covered` is where the last
kept one ends. -/
def keepDisjoint (covered : Nat) : List Occurrence → List Occurrence
  | [] => []
  | occurrence :: rest =>
    if occurrence.start < covered then keepDisjoint covered rest
    else occurrence :: keepDisjoint occurrence.stop rest

end Occurrence

namespace Grammar

/-- The tokens to look for: the binary operators, and the prefix operators that are no binary ones.
-/
def operatorTokens (grammar : Grammar) : List OperatorToken :=
  let binary := grammar.operators.tokens.map fun (level, token) => ⟨token, some level⟩
  let others := grammar.prefixes.eraseDups.filter fun token =>
    !(grammar.operators.tokens.map (·.2)).contains token
  binary ++ others.map fun token => ⟨token, none⟩

/-- The operators of a text, from left to right. -/
def occurrences (grammar : Grammar) (text : Text) : List Occurrence :=
  let found := grammar.operatorTokens.flatMap (·.occurrences text)
  Occurrence.keepDisjoint 0 (found.mergeSort Occurrence.reads)

end Grammar

end Reckon
