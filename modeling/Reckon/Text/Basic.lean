import Reckon.Unicode.Alphabetic
import Reckon.Unicode.Blank

/-!
# Texts

Source text, and everything cut out of it, is a list of characters, so that the phases of the
compiler recurse on it directly. This module holds the operations they share: trimming, finding the
first and the last occurrence of a pattern, splitting and replacing.
-/

namespace Reckon

/-- A text, as the sequence of its characters. -/
abbrev Text := List Char

namespace Text

/-- The number of bytes of the text in UTF-8. -/
def utf8Size : Text → Nat
  | [] => 0
  | c :: rest => c.utf8Size + utf8Size rest

/-- A character of names, numbers and generated names. -/
def isWordChar (c : Char) : Bool :=
  Unicode.isAlphanumeric c || c == '_'

/-- The text is a word: not empty, and made of word characters only. -/
def isWord (text : Text) : Bool :=
  !text.isEmpty && text.all isWordChar

/-- The text without its longest end of characters in a class. -/
def dropEndWhile (p : Char → Bool) (text : Text) : Text :=
  (text.reverse.dropWhile p).reverse

/-- The longest end of the text made of characters in a class. -/
def takeEndWhile (p : Char → Bool) (text : Text) : Text :=
  (text.reverse.takeWhile p).reverse

/-- The text without the characters of a class at both ends. -/
def trimWhile (p : Char → Bool) (text : Text) : Text :=
  dropEndWhile p (text.dropWhile p)

/-- The text without blanks at its end. -/
def trimEnd (text : Text) : Text :=
  dropEndWhile Unicode.isBlank text

/-- The text without blanks at both ends. -/
def trim (text : Text) : Text :=
  trimWhile Unicode.isBlank text

/-- The text is empty or made of blanks. -/
def isBlank (text : Text) : Bool :=
  text.all Unicode.isBlank

/-- The text before and after the first occurrence of a pattern. -/
def splitFirst (pattern : Text) : Text → Option (Text × Text)
  | [] => if pattern.isEmpty then some ([], []) else none
  | c :: rest =>
    if pattern.isPrefixOf (c :: rest) then
      some ([], (c :: rest).drop pattern.length)
    else
      (splitFirst pattern rest).map fun (before, after) => (c :: before, after)

/-- The text before and after the last occurrence of a pattern. -/
def splitLast (pattern : Text) : Text → Option (Text × Text)
  | [] => if pattern.isEmpty then some ([], []) else none
  | c :: rest =>
    match splitLast pattern rest with
    | some (before, after) => some (c :: before, after)
    | none =>
      if pattern.isPrefixOf (c :: rest) then
        some ([], (c :: rest).drop pattern.length)
      else
        none

/-- The pattern occurs in the text. -/
def contains (pattern text : Text) : Bool :=
  (splitFirst pattern text).isSome

/-- The pieces between the occurrences of a separator. `skip` counts the characters left of an
occurrence that has been entered. -/
def piecesFrom (separator : Text) : Nat → Text → List Text
  | _, [] => [[]]
  | skip + 1, _ :: rest => piecesFrom separator skip rest
  | 0, c :: rest =>
    if separator.isPrefixOf (c :: rest) then
      [] :: piecesFrom separator (separator.length - 1) rest
    else
      match piecesFrom separator 0 rest with
      | [] => [[c]]
      | piece :: pieces => (c :: piece) :: pieces

/-- The pieces of the text between the occurrences of a separator, found from left to right without
overlap. An empty separator stands between any two characters and at both ends. -/
def splitOn (separator text : Text) : List Text :=
  if separator.isEmpty then
    [] :: text.map (fun c => [c]) ++ [[]]
  else
    piecesFrom separator 0 text

/-- The text with each occurrence of a pattern replaced. -/
def replaceAll (pattern replacement text : Text) : Text :=
  List.intercalate replacement (splitOn pattern text)

/-- Offsets of the occurrences of a pattern. `skip` counts the characters left of an occurrence that
has been entered. -/
def occurrencesFrom (pattern : Text) : Nat → Nat → Text → List Nat
  | _, _, [] => []
  | offset, skip + 1, _ :: rest => occurrencesFrom pattern (offset + 1) skip rest
  | offset, 0, c :: rest =>
    if pattern.isPrefixOf (c :: rest) then
      offset :: occurrencesFrom pattern (offset + 1) (pattern.length - 1) rest
    else
      occurrencesFrom pattern (offset + 1) 0 rest

/-- Offsets of the occurrences of a pattern, found from left to right without overlap. An empty
pattern has none. -/
def occurrences (pattern text : Text) : List Nat :=
  if pattern.isEmpty then [] else occurrencesFrom pattern 0 0 text

/-- The maximal runs of word characters, and the empty runs between two neighbouring separators. -/
def words (text : Text) : List Text :=
  text.splitOnP fun c => !isWordChar c

end Text

end Reckon
