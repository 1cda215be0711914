import Reckon.CompileError
import Reckon.Grammar.Levels
import Reckon.Operator.Basic

/-!
# Grammars

The surface of the language: its parentheses, the separator of arguments, the quote around strings,
the operator tokens with their levels, and the tokens that may stand in front of an operand. A
grammar can be compiled against when its punctuation can never be part of a name and each of its
tokens is a name or free of word characters, and stands for an operator.
-/

namespace Reckon

/-- The surface syntax of the language. -/
structure Grammar where
  /-- Opens a group or an argument list. -/
  opening : Text
  /-- Closes a group or an argument list. -/
  closing : Text
  /-- Stands between arguments. -/
  separator : Text
  /-- Stands around strings. -/
  quote : Text
  /-- The binary operators. -/
  operators : Levels
  /-- The tokens that may stand in front of an operand. -/
  prefixes : List Text
  precedence : Precedence

namespace Grammar

/-- The binary operators of the standard grammar, the tightest first. -/
def standardOperators : Levels :=
  Levels.empty
    |>.insertAll 0 [['^'], ['*', '*']]
    |>.insertAll 1 [['*'], ['/'], ['%']]
    |>.insertAll 2 [['+'], ['-']]
    |>.insertAll 3 [['<'], ['<', '='], ['>'], ['>', '=']]
    |>.insertAll 4 [['=', '='], ['!', '='], ['<', '>']]
    |>.insertAll 5 [['&', '&'], ['a', 'n', 'd']]
    |>.insertAll 6 [['x', 'o', 'r']]
    |>.insertAll 7 [['|', '|'], ['o', 'r']]

/-- The standard grammar. -/
def standard : Grammar :=
  { opening := ['(']
    closing := [')']
    separator := [',']
    quote := ['"']
    operators := standardOperators
    prefixes := [['-'], ['+'], ['!'], ['n', 'o', 't']]
    precedence := .lowerBindsTighter }

/-- The token may stand in front of an operand. -/
def isPrefixToken (grammar : Grammar) (token : Text) : Bool :=
  grammar.prefixes.contains token

/-- All operator tokens, binary ones first. -/
def tokens (grammar : Grammar) : List Text :=
  grammar.operators.tokens.map (·.2) ++ grammar.prefixes

/-- The operator tokens that are words, such as `and`. -/
def wordTokens (grammar : Grammar) : List Text :=
  grammar.tokens.filter Text.isWord

/-- The punctuation with its roles. -/
def punctuation (grammar : Grammar) : List (Punctuation × Text) :=
  [ (.opening, grammar.opening), (.closing, grammar.closing),
    (.separator, grammar.separator), (.quote, grammar.quote) ]

/-- Punctuation is not empty and has no word character, so it never occurs inside a name. -/
def checkPunctuation (role : Punctuation) (text : Text) : Except CompileError Unit :=
  if text.isEmpty || text.any Text.isWordChar then
    .error (.malformed (.badPunctuation role text))
  else
    .ok ()

/-- A token is either a word that starts with a letter, or free of word characters and blanks. -/
def isToken (token : Text) : Bool :=
  if token.any Text.isWordChar then
    token.all Text.isWordChar && (token.head?.any Unicode.isAlphabetic)
  else
    !token.any Unicode.isBlank

/-- The token has a shape that can be found in a text. -/
def checkToken (token : Text) : Except CompileError Unit :=
  if token.isEmpty then .error (.malformed .emptyToken)
  else if isToken token then .ok ()
  else .error (.malformed (.mixedToken token))

/-- The token of a binary operator. -/
def checkBinaryToken (token : Text) : Except CompileError Unit := do
  checkToken token
  if (BinaryOperator.ofToken? token).isNone then
    throw (.unknownSymbol (String.ofList token) 2)

/-- The token of a prefix operator. -/
def checkPrefixToken (token : Text) : Except CompileError Unit := do
  checkToken token
  if (UnaryOperator.ofToken? token).isNone then
    throw (.unknownSymbol (String.ofList token) 1)

/-- The grammar can be compiled against; otherwise the first thing that is wrong with it. -/
def check (grammar : Grammar) : Except CompileError Unit := do
  grammar.punctuation.forM fun (role, text) => checkPunctuation role text
  if grammar.opening = grammar.closing then
    throw (.malformed .sameParentheses)
  grammar.operators.tokens.forM fun (_, token) => checkBinaryToken token
  grammar.prefixes.forM checkPrefixToken

end Grammar

end Reckon
