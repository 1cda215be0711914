import Reckon.Grammar.Basic
import Reckon.Source.Constants
import Reckon.Source.Symbols

/-!
# Cutting a source at its groups

String literals are taken out first, so nothing inside them counts. Then the first closing
parenthesis and the last opening one before it always enclose an innermost group. The group becomes
symbols, their names take its place in the text, and this repeats until no closing parenthesis is
left. What remains is the text of the whole source.
-/

namespace Reckon

/-- A source on its way to symbols: the text so far, and the symbols cut out of it. -/
structure Working where
  text : Text
  symbols : SymbolTable

namespace StringLiteral

/-- The body of a string literal and the text after its closing quote. A character behind a
backslash never closes. -/
def split? (quote : Text) : Bool → Text → Option (Text × Text)
  | _, [] => none
  | true, c :: rest =>
    (split? quote false rest).map fun (body, after) => (c :: body, after)
  | false, c :: rest =>
    if c = '\\' then
      (split? quote true rest).map fun (body, after) => (c :: body, after)
    else if quote.isPrefixOf (c :: rest) then
      some ([], (c :: rest).drop quote.length)
    else
      (split? quote false rest).map fun (body, after) => (c :: body, after)

/-- The text with each string literal replaced by the name of its constant, between spaces, and the
constants with those literals. -/
def extract (constants : ConstantTable) (text : Text) :
    Except SyntaxFault (Text × ConstantTable) :=
  let quote := constants.quote
  match Text.splitFirst quote text with
  | none => .ok (text, constants)
  | some (before, rest) =>
    match split? quote false rest with
    | none => .error (.unterminatedString (quote ++ rest))
    | some (body, after) =>
      let literal := quote ++ body ++ quote
      match constants.enter literal with
      | .error fault => .error fault
      | .ok (none, _) => .error (.invalidString literal)
      | .ok (some name, constants) =>
        if after.length < text.length then
          (extract constants after).map fun (text, constants) =>
            (before ++ ' ' :: name ++ ' ' :: text, constants)
        else
          .ok (before ++ ' ' :: name ++ ' ' :: after, constants)
termination_by text.length

end StringLiteral

namespace Grammar

/-- The name that a group is called by, and the text before that name. A group is called by the word
directly before it, unless the word starts with a digit or is an operator; a generated name cannot
be called. -/
def callee? (grammar : Grammar) (symbols : SymbolTable) (constants : ConstantTable) (head : Text) :
    Except SyntaxFault (Option (Text × Text)) :=
  let head := Text.trimEnd head
  let name := Text.takeEndWhile Text.isWordChar head
  if name.isEmpty || name.head?.any Decimal.isDigit || grammar.wordTokens.contains name then
    .ok none
  else if (symbols.lookup? name).isSome || constants.hasName name then
    .error .calledNoName
  else
    .ok (some (Text.dropEndWhile Text.isWordChar head, name))

/-- The symbols of several texts. A blank text is a fault. -/
def pieceSymbols (fault : SyntaxFault) (symbols : SymbolTable) :
    List Text → Except SyntaxFault (List Nat × SymbolTable)
  | [] => .ok ([], symbols)
  | piece :: pieces =>
    if Text.isBlank piece then
      .error fault
    else do
      let (id, symbols) := symbols.enterExpression piece
      let (ids, symbols) ← pieceSymbols fault symbols pieces
      return (id :: ids, symbols)

/-- The symbol of a call, given the text between its parentheses. -/
def callSymbol (grammar : Grammar) (symbols : SymbolTable) (name inner : Text) :
    Except SyntaxFault (Text × SymbolTable) := do
  let pieces := if Text.isBlank inner then [] else Text.splitOn grammar.separator inner
  let (arguments, symbols) ← pieceSymbols (.emptyArgument name) symbols pieces
  let (id, symbols) := symbols.enterCall name arguments
  return (symbols.nameOf id, symbols)

/-- The symbols of a group, given the text between its parentheses: their names, separated as the
operands were. -/
def groupSymbols (grammar : Grammar) (symbols : SymbolTable) (inner : Text) :
    Except SyntaxFault (Text × SymbolTable) := do
  if Text.isBlank inner then
    throw (.emptyGroup grammar.opening grammar.closing)
  let fault := .emptyOperand (grammar.opening ++ inner ++ grammar.closing)
  let (operands, symbols) ←
    pieceSymbols fault symbols (Text.splitOn grammar.separator inner)
  return (List.intercalate grammar.separator (operands.map symbols.nameOf), symbols)

/-- Replace the first innermost group, if a closing parenthesis is left. -/
def cutStep (grammar : Grammar) (constants : ConstantTable) (working : Working) :
    Except SyntaxFault (Option Working) :=
  match Text.splitFirst grammar.closing working.text with
  | none => .ok none
  | some (before, after) =>
    match Text.splitLast grammar.opening before with
    | none => .error (.unmatched grammar.closing)
    | some (head, inner) => do
      match ← grammar.callee? working.symbols constants head with
      | some (stem, name) =>
        let (replacement, symbols) ← grammar.callSymbol working.symbols name inner
        return some ⟨stem ++ ' ' :: replacement ++ ' ' :: after, symbols⟩
      | none =>
        let (replacement, symbols) ← grammar.groupSymbols working.symbols inner
        return some ⟨head ++ ' ' :: replacement ++ ' ' :: after, symbols⟩

/-- Replace groups until none is left, within a number of steps. -/
def cutGroups (grammar : Grammar) (constants : ConstantTable) :
    Nat → Working → Except SyntaxFault Working
  | 0, working => .ok working
  | steps + 1, working => do
    match ← grammar.cutStep constants working with
    | some working => cutGroups grammar constants steps working
    | none => return working

/-- What is left must be an expression without parentheses and separators. -/
def finish (grammar : Grammar) (working : Working) : Except SyntaxFault SymbolTable :=
  if Text.contains grammar.opening working.text then
    .error (.unmatched grammar.opening)
  else if Text.contains grammar.separator working.text then
    .error (.straySeparator grammar.separator)
  else if Text.isBlank working.text then
    .error .emptyExpression
  else
    let (id, symbols) := working.symbols.enterExpression working.text
    .ok (symbols.withRoot id)

/-- The symbols of a source, and the constants of its strings. Each step takes a pair of parentheses
out of the text and puts nothing in but a word, two spaces and separators that were there before. So
one of the characters that the punctuation is made of becomes rarer with each step, and the number
of bytes bounds the number of steps. -/
def cut (grammar : Grammar) (source : Text) :
    Except SyntaxFault (SymbolTable × ConstantTable) := do
  let (text, constants) ← StringLiteral.extract (.empty grammar.quote source) source
  let working ← grammar.cutGroups constants (Text.utf8Size text + 1) ⟨text, .empty source⟩
  let symbols ← grammar.finish working
  return (symbols, constants)

end Grammar

end Reckon
