import Reckon.Node.Basic
import Reckon.Source.Literal
import Reckon.Source.Name

/-!
# Constants of a source

Every literal of a source is kept once, under a generated name, together with the text that it was
first written as. Texts that differ only in blanks around them are one literal.
-/

namespace Reckon

/-- A literal that was met, under its generated name. -/
structure ConstantEntry where
  name : Text
  text : Text
  value : Value

/-- The literals of a source, in the order in which they were met. -/
structure ConstantTable where
  quote : Text
  names : NameSupply
  entries : List ConstantEntry

/-- The constant node of an entry. -/
def ConstantEntry.constant (entry : ConstantEntry) : Constant :=
  ⟨entry.value, some entry.text⟩

namespace StringLiteral

/-- The text that the body of a string literal stands for. `skip` counts the characters left of an
escaped quote. -/
def decodeFrom (quote : Text) : Nat → Text → Except SyntaxFault Text
  | _, [] => .ok []
  | skip + 1, _ :: rest => decodeFrom quote skip rest
  | 0, '\\' :: rest =>
    if quote.isPrefixOf rest then
      (decodeFrom quote quote.length rest).map (quote ++ ·)
    else
      match rest with
      | '\\' :: rest => (decodeFrom quote 0 rest).map ('\\' :: ·)
      | 'n' :: rest => (decodeFrom quote 0 rest).map ('\n' :: ·)
      | 't' :: rest => (decodeFrom quote 0 rest).map ('\t' :: ·)
      | 'r' :: rest => (decodeFrom quote 0 rest).map ('\r' :: ·)
      | c :: _ => .error (.unknownEscape c)
      | [] => .error .endingBackslash
  | 0, c :: rest => (decodeFrom quote 0 rest).map (c :: ·)

/-- The text that the body of a string literal stands for: a backslash escapes the quote, itself,
and the letters of line breaks and tabs. -/
def decode (quote body : Text) : Except SyntaxFault Text :=
  decodeFrom quote 0 body

/-- The body of a text that starts and ends with a quote. -/
def body? (quote text : Text) : Option Text :=
  if quote.isPrefixOf text then
    let rest := text.drop quote.length
    if quote.isSuffixOf rest then some (rest.take (rest.length - quote.length)) else none
  else
    none

end StringLiteral

namespace ConstantTable

/-- The table of a source before any literal is met. -/
def empty (quote source : Text) : ConstantTable :=
  { quote, names := ⟨"__k".toList, source, 0⟩, entries := [] }

/-- The value that a text without surrounding blanks is a literal of. -/
def valueOf? (table : ConstantTable) (text : Text) : Except SyntaxFault (Option Value) :=
  match StringLiteral.body? table.quote text with
  | some body => (StringLiteral.decode table.quote body).map fun text =>
      some (.string (String.ofList text))
  | none => (Literal.ofText text).map fun literal => literal.bind (·.value?)

/-- The entry with a generated name. -/
def get? (table : ConstantTable) (name : Text) : Option ConstantEntry :=
  table.entries.find? (·.name == name)

/-- The name is one of the generated names. -/
def hasName (table : ConstantTable) (name : Text) : Bool :=
  (table.get? name).isSome

/-- The name of the constant that a text is a literal of, and the table that has it. A text that is
no literal has no name and leaves the table as it is. -/
def enter (table : ConstantTable) (text : Text) :
    Except SyntaxFault (Option Text × ConstantTable) :=
  let text := Text.trim text
  match table.entries.find? (·.text == text) with
  | some entry => .ok (some entry.name, table)
  | none =>
    match table.valueOf? text with
    | .error fault => .error fault
    | .ok none => .ok (none, table)
    | .ok (some value) =>
      let (name, names) := table.names.take
      .ok (some name, { table with names, entries := table.entries ++ [⟨name, text, value⟩] })

/-- The number of constants. -/
def size (table : ConstantTable) : Nat :=
  table.entries.length

end ConstantTable

end Reckon
