import Reckon.Source.Name

/-!
# Symbols of a source

Resolving parentheses cuts a source into symbols: flat expression texts and calls. A symbol has a
generated name, by which other texts refer to it, and a number, by which the table lists it. Symbols
refer only to earlier ones. Equal texts are one symbol, and so are equal calls.
-/

namespace Reckon

/-- What a symbol stands for. -/
inductive SymbolContent where
  /-- A text without parentheses, and the symbols that its words name. -/
  | expression (text : Text) (dependencies : List Nat)
  /-- A call of a function, with one symbol for each argument. -/
  | call (function : Text) (arguments : List Nat)

/-- A named piece of a source. -/
structure Symbol where
  name : Text
  content : SymbolContent

/-- The symbols of a source, in the order in which they were cut out. -/
structure SymbolTable where
  names : NameSupply
  symbols : List Symbol
  /-- The symbol that stands for the whole source. -/
  root : Option Nat

namespace Symbol

/-- The symbol is the expression with this text. -/
def isExpression (symbol : Symbol) (text : Text) : Bool :=
  match symbol.content with
  | .expression other _ => other == text
  | .call .. => false

/-- The symbol is the call of this function with these arguments. -/
def isCall (symbol : Symbol) (function : Text) (arguments : List Nat) : Bool :=
  match symbol.content with
  | .expression .. => false
  | .call other others => other == function && others == arguments

end Symbol

namespace SymbolTable

/-- The table of a source before anything is cut out. -/
def empty (source : Text) : SymbolTable :=
  { names := ⟨"__s".toList, source, 0⟩, symbols := [], root := none }

/-- The number of symbols. -/
def size (table : SymbolTable) : Nat :=
  table.symbols.length

/-- The symbol with a generated name. -/
def lookup? (table : SymbolTable) (name : Text) : Option Nat :=
  table.symbols.findIdx? (·.name == name)

/-- The symbol with a number. -/
def get? (table : SymbolTable) (id : Nat) : Option Symbol :=
  table.symbols[id]?

/-- The generated name of a symbol. -/
def nameOf (table : SymbolTable) (id : Nat) : Text :=
  match table.get? id with
  | some symbol => symbol.name
  | none => []

/-- The table with one more symbol, and the number of that symbol. -/
def push (table : SymbolTable) (content : SymbolContent) : Nat × SymbolTable :=
  let (name, names) := table.names.take
  (table.size, { table with names, symbols := table.symbols ++ [⟨name, content⟩] })

/-- The symbol of a flat expression text. A text that is the name of a symbol is that symbol. -/
def enterExpression (table : SymbolTable) (text : Text) : Nat × SymbolTable :=
  let text := Text.trim text
  match table.lookup? text with
  | some id => (id, table)
  | none =>
    match table.symbols.findIdx? (·.isExpression text) with
    | some id => (id, table)
    | none => table.push (.expression text ((Text.words text).filterMap table.lookup?))

/-- The symbol of a call. -/
def enterCall (table : SymbolTable) (function : Text) (arguments : List Nat) :
    Nat × SymbolTable :=
  match table.symbols.findIdx? (·.isCall function arguments) with
  | some id => (id, table)
  | none => table.push (.call function arguments)

/-- The table with a symbol for the whole source. -/
def withRoot (table : SymbolTable) (id : Nat) : SymbolTable :=
  { table with root := some id }

end SymbolTable

end Reckon
