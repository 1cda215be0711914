import Reckon.Expr.Flat
import Reckon.Registry
import Reckon.Source.Groups

/-!
# Trees from symbols

The symbols of a source are turned into trees in order, so that what a symbol refers to is always
there before it. The tree of the root is the tree of the source.
-/

namespace Reckon.Expr

/-- The tree of an operand: a symbol, a constant, a new literal or a parameter, in that order. -/
def ofOperand (symbols : SymbolTable) (trees : List Expr) (operand : Text) : Building Expr :=
  fun constants =>
    match symbols.lookup? operand with
    | some id =>
      match trees[id]? with
      | some tree => .ok (tree, constants)
      | none => .error (.malformed (.usedBeforeDefined operand))
    | none =>
      match constants.get? operand with
      | some entry => .ok (.constant entry.constant, constants)
      | none =>
        match constants.enter operand with
        | .error fault => .error (.malformed fault)
        | .ok (some name, constants) =>
          match constants.get? name with
          | some entry => .ok (.constant entry.constant, constants)
          | none => .error (.malformed (.unrecognizedOperand operand))
        | .ok (none, constants) =>
          match Literal.ofText operand with
          | .error fault => .error (.malformed fault)
          | .ok (some (.name name)) => .ok (.parameter (String.ofList name), constants)
          | .ok _ => .error (.malformed (.unrecognizedOperand operand))

/-- The tree of a symbol, given the trees of the symbols before it. -/
def ofSymbol (grammar : Grammar) (registry : Registry) (symbols : SymbolTable) (trees : List Expr)
    (symbol : Symbol) : Building Expr :=
  match symbol.content with
  | .expression text _ => ofFlat grammar (ofOperand symbols trees) text
  | .call function ids =>
    match ids.mapM (trees[·]?) with
    | none => throw (.malformed (.unresolvedArgument function))
    | some arguments => do
      let call ← registry.resolve (String.ofList function) arguments.length
      call.build arguments fun op arguments => .ok (.operation op arguments)

/-- The trees of further symbols behind the trees of the symbols before them. -/
def ofSymbols (grammar : Grammar) (registry : Registry) (symbols : SymbolTable)
    (trees : List Expr) : List Symbol → Building (List Expr)
  | [] => return trees
  | symbol :: rest => do
    let tree ← ofSymbol grammar registry symbols trees symbol
    ofSymbols grammar registry symbols (trees ++ [tree]) rest

/-- The tree of a resolved source. -/
def ofTable (grammar : Grammar) (registry : Registry) (symbols : SymbolTable) : Building Expr := do
  let trees ← ofSymbols grammar registry symbols [] symbols.symbols
  match symbols.root.bind (trees[·]?) with
  | some tree => return tree
  | none => throw (.malformed .emptyExpression)

/-- The tree of a source. -/
def parse (grammar : Grammar) (registry : Registry) (source : Text) : Except CompileError Expr := do
  let (symbols, constants) ← (grammar.cut source).mapError .malformed
  let (tree, _) ← ofTable grammar registry symbols constants
  return tree

end Reckon.Expr
