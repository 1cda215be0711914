import Reckon.Expr.Basic
import Reckon.Source.Constants
import Reckon.Source.Occurrence

/-!
# Flat expressions

A text without parentheses is a sequence of operands and operators. Prefix operators bind tighter
than binary ones. What has been read waits on stacks, one of operands and one of binary operators,
until an operator that binds no tighter follows; the waiting operators bind tighter and tighter, so
the tree is built in one pass.
-/

namespace Reckon

/-- An operand or an operator of a flat expression. -/
inductive Piece where
  | operand (text : Text)
  | operator (occurrence : Occurrence)

/-- What waits while a flat expression is read, the last one first. -/
structure Stacks where
  operands : List Expr
  /-- The binary operators, each with its level. -/
  operators : List (BinaryOperator × Nat)
  /-- The prefix operators that stand directly before what follows. -/
  prefixes : List UnaryOperator
  /-- An operand has to come next. -/
  expectsOperand : Bool

/-- Building trees may meet new literals. -/
abbrev Building (α : Type) := StateT ConstantTable (Except CompileError) α

namespace Piece

/-- An operand without surrounding blanks, if anything is left of it. -/
def operands (text : Text) : List Piece :=
  let text := Text.trim text
  if text.isEmpty then [] else [.operand text]

/-- The pieces of a text from a place on, given its operators there. -/
def ofOccurrences (text : Text) (place : Nat) : List Occurrence → List Piece
  | [] => operands (text.drop place)
  | occurrence :: rest =>
    operands ((text.drop place).take (occurrence.start - place)) ++
      .operator occurrence :: ofOccurrences text occurrence.stop rest

end Piece

namespace Expr

/-- An operand with prefix operators before it, the nearest one first. -/
def applyPrefixes (prefixes : List UnaryOperator) (operand : Expr) : Expr :=
  prefixes.foldl (fun operand op => .operation (.unary op) [operand]) operand

/-- The prefix operator that a token is in a grammar. -/
def asPrefix? (grammar : Grammar) (token : Text) : Option UnaryOperator :=
  if grammar.isPrefixToken token then UnaryOperator.ofToken? token else none

/-- The binary operator that an occurrence is, with its level. -/
def asBinary? (occurrence : Occurrence) : Option (BinaryOperator × Nat) :=
  match occurrence.level, BinaryOperator.ofToken? occurrence.token with
  | some level, some operator => some (operator, level)
  | _, _ => none

end Expr

namespace Stacks

/-- Nothing has been read. -/
def empty : Stacks :=
  ⟨[], [], [], true⟩

/-- A waiting operator is complete when another operator follows: the other binds more loosely, or
stands on the same level and groups to the left. -/
def closesBefore (precedence : Precedence) (operator : BinaryOperator) (level top : Nat) : Bool :=
  precedence.bindsLooser level top || (top == level && !operator.isRightAssociative)

/-- An operator takes the last two operands. -/
def reduce (operator : BinaryOperator) : List Expr → Except CompileError (List Expr)
  | right :: left :: rest => .ok (.operation (.binary operator) [left, right] :: rest)
  | _ => .error (.malformed (.missingOperand operator.token))

/-- Complete waiting operators as long as they are complete before the operator that follows. -/
def reduceWhile (precedence : Precedence) (operator : BinaryOperator) (level : Nat) :
    List (BinaryOperator × Nat) → List Expr →
      Except CompileError (List (BinaryOperator × Nat) × List Expr)
  | [], operands => .ok ([], operands)
  | (top, topLevel) :: rest, operands =>
    if closesBefore precedence operator level topLevel then do
      let operands ← reduce top operands
      reduceWhile precedence operator level rest operands
    else
      .ok ((top, topLevel) :: rest, operands)

/-- Complete all waiting operators. -/
def reduceAll (operators : List (BinaryOperator × Nat)) (operands : List Expr) :
    Except CompileError (List Expr) :=
  operators.foldlM (fun operands (operator, _) => reduce operator operands) operands

/-- Read one piece. -/
def read (grammar : Grammar) (leaf : Text → Building Expr) (state : Stacks) :
    Piece → Building Stacks
  | .operand text =>
    if state.expectsOperand then do
      let operand ← leaf text
      return { state with
        operands := Expr.applyPrefixes state.prefixes operand :: state.operands
        prefixes := []
        expectsOperand := false }
    else
      throw (.malformed (.missingOperator text))
  | .operator occurrence =>
    if state.expectsOperand then
      match Expr.asPrefix? grammar occurrence.token with
      | some op => return { state with prefixes := op :: state.prefixes }
      | none => throw (.malformed (.missingLeftOperand occurrence.token))
    else
      match Expr.asBinary? occurrence with
      | some (operator, level) => do
        let (operators, operands) ←
          reduceWhile grammar.precedence operator level state.operators state.operands
        return { state with
          operands
          operators := (operator, level) :: operators
          expectsOperand := true }
      | none => throw (.malformed (.cannotFollowOperand occurrence.token))

/-- The tree of all that has been read of a text with these operators. -/
def finish (text : Text) (occurrences : List Occurrence) (state : Stacks) :
    Except CompileError Expr :=
  if state.expectsOperand then
    match occurrences.getLast? with
    | some last =>
      if state.operands.isEmpty && state.prefixes.isEmpty then
        .error (.malformed .emptyExpression)
      else
        .error (.malformed (.missingRightOperand last.token))
    | none => .error (.malformed .emptyExpression)
  else do
    match ← reduceAll state.operators state.operands with
    | [tree] => .ok tree
    | _ => .error (.malformed (.malformedExpression text))

end Stacks

/-- The tree of a flat expression, given the trees of its operands. -/
def Expr.ofFlat (grammar : Grammar) (leaf : Text → Building Expr) (text : Text) :
    Building Expr := do
  let occurrences := grammar.occurrences text
  let state ← (Piece.ofOccurrences text 0 occurrences).foldlM (Stacks.read grammar leaf) .empty
  state.finish text occurrences

end Reckon
