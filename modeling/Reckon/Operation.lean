import Reckon.Function.Basic
import Reckon.Operator.Apply

/-!
# Operations

An operation is an operator or a function. It has a name, a signature and a value on evaluated
operands; unless it draws, it may also be folded into that value.
-/

namespace Reckon

/-- What a tree applies to its operands. -/
inductive Operation where
  | unary (operator : UnaryOperator)
  | binary (operator : BinaryOperator)
  | call (function : Callable)

namespace Operation

/-- The name of the operation. -/
def name : Operation → String
  | .unary operator => operator.name
  | .binary operator => operator.name
  | .call function => function.name

/-- The typing contract of the operation. -/
def signature : Operation → Signature
  | .unary operator => operator.signature
  | .binary operator => operator.signature
  | .call function => function.signature

/-- The number of operands. -/
def arity (operation : Operation) : Nat :=
  operation.signature.arity

/-- The operation may be replaced by its value when its operands are known. -/
def isDeterministic : Operation → Bool
  | .unary _ => true
  | .binary _ => true
  | .call function => function.isDeterministic

/-- The operations cannot be told apart by what they are or by how they are called. -/
def same : Operation → Operation → Bool
  | .unary a, .unary b => a == b
  | .binary a, .binary b => a == b
  | .call f, .call g => f.same g
  | _, _ => false

/-- The value of the operation on evaluated operands. -/
def evaluate (operation : Operation) (operands : List Value) : Eval Value :=
  match operation, operands with
  | .unary operator, [operand] => .ofExcept (operator.apply operand)
  | .binary operator, [left, right] => .ofExcept (operator.apply left right)
  | .call function, operands => function.evaluate operands
  | operation, operands =>
    .ofExcept (.error (.typeMismatch (.operandCount operation.name operands.length)))

/-- The value of the operation on evaluated operands, if there is one and no draw is needed for it.
-/
def fold? (operation : Operation) (operands : List Value) : Option Value :=
  match operation, operands with
  | .unary operator, [operand] => (operator.apply operand).toOption
  | .binary operator, [left, right] => (operator.apply left right).toOption
  | .call function, operands => function.fold? operands
  | _, _ => none

end Operation

end Reckon
