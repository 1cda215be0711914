import Reckon.Signature
import Reckon.Text.Basic

/-!
# Operators

The operators of the language, the tokens they are written with and the signatures they check their
operands against. Which tokens a grammar uses, and how tightly they bind, is not decided here.
-/

namespace Reckon

/-- An operator in front of its operand. -/
inductive UnaryOperator where
  | negate
  | plus
  | not
deriving DecidableEq, Repr

/-- An operator between its operands. -/
inductive BinaryOperator where
  /-- The sum of numbers, or the concatenation of strings or byte arrays. -/
  | add
  | sub
  | mul
  | div
  /-- The remainder of a division. -/
  | mod
  | pow
  | less
  | lessEqual
  | greater
  | greaterEqual
  | equal
  | notEqual
  | and
  | or
  | xor
deriving DecidableEq, Repr

namespace UnaryOperator

/-- The operator that a token stands for in front of an operand. -/
def ofToken? : Text → Option UnaryOperator
  | ['-'] => some .negate
  | ['+'] => some .plus
  | ['!'] => some .not
  | ['n', 'o', 't'] => some .not
  | _ => none

/-- The signature of the operator. -/
def signature : UnaryOperator → Signature
  | .negate | .plus => { arguments := [.group], group := [.numeric], returns := .group }
  | .not => .fixed [.boolean] .boolean

/-- The name of the operator. -/
def name : UnaryOperator → String
  | .negate => "-"
  | .plus => "+"
  | .not => "not"

/-- What stands in front of the operand when an application is written. -/
def mark : UnaryOperator → Text
  | .negate => ['-']
  | .plus => ['+']
  | .not => ['n', 'o', 't', ' ']

end UnaryOperator

namespace BinaryOperator

/-- The operator that a token stands for between operands. -/
def ofToken? : Text → Option BinaryOperator
  | ['+'] => some .add
  | ['-'] => some .sub
  | ['*'] => some .mul
  | ['/'] => some .div
  | ['%'] => some .mod
  | ['^'] => some .pow
  | ['*', '*'] => some .pow
  | ['<'] => some .less
  | ['<', '='] => some .lessEqual
  | ['>'] => some .greater
  | ['>', '='] => some .greaterEqual
  | ['=', '='] => some .equal
  | ['='] => some .equal
  | ['!', '='] => some .notEqual
  | ['<', '>'] => some .notEqual
  | ['&', '&'] => some .and
  | ['a', 'n', 'd'] => some .and
  | ['|', '|'] => some .or
  | ['o', 'r'] => some .or
  | ['x', 'o', 'r'] => some .xor
  | _ => none

/-- A signature of two operands in one group. -/
def paired (group : List KindClass) (returns : ResultRule) : Signature :=
  { arguments := [.group, .group], group, returns }

/-- The signature of the operator. -/
def signature : BinaryOperator → Signature
  | .add => paired [.numeric, .string, .byteArray] .group
  | .sub | .mul | .mod => paired [.numeric] .group
  | .div | .pow => paired [.numeric] .widened
  | .less | .lessEqual | .greater | .greaterEqual => paired [.numeric, .string] (.kind .boolean)
  | .equal | .notEqual => paired [] (.kind .boolean)
  | .and | .or | .xor => .fixed [.boolean, .boolean] .boolean

/-- A chain of powers groups to the right; all other chains group to the left. -/
def isRightAssociative : BinaryOperator → Bool
  | .pow => true
  | _ => false

/-- The canonical token of the operator. -/
def token : BinaryOperator → Text
  | .add => ['+']
  | .sub => ['-']
  | .mul => ['*']
  | .div => ['/']
  | .mod => ['%']
  | .pow => ['^']
  | .less => ['<']
  | .lessEqual => ['<', '=']
  | .greater => ['>']
  | .greaterEqual => ['>', '=']
  | .equal => ['=', '=']
  | .notEqual => ['!', '=']
  | .and => ['a', 'n', 'd']
  | .or => ['o', 'r']
  | .xor => ['x', 'o', 'r']

/-- The name of the operator. -/
def name (operator : BinaryOperator) : String :=
  String.ofList operator.token

end BinaryOperator

end Reckon
