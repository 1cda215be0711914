import Reckon.CompileError
import Reckon.Operation

/-!
# Typed trees

A node is a constant, a parameter with its slot in an evaluation frame, or an operation over child
nodes. Every node has a static kind. An operation is checked against its signature when it is built,
and keeps the kind that it got then.
-/

namespace Reckon

/-- A constant, with the source text that it was written as, if it was written. -/
structure Constant where
  value : Value
  literal : Option Text

/-- A free variable of an expression. Its kind is unknown until some usage decides it. -/
structure Parameter where
  name : String
  state : Option Kind
  /-- The place of its value in an evaluation frame. -/
  slot : Nat
deriving DecidableEq

/-- A node of a typed tree. -/
inductive Node where
  | constant (constant : Constant)
  | parameter (parameter : Parameter)
  | operation (operation : Operation) (children : List Node) (kind : Kind)

namespace Constant

/-- A constant that is computed or bound, not written. -/
def computed (value : Value) : Constant :=
  ⟨value, none⟩

/-- The kind of the value. -/
def kind (constant : Constant) : Kind :=
  constant.value.kind

/-- The values agree; where they come from does not matter. -/
def same (a b : Constant) : Bool :=
  a.value.same b.value

end Constant

namespace Parameter

/-- The kind of the parameter; a number as long as nothing is known. -/
def kind (parameter : Parameter) : Kind :=
  parameter.state.getD .number

end Parameter

namespace Node

/-- The static kind of the value that the node produces. -/
def kind : Node → Kind
  | constant c => c.kind
  | parameter p => p.kind
  | operation _ _ kind => kind

/-- The value of a constant node. -/
def constant? : Node → Option Value
  | constant c => some c.value
  | _ => none

/-- An operation over child nodes, checked against its signature. -/
def build (op : Operation) (children : List Node) : Except CompileError Node :=
  if children.length ≠ op.arity then
    .error (.wrongArity op.name [op.arity] children.length)
  else
    match op.signature.returnKind (children.map kind) with
    | .ok kind => .ok (operation op children kind)
    | .error fault => .error (.typeConflict (.operands op.name fault))

mutual
/-- The trees agree node by node. -/
def same : Node → Node → Bool
  | constant a, constant b => a.same b
  | parameter a, parameter b => a == b
  | operation f as k, operation g bs l => f.same g && sameAll as bs && k == l
  | _, _ => false

/-- The lists of trees agree tree by tree. -/
def sameAll : List Node → List Node → Bool
  | [], [] => true
  | a :: as, b :: bs => same a b && sameAll as bs
  | _, _ => false
end

mutual
/-- The nodes of the tree, each before its children. -/
def nodes : Node → List Node
  | constant c => [constant c]
  | parameter p => [parameter p]
  | operation op children kind => operation op children kind :: nodesOfAll children

/-- The nodes of a list of trees. -/
def nodesOfAll : List Node → List Node
  | [] => []
  | child :: children => nodes child ++ nodesOfAll children
end

end Node

end Reckon
