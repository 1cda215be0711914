import Reckon.Node.Basic

/-!
# Simplifying trees

Children are simplified first. Then an operation whose outcome a constant child decides gives way to
that child or branch, and an operation over constants gives way to its value, if it has one that
takes the node's kind. Volatile operations are never folded, and an operation that fails is left to
fail when it is evaluated.
-/

namespace Reckon.Node

/-- The truth value of a constant node. -/
def truth? : Node → Option Bool
  | constant ⟨.boolean b, _⟩ => some b
  | _ => none

/-- The child that an operation gives way to because a constant child decides it: a false left
operand of `and`, a true left operand of `or`, and the branch that a constant condition selects, if
that branch has the kind of the node. -/
def decided? (op : Operation) (children : List Node) (kind : Kind) : Option Node :=
  match op, children with
  | .binary .and, [left, _] => if left.truth? = some false then some left else none
  | .binary .or, [left, _] => if left.truth? = some true then some left else none
  | .call ⟨_, _, .conditional, _⟩, [condition, yes, no] =>
    match condition.truth? with
    | some true => if yes.kind = kind then some yes else none
    | some false => if no.kind = kind then some no else none
    | none => none
  | _, _ => none

/-- The value that an operation over constants gives way to, in the form that the node's kind asks
for. -/
def folded? (op : Operation) (children : List Node) (kind : Kind) : Option Value := do
  let operands ← children.mapM constant?
  let value ← op.fold? operands
  value.adjust? kind

/-- An operation over children that are already simplified. -/
def simplifyTop (op : Operation) (children : List Node) (kind : Kind) : Node :=
  match decided? op children kind with
  | some child => child
  | none =>
    match folded? op children kind with
    | some value => constant (.computed value)
    | none => operation op children kind

mutual
/-- The simplified tree. -/
def simplify : Node → Node
  | constant c => constant c
  | parameter p => parameter p
  | operation op children kind => simplifyTop op (simplifyAll children) kind

/-- The simplified trees. -/
def simplifyAll : List Node → List Node
  | [] => []
  | child :: children => simplify child :: simplifyAll children
end

end Reckon.Node
