import Reckon.Node.Basic

/-!
# Evaluating trees

A tree is evaluated against a frame that holds the values of its parameters by slot. Operands are
evaluated from left to right, each once. Three operations are lazy: `and` and `or` skip the right
operand when the left one decides, and a conditional evaluates one branch. A node whose kind is
float turns an integer result into a float.
-/

namespace Reckon.Node

/-- The value of a parameter in a frame. -/
def readParameter (frame : List Value) (parameter : Parameter) : Except EvalError Value :=
  match frame[parameter.slot]? with
  | some value => .ok value
  | none => .error (.missingParameter parameter.name)

/-- The result of a node of some kind: float nodes have float results. -/
def widen (kind : Kind) (value : Value) : Value :=
  match kind, value with
  | .float, .integer i => .float (Binary64.ofInt64 i)
  | _, value => value

mutual
/-- The value of the tree on a frame. -/
def evaluate (frame : List Value) : Node → Eval Value
  | constant c => return c.value
  | parameter p => Eval.ofExcept (readParameter frame p)
  | operation (.binary .and) [left, right] kind => do
    let a ← Eval.ofExcept (← evaluate frame left).expectBool
    if a then
      let b ← Eval.ofExcept (← evaluate frame right).expectBool
      return widen kind (.boolean b)
    else
      return widen kind (.boolean false)
  | operation (.binary .or) [left, right] kind => do
    let a ← Eval.ofExcept (← evaluate frame left).expectBool
    if a then
      return widen kind (.boolean true)
    else
      let b ← Eval.ofExcept (← evaluate frame right).expectBool
      return widen kind (.boolean b)
  | operation (.call ⟨_, _, .conditional, _⟩) children kind =>
    match children with
    | [condition, yes, no] => do
      let b ← Eval.ofExcept (← evaluate frame condition).expectBool
      if b then
        return widen kind (← evaluate frame yes)
      else
        return widen kind (← evaluate frame no)
    | children => throw (.invalidArgument (.branchCount children.length))
  | operation op children kind => do
    let operands ← evaluateAll frame children
    return widen kind (← op.evaluate operands)

/-- The values of trees on a frame, in order. -/
def evaluateAll (frame : List Value) : List Node → Eval (List Value)
  | [] => return []
  | child :: children => do
    let value ← evaluate frame child
    let values ← evaluateAll frame children
    return value :: values
end

end Reckon.Node
