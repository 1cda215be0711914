import Reckon.Node.Basic
import Reckon.Text.Quoted

/-!
# Writing trees

Every binary operation stands in parentheses, prefix operators stand directly before their operand,
and all else is written as a call. String constants are quoted.
-/

namespace Reckon.Node

/-- A constant as it stands in a tree. -/
def writeConstant (constant : Constant) : Text :=
  match constant.value with
  | .string s => Text.quoted s.toList
  | value => value.write

mutual
/-- The text of the tree. -/
def write : Node → Text
  | constant c => writeConstant c
  | parameter p => p.name.toList
  | operation (.unary op) [operand] _ => op.mark ++ write operand
  | operation (.binary op) [left, right] _ =>
    '(' :: write left ++ ' ' :: op.token ++ ' ' :: write right ++ [')']
  | operation op children _ => op.name.toList ++ '(' :: writeAll children ++ [')']

/-- The texts of trees, with commas between them. -/
def writeAll : List Node → Text
  | [] => []
  | [child] => write child
  | child :: children => write child ++ ',' :: ' ' :: writeAll children
end

/-- The text of the tree, as a string. -/
def display (node : Node) : String :=
  String.ofList node.write

end Reckon.Node
