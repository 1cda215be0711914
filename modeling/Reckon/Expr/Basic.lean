import Reckon.Node.Basic

/-!
# Untyped trees

The tree of an expression before the kinds of its parameters are known. Its operations are resolved;
only the typing is missing.
-/

namespace Reckon

/-- A tree without kinds. -/
inductive Expr where
  | constant (constant : Constant)
  | parameter (name : String)
  | operation (operation : Operation) (arguments : List Expr)

namespace Expr

mutual
/-- The parameters of the tree from left to right, with repetitions. -/
def parameterNames : Expr → List String
  | constant _ => []
  | parameter name => [name]
  | operation _ arguments => parameterNamesOfAll arguments

/-- The parameters of a list of trees. -/
def parameterNamesOfAll : List Expr → List String
  | [] => []
  | argument :: arguments => parameterNames argument ++ parameterNamesOfAll arguments
end

mutual
/-- The nodes of the tree, each before its arguments. -/
def nodes : Expr → List Expr
  | constant c => [constant c]
  | parameter name => [parameter name]
  | operation op arguments => operation op arguments :: nodesOfAll arguments

/-- The nodes of a list of trees. -/
def nodesOfAll : List Expr → List Expr
  | [] => []
  | argument :: arguments => nodes argument ++ nodesOfAll arguments
end

end Expr

end Reckon
