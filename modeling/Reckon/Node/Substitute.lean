import Reckon.Node.Basic

/-!
# Substituting parameters

A substitution replaces parameters by name: a bound one by a constant, a remaining one by a
parameter with its place in another frame. The operations above them keep their kinds.
-/

namespace Reckon

/-- What takes the place of parameters, by name, the latest entry first. -/
abbrev Substitution := List (String × Node)

namespace Substitution

/-- The substitution that also binds a parameter to a value. -/
def bind (substitution : Substitution) (name : String) (value : Value) : Substitution :=
  (name, .constant (.computed value)) :: substitution

/-- The substitution that also moves a parameter to a slot. -/
def move (substitution : Substitution) (parameter : Parameter) (slot : Nat) : Substitution :=
  (parameter.name, .parameter { parameter with slot }) :: substitution

end Substitution

namespace Node

mutual
/-- The tree with its parameters substituted. -/
def substitute (substitution : Substitution) : Node → Node
  | constant c => constant c
  | parameter p => (substitution.lookup p.name).getD (parameter p)
  | operation op children kind => operation op (substituteAll substitution children) kind

/-- The trees with their parameters substituted. -/
def substituteAll (substitution : Substitution) : List Node → List Node
  | [] => []
  | child :: children => substitute substitution child :: substituteAll substitution children
end

end Node

end Reckon
