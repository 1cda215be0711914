import Reckon.Bindings
import Reckon.Node.Evaluate
import Reckon.Node.Printer
import Reckon.Node.Simplify
import Reckon.Node.Substitute

/-!
# Formulas

A formula is a compiled expression: its simplified tree and the manifest of its parameters. It can
be evaluated any number of times with values for them. It can also be specialized: some parameters
are bound for good, the tree is simplified again, and the others keep their order.
-/

namespace Reckon

/-- An expression that is ready to be evaluated. -/
structure Formula where
  source : String
  root : Node
  /-- The parameters in slot order. -/
  parameters : List TypedParameter

/-- Parameters on their way to another frame: what takes their place, and those that remain. -/
structure Specialization where
  substitution : Substitution
  remaining : List TypedParameter

namespace Specialization

/-- Nothing is bound and nothing remains yet. -/
def start : Specialization :=
  ⟨[], []⟩

/-- The specialization with one more parameter: bound if the bindings have its name, and otherwise
moved to the next slot. -/
def add (bindings : Bindings) (specialization : Specialization) (parameter : TypedParameter) :
    Except EvalError Specialization :=
  if (bindings.get? parameter.name).isSome then do
    let value ← bindings.valueOf parameter
    return { specialization with
      substitution := specialization.substitution.bind parameter.name value }
  else
    let slot := specialization.remaining.length
    let node : Parameter := ⟨parameter.name, some parameter.kind, slot⟩
    .ok ⟨specialization.substitution.move node slot, specialization.remaining ++ [parameter]⟩

/-- The specialization that bindings make of parameters. -/
def ofParameters (bindings : Bindings) (parameters : List TypedParameter) :
    Except EvalError Specialization :=
  parameters.foldlM (add bindings) start

end Specialization

namespace Formula

/-- The static kind of the result. -/
def kind (formula : Formula) : Kind :=
  formula.root.kind

/-- The text of the simplified tree. -/
def display (formula : Formula) : String :=
  formula.root.display

/-- The value of the formula for some bindings. Bindings of other names do not matter. -/
def evaluate (formula : Formula) (bindings : Bindings) : Eval Value := do
  let frame ← Eval.ofExcept (bindings.frame formula.parameters)
  formula.root.evaluate frame

/-- The formula with the bound parameters replaced by their values. -/
def specialize (formula : Formula) (bindings : Bindings) : Except EvalError Formula := do
  let specialization ← Specialization.ofParameters bindings formula.parameters
  let root := (formula.root.substitute specialization.substitution).simplify
  return { formula with root, parameters := specialization.remaining }

end Formula

end Reckon
