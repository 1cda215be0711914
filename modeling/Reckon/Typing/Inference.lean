import Reckon.Expr.Basic
import Reckon.Typing.Parameters

/-!
# Inferring the kinds of parameters

A walk over an untyped tree resolves the signature of each operation on what is known of its
operands, and pushes what it demands of them down to the parameters that decide. What a later
operation teaches may help an earlier one, so walks are repeated until one of them learns nothing.
-/

namespace Reckon

/-- A computation that learns about parameters. -/
abbrev Inferring (α : Type) := StateT Parameters (Except CompileError) α

namespace Expr

/-- What a demand on the result of an operation means for the operands that its kind comes from. A
float result only needs numbers, and so does any result of an operation that may widen. -/
def passedDemand (returns : ResultRule) (demand : Kind) : Kind :=
  match returns, demand with
  | .widened, .numeric _ => .number
  | .group, .float => .number
  | _, demand => demand

mutual
/-- Demand a kind of the value of a tree. -/
def demand : Expr → Kind → Inferring Unit
  | constant c, kind =>
    if c.kind.standsFor kind then
      return ()
    else
      throw (.typeConflict (.constant c.value kind))
  | parameter name, kind => fun parameters =>
    (parameters.constrain name kind).map fun parameters => ((), parameters)
  | operation op arguments, kind =>
    demandDeciding op.signature (passedDemand op.signature.returns kind) 0 arguments

/-- Demand a kind of those operands, from an index on, that the kind of the result comes from. -/
def demandDeciding (signature : Signature) (kind : Kind) (index : Nat) :
    List Expr → Inferring Unit
  | [] => return ()
  | argument :: arguments => do
    if signature.decidesResult index then
      demand argument kind
    demandDeciding signature kind (index + 1) arguments
end

/-- Demand of each tree the kind that stands at its place, if one does. -/
def demandEach : List Expr → List (Option Kind) → Inferring Unit
  | argument :: arguments, some kind :: demands => do
    demand argument kind
    demandEach arguments demands
  | _ :: arguments, none :: demands => demandEach arguments demands
  | _, _ => return ()

mutual
/-- The kind of the value of a tree, as far as it is known, after one walk over it. -/
def infer : Expr → Inferring (Option Kind)
  | constant c => return some c.kind
  | parameter name => fun parameters => .ok (parameters.kind? name, parameters)
  | operation op arguments => do
    let kinds ← inferAll arguments
    match op.signature.resolve kinds with
    | .error fault => throw (.typeConflict (.operands op.name fault))
    | .ok resolution => do
      demandEach arguments resolution.demands
      return resolution.returns

/-- The kinds of the values of trees, after one walk over each, in order. -/
def inferAll : List Expr → Inferring (List (Option Kind))
  | [] => return []
  | argument :: arguments => do
    let kind ← infer argument
    let kinds ← inferAll arguments
    return kind :: kinds
end

/-- Walk over the tree until a walk learns nothing, within a number of walks. -/
def inferWithin (tree : Expr) : Nat → Parameters → Except CompileError Parameters
  | 0, parameters => .ok parameters
  | walks + 1, parameters => do
    let (_, learned) ← tree.infer parameters
    if learned.changes = parameters.changes then
      return learned
    else
      inferWithin tree walks learned

/-- All that the tree teaches about its parameters. A name can be new once, and be narrowed twice,
so the number of names bounds the number of walks that learn something. -/
def inferKinds (tree : Expr) (parameters : Parameters) : Except CompileError Parameters :=
  inferWithin tree (2 * parameters.size + 3 * tree.parameterNames.length + 1) parameters

mutual
/-- The typed tree, given the parameters with their kinds and slots. -/
def toNode (parameters : Parameters) : Expr → Except CompileError Node
  | constant c => .ok (.constant c)
  | parameter name =>
    match parameters.get? name with
    | some found => .ok (.parameter found)
    | none => .error (.malformed (.unregisteredParameter name))
  | operation op arguments => do
    let children ← toNodes parameters arguments
    Node.build op children

/-- The typed trees. -/
def toNodes (parameters : Parameters) : List Expr → Except CompileError (List Node)
  | [] => .ok []
  | argument :: arguments => do
    let child ← toNode parameters argument
    let children ← toNodes parameters arguments
    return child :: children
end

end Expr

end Reckon
