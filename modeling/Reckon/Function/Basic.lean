import Reckon.Eval
import Reckon.Signature

/-!
# Functions

A function has a name and aliases, a signature that also fixes its number of arguments, and a body.
Bodies that compute from their arguments alone are told apart from those that draw random words,
since only the former may be replaced by their result ahead of time; a conditional evaluates one
branch.
-/

namespace Reckon

/-- A computation from evaluated arguments alone. -/
abbrev Strict := List Value → Except EvalError Value

/-- How a function computes its result. -/
inductive Body where
  /-- From its arguments alone. -/
  | deterministic (compute : Strict)
  /-- With random draws, or in any other way that may differ between calls. -/
  | volatile (compute : List Value → Eval Value)
  /-- The second or the third argument, as the first one decides; the other is not evaluated. -/
  | conditional

/-- A function of the language. -/
structure Callable where
  /-- The name, followed by its aliases. -/
  names : List String
  signature : Signature
  body : Body
  /-- A call with more arguments than the arity folds them from the left. -/
  variadic : Bool

/-- The error of a wrong number of arguments. -/
def wrongCount {α : Type} (expected : Nat) (arguments : List Value) : Except EvalError α :=
  .error (.invalidArgument (.argumentCount expected arguments.length))

namespace Strict

/-- A computation without arguments. -/
def nullary (result : Except EvalError Value) : Strict
  | [] => result
  | arguments => wrongCount 0 arguments

/-- A computation from one argument. -/
def unary (compute : Value → Except EvalError Value) : Strict
  | [x] => compute x
  | arguments => wrongCount 1 arguments

/-- A computation from two arguments. -/
def binary (compute : Value → Value → Except EvalError Value) : Strict
  | [x, y] => compute x y
  | arguments => wrongCount 2 arguments

/-- A computation from three arguments. -/
def ternary (compute : Value → Value → Value → Except EvalError Value) : Strict
  | [x, y, z] => compute x y z
  | arguments => wrongCount 3 arguments

/-- The choice between two values that are both known. -/
def choose : Strict :=
  ternary fun condition yes no => do
    let b ← condition.expectBool
    return if b then yes else no

end Strict

namespace Callable

/-- The canonical name. -/
def name (function : Callable) : String :=
  function.names.headD ""

/-- The number of arguments. -/
def arity (function : Callable) : Nat :=
  function.signature.arity

/-- A call may be replaced by its result when its arguments are known. -/
def isDeterministic (function : Callable) : Bool :=
  match function.body with
  | .volatile _ => false
  | _ => true

/-- Two functions that a call cannot tell apart by name and number of arguments. -/
def same (f g : Callable) : Bool :=
  f.name == g.name && f.arity == g.arity

/-- The result of the body on evaluated arguments, whatever their number. -/
def run (function : Callable) (arguments : List Value) : Eval Value :=
  match function.body with
  | .deterministic compute => .ofExcept (compute arguments)
  | .volatile compute => compute arguments
  | .conditional => .ofExcept (Strict.choose arguments)

/-- The result on evaluated arguments, of which there must be as many as the arity. -/
def evaluate (function : Callable) (arguments : List Value) : Eval Value :=
  if arguments.length = function.arity then
    function.run arguments
  else
    .ofExcept (wrongCount function.arity arguments)

/-- The result on evaluated arguments, if it can be had without any draw. -/
def fold? (function : Callable) (arguments : List Value) : Option Value :=
  if arguments.length = function.arity then
    match function.body with
    | .deterministic compute => (compute arguments).toOption
    | .volatile _ => none
    | .conditional => (Strict.choose arguments).toOption
  else
    none

end Callable

end Reckon
