import Reckon.Kind

/-!
# Signatures

The typing contract of an operation: what it asks of each operand and which kind it returns. One
contract serves twice. With operand kinds that are partly unknown it says what the unknown ones have
to be; with all of them known it checks them.

Operands may form a group: its members share one class, and the result may take their kind.
-/

namespace Reckon

/-- What an operation asks of one operand. -/
inductive Requirement where
  /-- The operand has this kind. -/
  | kind (required : Kind)
  /-- The operand belongs to the group. -/
  | group
deriving DecidableEq, Repr

/-- How the kind of the result follows from the operands. -/
inductive ResultRule where
  /-- It is this kind. -/
  | kind (result : Kind)
  /-- It is the kind of the group; numbers combine their modes. -/
  | group
  /-- It is a float if some member of the group is one, and otherwise a number. -/
  | widened
deriving DecidableEq, Repr

/-- The typing contract of an operation. -/
structure Signature where
  /-- One requirement for each operand. -/
  arguments : List Requirement
  /-- The classes that the group may have. None listed means that any will do. -/
  group : List KindClass
  returns : ResultRule
deriving DecidableEq, Repr

/-- How operand kinds violate a signature. Operands are counted from one. -/
inductive SignatureFault where
  | operandCount (expected found : Nat)
  | operand (position : Nat) (required found : Kind)
  | unsupported (found : KindClass)
deriving DecidableEq, Repr

/-- What a signature says about operand kinds. -/
structure Resolution where
  /-- The kind of the result, as far as it is known. -/
  returns : Option Kind
  /-- For each operand the kind it has to take, where that is known. -/
  demands : List (Option Kind)
deriving DecidableEq, Repr

namespace SignatureFault

/-- The fault in words. -/
def describe : SignatureFault → String
  | .operandCount expected found => s!"expected {expected} operand(s), found {found}"
  | .operand position required found =>
    s!"operand {position} must be {required.name}, found {found.name}"
  | .unsupported found => s!"{found.name} operands are not supported here"

end SignatureFault

namespace Signature

/-- A signature without a group. -/
def fixed (arguments : List Kind) (result : Kind) : Signature :=
  { arguments := arguments.map .kind, group := [], returns := .kind result }

/-- The number of operands. -/
def arity (signature : Signature) : Nat :=
  signature.arguments.length

/-- The result takes its kind from the operand at this index, so that what is asked of the result is
asked of the operand. -/
def decidesResult (signature : Signature) (index : Nat) : Bool :=
  match signature.returns with
  | .kind _ => false
  | .group | .widened => signature.arguments[index]? == some .group

/-- The class of the group before any operand is seen: the only one allowed, if there is only one.
-/
def onlyClass? (signature : Signature) : Option KindClass :=
  match signature.group with
  | [only] => some only
  | _ => none

/-- Check the known operands from a position on, in order, and find the class of the group. -/
def scan (position : Nat) (groupClass : Option KindClass) :
    List Requirement → List (Option Kind) → Except SignatureFault (Option KindClass)
  | .kind required :: requirements, some actual :: kinds =>
    if actual.standsFor required then
      scan (position + 1) groupClass requirements kinds
    else
      .error (.operand position required actual)
  | .group :: requirements, some actual :: kinds =>
    match groupClass with
    | some expected =>
      if expected = actual.toClass then
        scan (position + 1) groupClass requirements kinds
      else
        .error (.operand position expected.widest actual)
    | none => scan (position + 1) (some actual.toClass) requirements kinds
  | _ :: requirements, none :: kinds => scan (position + 1) groupClass requirements kinds
  | _, _ => .ok groupClass

/-- The class found for the group is one of the allowed ones. -/
def allows (signature : Signature) (found : KindClass) : Bool :=
  signature.group.isEmpty || signature.group.contains found

/-- What an operand has to be, once the class of the group is known. -/
def demand (groupClass : Option KindClass) : Requirement → Option Kind → Option Kind
  | .kind required, _ => some required
  | .group, some _ => none
  | .group, none => groupClass.map (·.widest)

/-- The modes of the members of the group; a member that is not known to be more counts as any
number. -/
def groupModes (signature : Signature) (kinds : List (Option Kind)) : List Mode :=
  (signature.arguments.zip kinds).filterMap fun (requirement, kind) =>
    if requirement = .group then some ((kind.bind (·.mode?)).getD .any) else none

/-- The kind of the result, as far as the class of the group and the operands tell. -/
def result (signature : Signature) (groupClass : Option KindClass) (kinds : List (Option Kind)) :
    Option Kind :=
  match signature.returns with
  | .kind kind => some kind
  | .group =>
    groupClass.map fun found =>
      if found = .numeric then .numeric (Mode.ofOperands (signature.groupModes kinds))
      else found.widest
  | .widened =>
    groupClass.map fun _ =>
      if (signature.groupModes kinds).contains .float then .float else .number

/-- What the signature says about operand kinds, some of which may still be unknown. -/
def resolve (signature : Signature) (kinds : List (Option Kind)) :
    Except SignatureFault Resolution := do
  if kinds.length ≠ signature.arity then
    throw (.operandCount signature.arity kinds.length)
  let groupClass ← scan 1 signature.onlyClass? signature.arguments kinds
  if let some found := groupClass then
    if !signature.allows found then
      throw (.unsupported found)
  return {
    returns := signature.result groupClass kinds
    demands := List.zipWith (demand groupClass) signature.arguments kinds }

/-- The kind of the result for operands of known kinds; a number where nothing tells. -/
def returnKind (signature : Signature) (kinds : List Kind) : Except SignatureFault Kind :=
  (signature.resolve (kinds.map some)).map fun resolution => resolution.returns.getD .number

end Signature

end Reckon
