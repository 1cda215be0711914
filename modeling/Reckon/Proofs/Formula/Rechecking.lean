import Reckon.Proofs.Formula.WellFormed
import Reckon.Proofs.Tree.Rechecking

/-!
# Checking formulas again

The operations of a formula keep the kind that they were checked with, through simplification and
specialization. `recheck_tree` says what a second check finds: every operation passes it, with its
kind or a more specific one, unless a number that was accepted for an integer has become a constant
float.
-/

namespace Reckon.Formula

/-- What a check of an operation sees: its name, its signature, and the kinds of its children. -/
def heading? : Node → Option (String × Signature × List Kind)
  | .operation op children _ => some (op.name, op.signature, children.map Node.kind)
  | .constant _ | .parameter _ => none

/-- A tree with a heading is an operation. -/
theorem exists_of_heading {node : Node} {name : String} {signature : Signature}
    {kinds : List Kind} (h : heading? node = some (name, signature, kinds)) :
    ∃ op children kind, node = .operation op children kind ∧ op.name = name ∧
      op.signature = signature ∧ children.map Node.kind = kinds := by
  cases node with
  | constant | parameter => cases h
  | operation op children kind =>
      cases h
      exact ⟨op, children, kind, rfl, rfl, rfl, rfl⟩

/-- What takes the place of a parameter is checked, and serves as the parameter did. -/
theorem checked_image {bindings : Bindings} {specialization : Specialization} {p : Parameter}
    (h : specialization.Places bindings ⟨p.name, p.kind⟩) :
    (Node.image specialization.substitution p).Checked ∧
      (Node.image specialization.substitution p).Serves p.kind := by
  cases h with
  | bound hget hadjust hlookup =>
      rw [Node.image, hlookup]
      exact ⟨.constant _, .inr ⟨_, rfl, Value.hasKind_of_adjust hadjust⟩⟩
  | moved hget hlookup hslot =>
      rw [Node.image, hlookup]
      exact ⟨.parameter _, .inl rfl⟩

/-- The trees of formulas stay checked. -/
theorem Reachable.checked {compiler : Compiler} {formula : Formula}
    (h : formula.Reachable compiler) : formula.root.Checked := by
  induction h with
  | compiled h =>
      obtain ⟨tree, htree, h⟩ := bind_eq_ok.mp h
      obtain ⟨⟨root, parameters⟩, hroot, h⟩ := bind_eq_ok.mp h
      cases h
      obtain ⟨hbuilt, -, -⟩ := Compiler.built_elaborate (Expr.over_parse htree) hroot
      exact hbuilt.checked.simplify.1
  | specialized hformula h ih =>
      obtain ⟨specialization, hspecialization, hroot, -⟩ := specialize_eq_ok h
      rw [hroot]
      exact (ih.substitute fun p hp =>
        checked_image (hformula.wellFormed.places hspecialization hp)).1.simplify.1

/-- Every operation of a formula that compilation and any specializations lead to has as many
children as it takes. Checked again on their kinds, it passes with the kind that it has or a more
specific one, and can be built again, unless an operand that is asked for an integer has become a
constant float; then the check fails at the first such operand. The tree as a whole, built again
from its leaves, keeps its kind or gets a more specific one, or fails because a float has taken the
place of an integer at one of its operations. -/
theorem recheck_tree {compiler : Compiler} {formula : Formula}
    (hformula : formula.Reachable compiler) :
    (∀ op children kind, .operation op children kind ∈ formula.root.nodes →
      children.length = op.arity ∧
        match op.signature.misfit? (children.map Node.kind) with
        | none => ∃ found, op.signature.returnKind (children.map Node.kind) = .ok found ∧
            found.Refines kind ∧ Node.build op children = .ok (.operation op children found)
        | some i => op.signature.arguments[i]? = some (.kind .integer) ∧
            (∃ x literal, children[i]? = some (.constant ⟨.float x, literal⟩)) ∧
            op.signature.returnKind (children.map Node.kind) =
              .error (.operand (i + 1) .integer .float)) ∧
      match formula.root.rebuild with
      | .ok root => root.kind.Refines formula.kind
      | .error fault => ∃ op children kind position,
          .operation op children kind ∈ formula.root.nodes ∧
            fault = .typeConflict (.operands op.name (.operand position .integer .float)) := by
  refine ⟨fun op children kind hmem => ?_, Node.rebuild_of_typed hformula.wellFormed.typed⟩
  exact Node.recheck_operation (hformula.checked.mem _ hmem)

/-- The sum of a quotient and a constant passes a second check, and can be built again. -/
theorem recheck_quotient :
    ∃ formula : Formula, formula.Reachable ⟨Grammar.standard, Registry.standard⟩ ∧
      ∃ op children kind, formula.root = .operation op children kind ∧ ∃ found,
        op.signature.returnKind (children.map Node.kind) = .ok found ∧ found.Refines kind ∧
          Node.build op children = .ok (.operation op children found) := by
  have hcompile : ((Compiler.compile ⟨Grammar.standard, Registry.standard⟩
      "(x / 2) + 1").toOption.bind fun formula => (heading? formula.root).map fun heading =>
        heading.2.1.misfit? heading.2.2) = some none := by decide +kernel
  cases hformula : Compiler.compile ⟨Grammar.standard, Registry.standard⟩ "(x / 2) + 1" with
  | error fault =>
      rw [hformula] at hcompile
      cases hcompile
  | ok formula =>
      rw [hformula] at hcompile
      have hreachable : formula.Reachable ⟨Grammar.standard, Registry.standard⟩ :=
        .compiled hformula
      obtain ⟨hoperations, -⟩ := recheck_tree hreachable
      obtain ⟨⟨name, signature, kinds⟩, hheading, hmisfit⟩ := Option.map_eq_some_iff.mp hcompile
      obtain ⟨op, children, kind, hroot, -, rfl, rfl⟩ := exists_of_heading hheading
      obtain ⟨-, hchecked⟩ := hoperations op children kind (by rw [hroot]; exact .head _)
      rw [hmisfit] at hchecked
      exact ⟨formula, hreachable, op, children, kind, hroot, hchecked⟩

/-- A number read from a string was accepted for an integer, and folds to a float: the formula
compiles, and its operation does not pass a second check. -/
theorem recheck_repeat_fails :
    ∃ formula : Formula, compile "repeat(s, number(\"2.5\"))" = .ok formula ∧
      ∃ op children kind, formula.root = .operation op children kind ∧
        op.signature.returnKind (children.map Node.kind) =
          .error (.operand 2 .integer .float) ∧
        Node.build op children =
          .error (.typeConflict (.operands "repeat" (.operand 2 .integer .float))) := by
  have hcompile : ((compile "repeat(s, number(\"2.5\"))").toOption.bind fun formula =>
      heading? formula.root) = some ("repeat", .fixed [.string, .integer] .string,
        [.string, .float]) := by decide +kernel
  cases hformula : compile "repeat(s, number(\"2.5\"))" with
  | error fault =>
      rw [hformula] at hcompile
      cases hcompile
  | ok formula =>
      rw [hformula] at hcompile
      obtain ⟨op, children, kind, hroot, hname, hsignature, hkinds⟩ := exists_of_heading hcompile
      have hlength : children.length = op.arity := by
        rw [Operation.arity, hsignature, ← children.length_map Node.kind, hkinds]
        rfl
      have hcheck : op.signature.returnKind (children.map Node.kind) =
          .error (.operand 2 .integer .float) := by
        rw [hsignature, hkinds]
        rfl
      refine ⟨formula, rfl, op, children, kind, hroot, hcheck, ?_⟩
      rw [Node.build, if_neg (not_not.mpr hlength), hcheck, hname]

end Reckon.Formula
