import Reckon.Proofs.Tree.Simplification

/-!
# Closed trees are folded as far as they have a value

A tree without parameters, over operators and functions that compute from their arguments alone,
simplifies to a constant unless it fails (`finished_simplify`). It is progress for simplification:
an operation over known children has a value, which takes the kind of the node, or fails; and an
operation over a child that fails does so too, unless a constant child decides it.
-/

namespace Reckon

open List (Forall₂)

/-- An operator, or a function that computes from its arguments alone: it draws nothing, and it
leaves no argument out. -/
def Operation.isPure : Operation → Bool
  | .unary _ | .binary _ => true
  | .call ⟨_, _, .deterministic _, _⟩ => true
  | .call _ => false

theorem Operation.isDeterministic_of_pure {op : Operation} (h : op.isPure = true) :
    op.isDeterministic = true := by
  match op, h with
  | .unary _, _ | .binary _, _ => rfl
  | .call ⟨_, _, .deterministic _, _⟩, _ => rfl

theorem Operation.ne_conditional_of_pure {op : Operation} (h : op.isPure = true)
    (names : List String) (signature : Signature) (variadic : Bool) :
    op ≠ .call ⟨names, signature, .conditional, variadic⟩ := by
  rintro rfl
  cases h

namespace Eval

variable {α β : Type}

/-- The evaluation fails with one error, whatever there is to draw. -/
def Fails (evaluation : Eval α) : Prop :=
  ∃ error : EvalError, evaluation = throw error

/-- A composition fails where its first step does. -/
theorem Fails.bind {evaluation : Eval α} (h : evaluation.Fails) (next : α → Eval β) :
    (evaluation >>= next).Fails := by
  obtain ⟨error, rfl⟩ := h
  exact ⟨error, rfl⟩

theorem Fails.map {evaluation : Eval α} (h : evaluation.Fails) (change : α → β) :
    (change <$> evaluation).Fails := by
  obtain ⟨error, rfl⟩ := h
  exact ⟨error, rfl⟩

end Eval

namespace Node

variable {frame : List Value} {op : Operation} {children : List Node} {kind : Kind}

/-- All operations of the tree are pure: it has no volatile function and no conditional. -/
def isPure (node : Node) : Bool :=
  node.nodes.all fun
    | operation op _ _ => op.isPure
    | constant _ | parameter _ => true

/-- Nothing is left to be computed of the tree: it is a constant, or it fails. -/
def Finished (frame : List Value) (node : Node) : Prop :=
  (∃ c, node = constant c) ∨ (evaluate frame node).Fails

/-- Finished trees are all constants, or the first one that is not fails, and so do all together. -/
theorem finished_mapM (h : ∀ child ∈ children, Finished frame child) :
    (∃ constants : List Constant, children = constants.map constant) ∨
      ((children.map (evaluate frame)).mapM id).Fails := by
  induction children with
  | nil => exact .inl ⟨[], rfl⟩
  | cons child children ih =>
      rw [List.forall_mem_cons] at h
      rw [List.map_cons, List.mapM_cons]
      rcases h.1 with ⟨c, rfl⟩ | hfails
      · rcases ih h.2 with ⟨constants, rfl⟩ | hfails
        · exact .inl ⟨c :: constants, rfl⟩
        · refine .inr ?_
          rw [evaluate, id, pure_bind]
          exact hfails.bind _
      · exact .inr (hfails.bind _)

/-- A connective whose left operand is a constant that does not decide it fails with its right
operand. -/
theorem fails_connective {operator : BinaryOperator}
    (hoperator : operator = .and ∨ operator = .or) {left : Constant} {right : Node}
    (hundecided : decided? (.binary operator) [constant left, right] kind = none)
    (hright : (evaluate frame right).Fails) :
    (combine (.binary operator) [evaluate frame (constant left), evaluate frame right]).Fails := by
  obtain ⟨value, literal⟩ := left
  obtain ⟨error, hright⟩ := hright
  rw [hright, evaluate]
  cases value with
  | boolean b =>
      rcases hoperator with rfl | rfl
      · cases b with
        | false => cases hundecided
        | true => exact ⟨error, rfl⟩
      · cases b with
        | false => exact ⟨error, rfl⟩
        | true => cases hundecided
  | integer | float | string | byteArray => rcases hoperator with rfl | rfl <;> exact ⟨_, rfl⟩

/-- A pure operation over finished children that no constant child decides fails, or all of its
children are constants. -/
theorem fails_combine (hop : op.isPure = true)
    (hchildren : ∀ child ∈ children, Finished frame child)
    (hundecided : decided? op children kind = none) :
    (∃ constants : List Constant, children = constants.map constant) ∨
      (combine op (children.map (evaluate frame))).Fails := by
  by_cases hlazy : ∃ operator left right, (operator = .and ∨ operator = .or) ∧
      op = .binary operator ∧ children = [left, right]
  · obtain ⟨operator, left, right, hoperator, rfl, rfl⟩ := hlazy
    simp only [List.forall_mem_cons] at hchildren
    obtain ⟨hleft, hright, -⟩ := hchildren
    rcases hleft with ⟨c, rfl⟩ | hfails
    · rcases hright with ⟨d, rfl⟩ | hfails
      · exact .inl ⟨[c, d], rfl⟩
      · exact .inr (fails_connective hoperator hundecided hfails)
    · -- Either connective evaluates its left operand first.
      refine .inr ?_
      rcases hoperator with rfl | rfl <;> exact hfails.bind _
  · have hpair {operator : BinaryOperator} (hoperator : operator = .and ∨ operator = .or)
        (hop : op = .binary operator) {left right : Eval Value}
        (hmap : children.map (evaluate frame) = [left, right]) : False := by
      match children, hmap, hlazy with
      | [a, b], _, hlazy => exact hlazy ⟨operator, a, b, hoperator, hop, rfl⟩
    rw [combine_eager (fun _ _ hop => hpair (.inl rfl) hop) (fun _ _ hop => hpair (.inr rfl) hop)
      (Operation.ne_conditional_of_pure hop)]
    exact (finished_mapM hchildren).imp_right fun hfails => hfails.bind _

/-- One step of simplification over finished children finishes a pure operation. -/
theorem finished_simplifyTop {kinds : List Kind} (hstandard : op.IsStandard)
    (hop : op.isPure = true) (hcheck : op.signature.returnKind kinds = .ok kind)
    (hrefines : Forall₂ (fun child kind => child.kind.Refines kind) children kinds)
    (hchildren : ∀ child ∈ children, Finished frame child) :
    Finished frame (simplifyTop op children kind) := by
  refine simplifyTop_cases (fun child hdecided => hchildren child (mem_of_decided hdecided))
    (fun _ _ => .inl ⟨_, rfl⟩) fun hundecided hunfolded => .inr ?_
  rw [evaluate_operation]
  refine Eval.Fails.map ?_ _
  rcases fails_combine hop hchildren hundecided with ⟨constants, rfl⟩ | hfails
  · -- The children are known, and a value of the operation would have been folded.
    have hconstants := forall₂_of_mapM (mapM_constant.mpr ⟨constants, rfl, rfl⟩)
    rw [evaluate_constants hconstants, combine_pure (Operation.ne_conditional_of_pure hop)]
    obtain ⟨result, hevaluate, hfold⟩ :=
      Operation.exists_result (Operation.isDeterministic_of_pure hop) (constants.map (·.value))
    cases result with
    | error error => exact ⟨error, hevaluate⟩
    | ok value =>
        have hkind := hasKind_of_fold hstandard hcheck hrefines hconstants hfold
        have hfolded := folded_eq_some.mpr ⟨constants, value, rfl, hfold, adjust_eq_widen hkind⟩
        cases hunfolded.symm.trans hfolded
  · exact hfails

/-- A pure tree is typed over pure operations. -/
theorem Typed.restrict {ops : Operation → Prop} {node : Node} (h : node.Typed ops)
    (hpure : node.isPure = true) : node.Typed fun op => ops op ∧ op.isPure = true := by
  rw [isPure, List.all_eq_true] at hpure
  induction h with
  | constant c => exact .constant c
  | parameter p => exact .parameter p
  | operation hop hcheck hrefines _ ih =>
      rw [nodes, List.forall_mem_cons] at hpure
      refine .operation ⟨hop, hpure.1⟩ hcheck hrefines fun child hchild => ih child hchild ?_
      exact fun node hnode => hpure.2 node (mem_nodesOfAll.mpr ⟨child, hchild, hnode⟩)

/-- A tree without parameters over pure operations simplifies to a constant, or it fails. -/
theorem finished_simplify {node : Node}
    (h : node.Typed fun op => op.IsStandard ∧ op.isPure = true)
    (hclosed : ∀ p, parameter p ∉ node.nodes) (frame : List Value) :
    Finished frame node.simplify := by
  induction h with
  | constant c => exact .inl ⟨c, rfl⟩
  | parameter p => exact absurd (.head _) (hclosed p)
  | @operation op children kind kinds hop hcheck hrefines hchildren ih =>
      rw [simplify, simplifyAll_eq]
      have hrefines := refines_children hrefines fun child hchild =>
        (hchildren child hchild).simplify.2
      refine finished_simplifyTop hop.1 hop.2 hcheck hrefines (List.forall_mem_map.mpr ?_)
      intro child hchild
      exact ih child hchild fun p hp =>
        hclosed p (parameter_mem_operation.mpr ⟨child, hchild, hp⟩)

end Node

end Reckon
