import Reckon.Proofs.Tree.Simplification

/-!
# Simplified trees are normal

`Redex` says of an operation node that simplification rewrites it: a constant child decides it, or
its children are known and so is its value. Simplification leaves no such node, and leaves a tree
without such nodes as it is (`simplify_normalizes`). Nothing is assumed of the tree, so its
functions may be any, and it need not be typed.
-/

namespace Reckon.Node

/-- An operation over children that simplification rewrites, at some kind of the node. -/
inductive Redex : Operation → List Node → Kind → Prop where
  /-- The children are constants, and the operation has a value on them that takes the kind. -/
  | known {op : Operation} {constants : List Constant} {kind : Kind} {draws : Draws}
      {value adjusted : Value} (hop : op.isDeterministic = true)
      (hvalue : (op.evaluate (constants.map (·.value))).outcome draws = .ok value)
      (hadjust : value.adjust? kind = some adjusted) : Redex op (constants.map constant) kind
  /-- A constant left operand of `and` or `or` decides it, or a constant condition selects a branch
  of the node's kind. -/
  | decided {op : Operation} {children : List Node} {kind : Kind} {child : Node}
      (h : Decides op children kind child) : Redex op children kind

/-- No operation of the tree is one that simplification rewrites. -/
def Normal (node : Node) : Prop :=
  ∀ op children kind, operation op children kind ∈ node.nodes → ¬ Redex op children kind

variable {op : Operation} {children : List Node} {kind : Kind}

/-- An operation is folded only if simplification rewrites it. -/
theorem redex_of_folded {value : Value} (h : folded? op children kind = some value) :
    Redex op children kind := by
  obtain ⟨constants, result, rfl, hresult, hadjust⟩ := folded_eq_some.mp h
  have hvalue : (op.evaluate (constants.map (·.value))).outcome ⟨fun _ => 0, 0⟩ = .ok result := by
    rw [Operation.evaluate_of_fold hresult]
    rfl
  exact .known (Operation.isDeterministic_of_fold hresult) hvalue hadjust

/-- An operation that is rewritten is decided by a constant child, or is folded. -/
theorem Redex.isSome (h : Redex op children kind) :
    (decided? op children kind).isSome = true ∨ (folded? op children kind).isSome = true := by
  cases h with
  | @known constants _ draws value adjusted hop hvalue hadjust =>
      obtain ⟨result, hevaluate, hfold⟩ := Operation.exists_result hop (constants.map (·.value))
      rw [hevaluate, Eval.outcome_ofExcept] at hvalue
      rw [hvalue] at hfold
      have hfolded := folded_eq_some.mpr ⟨constants, value, rfl, hfold, hadjust⟩
      exact .inr (Option.isSome_of_eq_some hfolded)
  | decided h => exact .inl (Option.isSome_of_eq_some (decided_eq_some.mpr h))

theorem normal_constant (c : Constant) : (constant c).Normal := by
  intro op children kind h
  simp [nodes] at h

theorem normal_parameter (p : Parameter) : (parameter p).Normal := by
  intro op children kind h
  simp [nodes] at h

/-- An operation is normal if it is not rewritten and its children are normal. -/
theorem normal_operation : (operation op children kind).Normal ↔
    ¬ Redex op children kind ∧ ∀ child ∈ children, child.Normal := by
  constructor
  · intro h
    refine ⟨h op children kind (.head _), fun child hchild op others kind hnode => ?_⟩
    exact h op others kind (.tail _ (mem_nodesOfAll.mpr ⟨child, hchild, hnode⟩))
  · rintro ⟨htop, hchildren⟩ op others kind hnode
    rw [nodes, List.mem_cons, mem_nodesOfAll] at hnode
    rcases hnode with heq | ⟨child, hchild, hnode⟩
    · cases heq
      exact htop
    · exact hchildren child hchild op others kind hnode

theorem simplifyTop_of_not_redex (h : ¬ Redex op children kind) :
    simplifyTop op children kind = operation op children kind :=
  simplifyTop_cases (motive := fun node => node = operation op children kind)
    (fun _ hdecided => absurd (.decided (decided_eq_some.mp hdecided)) h)
    (fun _ hfolded => absurd (redex_of_folded hfolded) h) fun _ _ => rfl

/-- One step of simplification over normal children gives a normal tree. -/
theorem normal_simplifyTop (h : ∀ child ∈ children, child.Normal) :
    (simplifyTop op children kind).Normal := by
  refine simplifyTop_cases (fun child hdecided => h child (mem_of_decided hdecided))
    (fun _ _ => normal_constant _) fun hundecided hunfolded =>
      normal_operation.mpr ⟨fun hredex => ?_, h⟩
  rcases hredex.isSome with hsome | hsome
  · simp [hundecided] at hsome
  · simp [hunfolded] at hsome

/-- Simplified trees are normal. -/
theorem normal_simplify (node : Node) : node.simplify.Normal := by
  induction node using Node.induction with
  | constant c => exact normal_constant c
  | parameter p => exact normal_parameter p
  | operation op children kind ih =>
      rw [simplify, simplifyAll_eq]
      exact normal_simplifyTop (List.forall_mem_map.mpr ih)

/-- Simplification leaves normal trees as they are. -/
theorem simplify_of_normal {node : Node} (h : node.Normal) : node.simplify = node := by
  induction node using Node.induction with
  | constant c => rfl
  | parameter p => rfl
  | operation op children kind ih =>
      obtain ⟨htop, hchildren⟩ := normal_operation.mp h
      have hsame : children.map simplify = children := by
        conv_rhs => rw [← List.map_id children]
        exact List.map_congr_left fun child hchild => ih child hchild (hchildren child hchild)
      rw [simplify, simplifyAll_eq, hsame, simplifyTop_of_not_redex htop]

/-- Simplification is idempotent and reaches a normal form: simplifying a second time changes
nothing, and no operation is left whose children are constants on which it has a value of the node's
kind, or that a constant child decides. The trees with this normal form are those that
simplification leaves as they are. -/
theorem simplify_normalizes (node : Node) :
    node.simplify.simplify = node.simplify ∧ node.simplify.Normal ∧
      (node.simplify = node ↔ node.Normal) := by
  have hnormal := normal_simplify node
  refine ⟨simplify_of_normal hnormal, hnormal, fun hsame => ?_, simplify_of_normal⟩
  rw [← hsame]
  exact hnormal

end Reckon.Node
