import Reckon.Node.Substitute
import Reckon.Proofs.Tree.Typed

/-!
# Substitution in typed trees

A substituted tree evaluates on its own frame as the original does on another, if every parameter of
the original does; and it is typed, if what takes the place of a parameter has that parameter's kind
or a more specific one. The operations above keep the kinds that they got when they were built.
-/

namespace Reckon.Node

open List (Forall₂)

variable {substitution : Substitution}

/-- What takes the place of a parameter. -/
def image (substitution : Substitution) (p : Parameter) : Node :=
  (substitution.lookup p.name).getD (.parameter p)

theorem substituteAll_eq (children : List Node) :
    substituteAll substitution children = children.map (substitute substitution) := by
  induction children with
  | nil => rfl
  | cons child children ih => simp [substituteAll, ih]

/-- A substituted tree evaluates as the tree does, if the images of its parameters evaluate as the
parameters do. -/
theorem evaluate_substitute {frame other : List Value} {node : Node}
    (h : ∀ p, .parameter p ∈ node.nodes →
      evaluate frame (image substitution p) = evaluate other (.parameter p)) :
    evaluate frame (node.substitute substitution) = evaluate other node := by
  induction node using Node.induction with
  | constant c => simp [substitute, evaluate]
  | parameter p => exact h p (by simp [nodes])
  | operation op children kind ih =>
      rw [substitute, substituteAll_eq, evaluate_operation, evaluate_operation, List.map_map]
      refine congrArg (fun children => widen kind <$> combine op children) ?_
      refine List.map_congr_left fun child hchild => ih child hchild fun p hp => h p ?_
      exact parameter_mem_operation.mpr ⟨child, hchild, hp⟩

/-- A substituted tree is typed, and its kind says as much as before or more, if that is so for the
images of its parameters. -/
theorem Typed.substitute {ops : Operation → Prop} {node : Node} (hnode : node.Typed ops)
    (h : ∀ p, .parameter p ∈ node.nodes →
      (image substitution p).Typed ops ∧ (image substitution p).kind.Refines p.kind) :
    (node.substitute substitution).Typed ops ∧
      (node.substitute substitution).kind.Refines node.kind := by
  induction hnode with
  | constant c => exact ⟨.constant c, .refl _⟩
  | parameter p => exact h p (by simp [nodes])
  | @operation op children kind kinds hop hcheck hrefines _ ih =>
      have himages : ∀ child ∈ children, (child.substitute substitution).Typed ops ∧
          (child.substitute substitution).kind.Refines child.kind := fun child hchild =>
        ih child hchild fun p hp => h p (parameter_mem_operation.mpr ⟨child, hchild, hp⟩)
      rw [Node.substitute, substituteAll_eq]
      refine ⟨.operation hop hcheck ?_ ?_, .refl kind⟩
      · rw [List.forall₂_map_left_iff]
        exact forall₂_imp_of_mem hrefines fun child hchild _ hk => (himages child hchild).2.trans hk
      · rw [List.forall_mem_map]
        exact fun child hchild => (himages child hchild).1

/-- The parameters of a substituted tree come from the images of its parameters. -/
theorem parameter_of_substitute {q : Parameter} {node : Node}
    (h : .parameter q ∈ (node.substitute substitution).nodes) :
    ∃ p, .parameter p ∈ node.nodes ∧ .parameter q ∈ (image substitution p).nodes := by
  induction node using Node.induction with
  | constant c => simp [substitute, nodes] at h
  | parameter p => exact ⟨p, by simp [nodes], h⟩
  | operation op children kind ih =>
      rw [substitute, substituteAll_eq] at h
      obtain ⟨_, himage, hq⟩ := parameter_mem_operation.mp h
      obtain ⟨child, hchild, rfl⟩ := List.mem_map.mp himage
      obtain ⟨p, hp, hq⟩ := ih child hchild hq
      exact ⟨p, parameter_mem_operation.mpr ⟨child, hchild, hp⟩, hq⟩

end Reckon.Node
