import Reckon.Proofs.Signature.Rechecking
import Reckon.Proofs.Tree.Simplification
import Reckon.Proofs.Tree.Substitution

/-!
# Checking a tree again

An operation is checked when it is built, and its children change afterwards: constants are folded,
and values are bound. `Node.Checked` says how far that goes. A child still has the kind that it was
checked with, or it has become a constant of that kind. So a second check can fail in one way only:
a number was accepted for an integer, and has become a constant float (`Checked.recheck`). A tree
that is built again from its leaves fails in no other way either (`Typed.rebuild`).
-/

namespace Reckon.Node

open List (Forall₂)

/-- The tree has a kind, or it is a constant whose value belongs to that kind. -/
def Serves (node : Node) (kind : Kind) : Prop :=
  node.kind = kind ∨ ∃ c, node = constant c ∧ c.value.HasKind kind

/-- A tree whose operations were checked with kinds that their children have, or have become
constants of. -/
inductive Checked : Node → Prop where
  | constant (c : Constant) : Checked (constant c)
  | parameter (p : Parameter) : Checked (parameter p)
  | operation {op : Operation} {children : List Node} {kind : Kind} {kinds : List Kind}
      (hcheck : op.signature.returnKind kinds = .ok kind)
      (hserves : Forall₂ Serves children kinds) (hchildren : ∀ child ∈ children, Checked child) :
      Checked (operation op children kind)

mutual
/-- The tree with every operation checked again, from the leaves up. -/
def rebuild : Node → Except CompileError Node
  | constant c => .ok (constant c)
  | parameter p => .ok (parameter p)
  | operation op children _ => do
    let children ← rebuildAll children
    build op children

/-- The trees with every operation checked again, from the first one on. -/
def rebuildAll : List Node → Except CompileError (List Node)
  | [] => .ok []
  | child :: children => do
    let child ← rebuild child
    let children ← rebuildAll children
    return child :: children
end

variable {op : Operation} {children : List Node} {kind : Kind} {node : Node}

theorem Serves.refines (h : node.Serves kind) : node.kind.Refines kind := by
  rcases h with rfl | ⟨c, rfl, hvalue⟩
  · exact .refl _
  · exact Value.hasKind_iff_refines.mp hvalue

/-- An operation serves only as the kind that it has. -/
theorem serves_operation {other : Kind} (h : (operation op children kind).Serves other) :
    kind = other :=
  h.resolve_right nofun

/-- Built trees are checked, with the kinds that their children have. -/
theorem Built.checked {ops : Operation → Prop} (h : node.Built ops) : node.Checked := by
  induction h with
  | constant c => exact .constant c
  | parameter p => exact .parameter p
  | @operation op children node hop _ hbuild ih =>
      obtain ⟨result, hcheck, rfl⟩ := build_eq_ok hbuild
      refine .operation hcheck ?_ ih
      rw [List.forall₂_map_right_iff, List.forall₂_same]
      exact fun child _ => .inl rfl

/-- One step of simplification keeps trees checked, and the result serves as the kind that the
operation had. -/
theorem checked_simplifyTop {kinds : List Kind} (hcheck : op.signature.returnKind kinds = .ok kind)
    (hserves : Forall₂ Serves children kinds) (hchildren : ∀ child ∈ children, Checked child) :
    (simplifyTop op children kind).Checked ∧ (simplifyTop op children kind).Serves kind := by
  refine simplifyTop_cases (motive := fun node => node.Checked ∧ node.Serves kind)
    (fun child h => ?_) (fun value h => ?_)
    fun _ _ => ⟨.operation hcheck hserves hchildren, .inl rfl⟩
  · exact ⟨hchildren child (mem_of_decided h), .inl (kind_of_decided hcheck h)⟩
  · obtain ⟨_, _, _, _, hadjust⟩ := folded_eq_some.mp h
    exact ⟨.constant _, .inr ⟨_, rfl, Value.hasKind_of_adjust hadjust⟩⟩

/-- A simplified tree is checked, and serves wherever the tree did. -/
theorem Checked.simplify (h : node.Checked) :
    node.simplify.Checked ∧ ∀ kind, node.Serves kind → node.simplify.Serves kind := by
  induction h with
  | constant c => exact ⟨.constant c, fun _ h => h⟩
  | parameter p => exact ⟨.parameter p, fun _ h => h⟩
  | @operation op children kind kinds hcheck hserves _ ih =>
      rw [Node.simplify, simplifyAll_eq]
      have hsimple : Forall₂ Serves (children.map Node.simplify) kinds := by
        rw [List.forall₂_map_left_iff]
        exact forall₂_imp_of_mem hserves fun child hchild k hk => (ih child hchild).2 k hk
      have hchildren : ∀ child ∈ children.map Node.simplify, child.Checked := by
        rw [List.forall_mem_map]
        exact fun child hchild => (ih child hchild).1
      obtain ⟨hchecked, hkind⟩ := checked_simplifyTop hcheck hsimple hchildren
      refine ⟨hchecked, fun other hother => ?_⟩
      cases serves_operation hother
      exact hkind

/-- A substituted tree is checked, and serves wherever the tree did, if that is so for the images of
its parameters. -/
theorem Checked.substitute {substitution : Substitution} (hnode : node.Checked)
    (h : ∀ p, .parameter p ∈ node.nodes →
      (image substitution p).Checked ∧ (image substitution p).Serves p.kind) :
    (node.substitute substitution).Checked ∧
      ∀ kind, node.Serves kind → (node.substitute substitution).Serves kind := by
  induction hnode with
  | constant c => exact ⟨.constant c, fun _ h => h⟩
  | parameter p =>
      obtain ⟨himage, hserves⟩ := h p (by simp [nodes])
      refine ⟨himage, fun other hother => ?_⟩
      rcases hother with hkind | ⟨c, hconstant, -⟩
      · cases hkind
        exact hserves
      · cases hconstant
  | @operation op children kind kinds hcheck hserves _ ih =>
      have himages : ∀ child ∈ children, (child.substitute substitution).Checked ∧
          ∀ k, child.Serves k → (child.substitute substitution).Serves k := fun child hchild =>
        ih child hchild fun p hp => h p (parameter_mem_operation.mpr ⟨child, hchild, hp⟩)
      rw [Node.substitute, substituteAll_eq]
      refine ⟨.operation hcheck ?_ ?_, fun other hother => ?_⟩
      · rw [List.forall₂_map_left_iff]
        exact forall₂_imp_of_mem hserves fun child hchild k hk => (himages child hchild).2 k hk
      · rw [List.forall_mem_map]
        exact fun child hchild => (himages child hchild).1
      · cases serves_operation hother
        exact .inl rfl

/-- The operations of a checked tree are checked. -/
theorem Checked.mem (h : node.Checked) : ∀ inner ∈ node.nodes, inner.Checked := by
  induction h with
  | constant c =>
      intro inner hinner
      cases List.mem_singleton.mp hinner
      exact .constant c
  | parameter p =>
      intro inner hinner
      cases List.mem_singleton.mp hinner
      exact .parameter p
  | operation hcheck hserves hchildren ih =>
      intro inner hinner
      rw [nodes, List.mem_cons, mem_nodesOfAll] at hinner
      rcases hinner with rfl | ⟨child, hchild, hinner⟩
      · exact .operation hcheck hserves hchildren
      · exact ih child hchild inner hinner

/-- An operand that was accepted for an integer, and is a float now, is a constant. -/
theorem float_of_serves {requirements : List Requirement} {kinds : List Kind}
    {groupClass : Option KindClass} {i : Nat} (hserves : Forall₂ Serves children kinds)
    (hadmits : Forall₂ (Requirement.Admits groupClass) requirements kinds)
    (hrequirement : requirements[i]? = some (.kind .integer))
    (hkind : (children.map Node.kind)[i]? = some .float) :
    ∃ x literal, children[i]? = some (constant ⟨.float x, literal⟩) := by
  induction hserves generalizing requirements i with
  | nil => cases hkind
  | @cons child asked children kinds hchild hrest ih =>
      cases hadmits with
      | @cons requirement _ requirements _ hadmit hadmits =>
          cases i with
          | succ i => exact ih hadmits hrequirement hkind
          | zero =>
              cases hrequirement
              obtain hkind : child.kind = .float := Option.some.inj hkind
              rcases hchild with hsame | ⟨⟨value, literal⟩, rfl, -⟩
              · rw [← hsame, hkind] at hadmit
                cases hadmit
              · cases value with
                | float x => exact ⟨x, literal, rfl⟩
                | integer | string | boolean | byteArray => cases hkind

/-- An operation that is checked again on the kinds of its children has as many as it takes. The
check returns the kind of the node or a more specific one; or it fails at the first operand that is
asked for an integer and has become a constant float. -/
theorem recheck_operation (h : (operation op children kind).Checked) :
    children.length = op.arity ∧
      match op.signature.misfit? (children.map Node.kind) with
      | none => ∃ found, op.signature.returnKind (children.map Node.kind) = .ok found ∧
          found.Refines kind ∧ build op children = .ok (operation op children found)
      | some i => op.signature.arguments[i]? = some (.kind .integer) ∧
          (∃ x literal, children[i]? = some (constant ⟨.float x, literal⟩)) ∧
          op.signature.returnKind (children.map Node.kind) =
            .error (.operand (i + 1) .integer .float) := by
  cases h with
  | @operation _ _ _ kinds hcheck hserves hchildren =>
      have hrefines : Forall₂ Kind.Refines (children.map Node.kind) kinds := by
        rw [List.forall₂_map_left_iff]
        exact hserves.imp fun _ _ h => h.refines
      obtain ⟨groupClass, hadmits, -⟩ := Signature.returnKind_eq_ok hcheck
      have hlength : children.length = op.arity :=
        hserves.length_eq.trans hadmits.length_eq.symm
      refine ⟨hlength, ?_⟩
      have hagain := Signature.returnKind_of_refines hrefines hcheck
      cases hmisfit : op.signature.misfit? (children.map Node.kind) with
      | none =>
          rw [hmisfit] at hagain
          obtain ⟨found, hfound, hkind⟩ := hagain
          refine ⟨found, hfound, hkind, ?_⟩
          rw [build, if_neg (not_not.mpr hlength), hfound]
      | some i =>
          rw [hmisfit] at hagain
          obtain ⟨hrequirement, hkind⟩ := Signature.misfit?_eq_some hmisfit
          refine ⟨hrequirement, ?_, hagain⟩
          exact float_of_serves hserves hadmits hrequirement hkind

theorem rebuildAll_eq (children : List Node) : rebuildAll children = children.mapM rebuild := by
  induction children with
  | nil => rfl
  | cons child children ih => simp [rebuildAll, ih]

/-- Trees that are built again have the kinds that the trees refine, or more specific ones. -/
theorem refines_rebuilt {rebuilt : List Node} {kinds : List Kind}
    (hrefines : Forall₂ (fun child kind => child.kind.Refines kind) children kinds)
    (hsame : ∀ child ∈ children, ∀ root, child.rebuild = .ok root → root.kind.Refines child.kind)
    (h : children.mapM rebuild = .ok rebuilt) :
    Forall₂ Kind.Refines (rebuilt.map Node.kind) kinds := by
  induction hrefines generalizing rebuilt with
  | nil =>
      cases h
      exact .nil
  | @cons child kind children kinds hkind _ ih =>
      rw [List.forall_mem_cons] at hsame
      rw [List.mapM_cons] at h
      obtain ⟨root, hroot, h⟩ := bind_eq_ok.mp h
      obtain ⟨rest, hrest, h⟩ := bind_eq_ok.mp h
      cases h
      exact .cons ((hsame.1 root hroot).trans hkind) (ih hsame.2 hrest)

/-- Building fails, on children of the number that the operation takes, as the check of their kinds
does. -/
theorem build_eq_error {fault : CompileError} (hlength : children.length = op.arity)
    (h : build op children = .error fault) :
    ∃ conflict, op.signature.returnKind (children.map Node.kind) = .error conflict ∧
      fault = .typeConflict (.operands op.name conflict) := by
  rw [build, if_neg (not_not.mpr hlength)] at h
  split at h
  · cases h
  · next conflict hcheck =>
      cases h
      exact ⟨conflict, hcheck, rfl⟩

/-- A tree that is built again from its leaves has the same kind or a more specific one. Otherwise
an operand of one of its operations is asked for an integer and has become a float. -/
theorem rebuild_of_typed {ops : Operation → Prop} (h : node.Typed ops) :
    match node.rebuild with
    | .ok root => root.kind.Refines node.kind
    | .error fault => ∃ op children kind position, operation op children kind ∈ node.nodes ∧
        fault = .typeConflict (.operands (Operation.name op)
          (.operand position .integer .float)) := by
  induction h with
  | constant c => exact .refl _
  | parameter p => exact .refl _
  | @operation op children kind kinds hop hcheck hrefines _ ih =>
      rw [rebuild, rebuildAll_eq]
      cases hrebuilt : children.mapM rebuild with
      | error fault =>
          -- The first child that fails gives its fault.
          obtain ⟨child, hchild, hfault⟩ := exists_of_mapM hrebuilt
          have hinner := ih child hchild
          rw [hfault] at hinner
          obtain ⟨inner, grandchildren, other, position, hmem, rfl⟩ := hinner
          refine ⟨inner, grandchildren, other, position, ?_, rfl⟩
          rw [nodes, List.mem_cons, mem_nodesOfAll]
          exact .inr ⟨child, hchild, hmem⟩
      | ok rebuilt =>
          have hkinds : Forall₂ Kind.Refines (rebuilt.map Node.kind) kinds := by
            refine refines_rebuilt hrefines (fun child hchild root hroot => ?_) hrebuilt
            have hchild := ih child hchild
            rwa [hroot] at hchild
          obtain ⟨groupClass, hadmits, -⟩ := Signature.returnKind_eq_ok hcheck
          have hlength : rebuilt.length = op.arity := by
            rw [← rebuilt.length_map Node.kind]
            exact hkinds.length_eq.trans hadmits.length_eq.symm
          have hagain := Signature.returnKind_of_refines hkinds hcheck
          show match build op rebuilt with
            | .ok root => root.kind.Refines kind
            | .error fault => _
          cases hbuild : build op rebuilt with
          | ok root =>
              obtain ⟨result, hresult, rfl⟩ := build_eq_ok hbuild
              split at hagain
              · obtain ⟨found, hfound, hkind⟩ := hagain
                cases hresult.symm.trans hfound
                exact hkind
              · cases hresult.symm.trans hagain
          | error fault =>
              obtain ⟨conflict, hconflict, rfl⟩ := build_eq_error hlength hbuild
              split at hagain
              · obtain ⟨found, hfound, -⟩ := hagain
                cases hconflict.symm.trans hfound
              · cases hconflict.symm.trans hagain
                exact ⟨op, children, kind, _, .head _, rfl⟩

end Reckon.Node
