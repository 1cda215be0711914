import Reckon.Proofs.Fallible
import Reckon.Proofs.Tree.Combine

/-!
# Typed trees

A tree that `Node.build` made was checked at every operation. Simplification and substitution put
more specific subtrees under operations that keep the kind they got then, so what lasts is
`Node.Typed`: at every operation the signature accepted some kinds, and the children refine them. On
a frame that conforms to the parameters of the tree, a typed tree evaluates to a value of its kind.
-/

namespace Reckon

open List (Forall₂)

namespace Node

/-- Induction over trees: what holds of constants and parameters, and of an operation when it holds
of all children, holds of every tree. -/
@[elab_as_elim] theorem induction {motive : Node → Prop} (constant : ∀ c, motive (constant c))
    (parameter : ∀ p, motive (parameter p))
    (operation : ∀ op children kind, (∀ child ∈ children, motive child) →
      motive (operation op children kind)) (node : Node) : motive node :=
  @Node.rec motive (fun children => ∀ child ∈ children, motive child) constant parameter operation
    nofun (fun _ _ hchild hchildren => List.forall_mem_cons.mpr ⟨hchild, hchildren⟩) node

/-- A tree made by the checked constructor from constants, parameters and operations of some
sort. -/
inductive Built (ops : Operation → Prop) : Node → Prop where
  | constant (c : Constant) : Built ops (constant c)
  | parameter (p : Parameter) : Built ops (parameter p)
  | operation {op : Operation} {children : List Node} {node : Node} (hop : ops op)
      (hchildren : ∀ child ∈ children, Built ops child) (hbuild : build op children = .ok node) :
      Built ops node

/-- A tree whose operations are of some sort, and accepted kinds that their children now refine. -/
inductive Typed (ops : Operation → Prop) : Node → Prop where
  | constant (c : Constant) : Typed ops (constant c)
  | parameter (p : Parameter) : Typed ops (parameter p)
  | operation {op : Operation} {children : List Node} {kind : Kind} {kinds : List Kind}
      (hop : ops op) (hcheck : op.signature.returnKind kinds = .ok kind)
      (hrefines : Forall₂ (fun child kind => child.kind.Refines kind) children kinds)
      (hchildren : ∀ child ∈ children, Typed ops child) : Typed ops (operation op children kind)

/-- The values that a frame holds for the parameters of a tree belong to their kinds. A slot may be
missing from the frame. -/
def Fits (frame : List Value) (node : Node) : Prop :=
  ∀ p, parameter p ∈ node.nodes → ∀ value, frame[p.slot]? = some value → value.HasKind p.kind

/-- The frame holds a value of the right kind for every parameter of a tree. -/
def Fills (frame : List Value) (node : Node) : Prop :=
  ∀ p, parameter p ∈ node.nodes → ∃ value, frame[p.slot]? = some value ∧ value.HasKind p.kind

variable {ops : Operation → Prop} {frame : List Value}

/-- A built operation node keeps its children and has the kind that its check returned. -/
theorem build_eq_ok {op : Operation} {children : List Node} {node : Node}
    (h : build op children = .ok node) :
    ∃ result, op.signature.returnKind (children.map kind) = .ok result ∧
      node = operation op children result := by
  unfold build at h
  split at h
  · cases h
  · split at h
    · next result hcheck =>
        cases h
        exact ⟨result, hcheck, rfl⟩
    · cases h

/-- Built trees are typed. -/
theorem Built.typed {node : Node} (h : node.Built ops) : node.Typed ops := by
  induction h with
  | constant c => exact .constant c
  | parameter p => exact .parameter p
  | @operation op children node hop _ hbuild ih =>
      obtain ⟨result, hcheck, rfl⟩ := build_eq_ok hbuild
      refine .operation hop hcheck ?_ ih
      rw [List.forall₂_map_right_iff, List.forall₂_same]
      exact fun child _ => .refl _

theorem Typed.mono {other : Operation → Prop} {node : Node} (h : node.Typed ops)
    (hops : ∀ op, ops op → other op) : node.Typed other := by
  induction h with
  | constant c => exact .constant c
  | parameter p => exact .parameter p
  | operation hop hcheck hrefines _ ih => exact .operation (hops _ hop) hcheck hrefines ih

theorem mem_nodesOfAll {node : Node} {children : List Node} :
    node ∈ nodesOfAll children ↔ ∃ child ∈ children, node ∈ child.nodes := by
  induction children with
  | nil => simp [nodesOfAll]
  | cons child children ih => simp [nodesOfAll, ih]

theorem parameter_mem_operation {p : Parameter} {op : Operation} {children : List Node}
    {kind : Kind} : parameter p ∈ (operation op children kind).nodes ↔
      ∃ child ∈ children, parameter p ∈ child.nodes := by
  rw [nodes, List.mem_cons, mem_nodesOfAll]
  exact or_iff_right nofun

theorem Fits.child {op : Operation} {children : List Node} {kind : Kind} {child : Node}
    (h : Fits frame (operation op children kind)) (hchild : child ∈ children) :
    Fits frame child :=
  fun p hp => h p (parameter_mem_operation.mpr ⟨child, hchild, hp⟩)

theorem Fills.fits {node : Node} (h : Fills frame node) : Fits frame node := by
  intro p hp value hvalue
  obtain ⟨held, hheld, hkind⟩ := h p hp
  cases hheld.symm.trans hvalue
  exact hkind

/-- The value of a tree needs no widening to the kind of the tree. -/
theorem widen_evaluate {node : Node} (h : Fits frame node) :
    widen node.kind <$> evaluate frame node = evaluate frame node := by
  cases node with
  | constant c =>
      have hkind : widen c.value.kind c.value = c.value := widen_of_hasKind c.value.hasKind_kind
      simp [evaluate, kind, Constant.kind, hkind]
  | parameter p =>
      rw [evaluate, readParameter]
      split
      · next value hvalue =>
          have hkind : widen p.kind value = value :=
            widen_of_hasKind (h p (by simp [nodes]) value hvalue)
          simp [kind, hkind]
      · rfl
  | operation op children kind =>
      rw [evaluate_operation, ← comp_map]
      exact congrArg (· <$> _) (funext (widen_widen kind))

/-- On a frame that fills it, a typed tree over operations that keep their promises yields a value
of its kind. -/
theorem Typed.yields {node : Node} (h : node.Typed Operation.KeepsPromise)
    (hframe : Fills frame node) : Eval.Yields (·.HasKind node.kind) (evaluate frame node) := by
  induction h with
  | constant c =>
      rw [evaluate]
      exact Eval.yields_pure c.value.hasKind_kind
  | parameter p =>
      obtain ⟨value, hvalue, hkind⟩ := hframe p (by simp [nodes])
      rw [evaluate, readParameter, hvalue]
      exact Eval.yields_pure hkind
  | @operation op children kind kinds hop hcheck hrefines _ ih =>
      -- The children yield values of their own kinds, which are at least as specific as those that
      -- the signature was checked with.
      have hvalues : Forall₂ (fun evaluation kind => Eval.Yields (·.HasKind kind) evaluation)
          (children.map (evaluate frame)) kinds := by
        rw [List.forall₂_map_left_iff]
        refine forall₂_imp_of_mem hrefines ?_
        intro child hchild k hk
        exact (ih child hchild fun p hp => hframe p
          (parameter_mem_operation.mpr ⟨child, hchild, hp⟩)).mono fun _ h => h.weaken hk
      rw [evaluate_operation]
      exact (yields_combine hop hcheck hvalues).bind fun value hvalue => Eval.yields_pure hvalue

end Node

end Reckon
