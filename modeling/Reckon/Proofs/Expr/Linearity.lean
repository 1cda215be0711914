import Mathlib.Algebra.BigOperators.Group.List.Basic
import Mathlib.Algebra.Order.Ring.Nat
import Reckon.Proofs.Expr.Templates
import Reckon.Proofs.Source.Tables

/-!
# Every part of a source is used once

Open places are neither lost nor copied on the way from a source to its tree: a tree that is read
has as many of them as its sketch (`Sketch.holes_of_read`), and so has what a step of cutting leaves
(`Step.holes_eq`), unless a part without a tree is left, from which no tree follows.
-/

namespace Reckon

/-- The number of open places in the tree. -/
def Expr.holes (tree : Expr) : Nat :=
  tree.parameterNames.count Expr.hole

/-- The number of open places in the left operand of the waiting operator. -/
def Pending.holes (pending : Pending) : Nat :=
  pending.left.holes

/-- The number of open places in the piece. -/
def Item.holes : Item → Nat
  | .operand tree => tree.holes
  | .operator _ _ => 0

/-- The number of open places in the atom. A part without a tree has none. -/
def Atom.holes : Atom → Nat
  | .char _ => 0
  | .tree part => part.elim 0 Expr.holes

/-- The number of open places in the sketch. -/
def Sketch.holes (sketch : Sketch) : Nat :=
  (sketch.map Atom.holes).sum

variable {grammar : Grammar} {registry : Registry}

namespace Expr

@[simp] theorem holes_constant (c : Constant) : (constant c).holes = 0 := by
  rw [holes, parameterNames, List.count_nil]

@[simp] theorem holes_hole : (parameter hole).holes = 1 := by
  rw [holes, parameterNames, List.count_singleton_self]

@[simp] theorem holes_operation (op : Operation) (arguments : List Expr) :
    (operation op arguments).holes = (arguments.map holes).sum := by
  rw [holes, parameterNames]
  induction arguments with
  | nil => rfl
  | cons argument arguments ih =>
      rw [parameterNamesOfAll, List.count_append, ih, List.map_cons, List.sum_cons, holes]

/-- An operand of a source has no open places. -/
theorem holes_ofLeaf {text : Text} {tree : Expr} (h : ofLeaf? text = some tree) :
    tree.holes = 0 := by
  unfold ofLeaf? at h
  split at h
  · next name hname =>
      cases h
      rw [holes, parameterNames, List.count_eq_zero, List.mem_singleton]
      exact (ofList_ne_hole hname).symm
  · obtain ⟨value, -, rfl⟩ := Option.map_eq_some_iff.mp h
    rw [holes_constant]
  · cases h

theorem holes_applyPrefixes (prefixes : List UnaryOperator) (operand : Expr) :
    (applyPrefixes prefixes operand).holes = operand.holes := by
  unfold applyPrefixes
  induction prefixes generalizing operand with
  | nil => rfl
  | cons op prefixes ih =>
      rw [List.foldl_cons, ih, holes_operation, List.map_singleton, List.sum_singleton]

end Expr

namespace Pending

/-- A closed operator has the open places of both operands. -/
theorem holes_close (pending : Pending) (right : Expr) :
    (pending.close right).holes = pending.holes + right.holes := by
  rw [close, Expr.holes_operation, List.map_cons, List.map_singleton, List.sum_cons,
    List.sum_singleton, holes]

/-- Closing waiting operators keeps the open places. -/
theorem holes_closeWhile (precedence : Precedence) (operator : BinaryOperator) (level : Nat)
    (pending : List Pending) (right : Expr) :
    ((closeWhile precedence operator level pending right).1.map holes).sum +
        (closeWhile precedence operator level pending right).2.holes =
      (pending.map holes).sum + right.holes := by
  induction pending generalizing right with
  | nil => rfl
  | cons first pending ih =>
      rw [closeWhile]
      split
      · rw [ih, holes_close, List.map_cons, List.sum_cons]
        omega
      · rfl

/-- Closing all waiting operators keeps the open places. -/
theorem holes_foldl (pending : List Pending) (operand : Expr) :
    (pending.foldl (fun right pending => pending.close right) operand).holes =
      (pending.map holes).sum + operand.holes := by
  induction pending generalizing operand with
  | nil => rw [List.foldl_nil, List.map_nil, List.sum_nil, Nat.zero_add]
  | cons first pending ih =>
      rw [List.foldl_cons, ih, holes_close, List.map_cons, List.sum_cons]
      omega

end Pending

namespace Item

/-- Reading on keeps the open places of the waiting operators, the operand and the items. -/
theorem holes_of_readFrom (items : List Item) :
    (∀ pending prefixes tree, readOperand grammar pending prefixes items = some tree →
      tree.holes = (pending.map Pending.holes).sum + (items.map holes).sum) ∧
    ∀ pending operand tree, readOperator grammar pending operand items = some tree →
      tree.holes = (pending.map Pending.holes).sum + operand.holes + (items.map holes).sum := by
  -- Each way of reading on calls the other, so both are shown in one induction.
  induction items with
  | nil =>
      refine ⟨nofun, fun pending operand tree h => ?_⟩
      cases h
      exact Pending.holes_foldl pending operand
  | cons item items ih =>
      obtain ⟨hoperand, hoperator⟩ := ih
      cases item with
      | operand first =>
          refine ⟨fun pending prefixes tree h => ?_, nofun⟩
          rw [hoperator pending _ tree h, Expr.holes_applyPrefixes, List.map_cons, List.sum_cons,
            holes, Nat.add_assoc]
      | operator token level =>
          refine ⟨fun pending prefixes tree h => ?_, fun pending operand tree h => ?_⟩
          · obtain ⟨op, -, hrest⟩ := Option.bind_eq_some_iff.mp h
            rw [hoperand pending _ tree hrest, List.map_cons, List.sum_cons, holes, Nat.zero_add]
          · obtain ⟨⟨op, level⟩, -, hrest⟩ := Option.bind_eq_some_iff.mp h
            have hclosed := Pending.holes_closeWhile grammar.precedence op level pending operand
            have hwaiting (left : Expr) : Pending.holes ⟨left, op, level⟩ = left.holes := rfl
            rw [hoperand _ _ tree hrest, List.map_cons, List.sum_cons, List.map_cons,
              List.sum_cons, holes, hwaiting]
            omega

end Item

namespace Expr

theorem holes_take_drop (arguments : List Expr) (n : Nat) :
    ((arguments.take n).map holes).sum + ((arguments.drop n).map holes).sum =
      (arguments.map holes).sum := by
  rw [← List.sum_append, ← List.map_append, List.take_append_drop]

/-- A chain of calls has the open places of the first call and of the further arguments. -/
theorem holes_of_chain {op : Operation} {more : Nat} {hmore : 0 < more} {made result : Expr}
    {arguments : List Expr}
    (h : ResolvedCall.chain (m := Except CompileError)
      (fun arguments => .ok (.operation op arguments)) hmore made arguments = .ok result) :
    result.holes = made.holes + (arguments.map holes).sum := by
  induction hlength : arguments.length using Nat.strongRecOn generalizing made arguments with
  | ind length ih =>
      cases arguments with
      | nil =>
          rw [ResolvedCall.chain] at h
          cases h
          rfl
      | cons argument rest =>
          rw [ResolvedCall.chain] at h
          have hdrop : ((argument :: rest).drop more).length < length := by
            rw [List.length_drop, ← hlength, List.length_cons]
            omega
          have hrest := ih _ hdrop h rfl
          have hsplit := holes_take_drop (argument :: rest) more
          rw [holes_operation, List.map_cons, List.sum_cons] at hrest
          omega

/-- A call has the open places of its arguments. -/
theorem holes_of_build {call : ResolvedCall} {arguments : List Expr} {tree : Expr}
    (h : call.build arguments (fun op arguments => .ok (.operation op arguments)) = .ok tree) :
    tree.holes = (arguments.map holes).sum := by
  have hcount := ResolvedCall.length_of_build h
  unfold ResolvedCall.build at h
  by_cases harity : call.count = call.function.arity
  · rw [ResolvedCall.buildM_of_arity hcount harity] at h
    cases h
    exact holes_operation _ arguments
  · rw [ResolvedCall.buildM_of_ne hcount harity] at h
    obtain ⟨first, hfirst, hchain⟩ := bind_eq_ok.mp h
    cases hfirst
    rw [holes_of_chain hchain, holes_operation, holes_take_drop]

/-- The tree of a call has the open places of the trees of its arguments. -/
theorem holes_of_ofCall {name : Text} {arguments : List (Option Expr)} {tree : Expr}
    (h : ofCall registry name arguments = some tree) :
    ∃ trees : List Expr, arguments = trees.map some ∧ tree.holes = (trees.map holes).sum := by
  obtain ⟨trees, htrees, hcall⟩ := Option.bind_eq_some_iff.mp h
  obtain ⟨call, -, hbuild⟩ := Option.bind_eq_some_iff.mp hcall
  have hresult : call.build trees (fun op arguments => .ok (.operation op arguments)) =
      .ok tree := by
    cases hresult : call.build trees fun op arguments => .ok (.operation op arguments) with
    | error fault =>
        rw [hresult] at hbuild
        cases hbuild
    | ok result =>
        rw [hresult] at hbuild
        cases hbuild
        rfl
  exact ⟨trees, eq_map_of_mapM_id htrees, holes_of_build hresult⟩

end Expr

namespace Sketch

@[simp] theorem holes_append (a b : Sketch) : holes (a ++ b) = a.holes + b.holes := by
  rw [holes, List.map_append, List.sum_append, holes, holes]

@[simp] theorem holes_cons (atom : Atom) (sketch : Sketch) :
    holes (atom :: sketch) = atom.holes + sketch.holes := by
  rw [holes, List.map_cons, List.sum_cons, holes]

@[simp] theorem holes_ofText (text : Text) : holes (ofText text) = 0 := by
  refine List.sum_eq_zero fun n hn => ?_
  obtain ⟨atom, hatom, rfl⟩ := List.mem_map.mp hn
  obtain ⟨c, -, rfl⟩ := List.mem_map.mp hatom
  rfl

/-- The number of open places in a piece, if the piece is there. -/
def itemHoles (item : Option Item) : Nat :=
  item.elim 0 Item.holes

/-- A text has no open places. -/
theorem itemHoles_textItems (text : Text) :
    ((textItems grammar text).map itemHoles).sum = 0 := by
  refine List.sum_eq_zero fun n hn => ?_
  obtain ⟨item, hitem, rfl⟩ := List.mem_map.mp hn
  obtain ⟨lexeme, -, rfl⟩ := List.mem_map.mp hitem
  cases lexeme with
  | operator => rfl
  | operand text =>
      rw [Lexeme.item?]
      cases htree : Expr.ofLeaf? text with
      | none => rfl
      | some tree => exact Expr.holes_ofLeaf htree

/-- The items of a sketch have its open places. -/
theorem itemHoles_itemsFrom (run : Text) (sketch : Sketch) :
    ((itemsFrom grammar run sketch).map itemHoles).sum = sketch.holes := by
  induction sketch generalizing run with
  | nil => exact itemHoles_textItems run
  | cons atom sketch ih =>
      rw [holes_cons]
      cases atom with
      | char c =>
          rw [itemsFrom, Atom.holes, Nat.zero_add]
          split
          · rw [List.map_append, List.sum_append, itemHoles_textItems, ih, Nat.zero_add]
          · exact ih _
      | tree part =>
          rw [itemsFrom, List.map_append, List.sum_append, itemHoles_textItems, List.map_cons,
            List.sum_cons, ih, Nat.zero_add]
          cases part <;> rfl

/-- A tree has the open places of the sketch that it is read from. -/
theorem holes_of_read {sketch : Sketch} {tree : Expr} (h : sketch.read grammar = some tree) :
    tree.holes = sketch.holes := by
  obtain ⟨items, hitems, hread⟩ := Option.bind_eq_some_iff.mp h
  have hall := eq_map_of_mapM_id hitems
  rw [(Item.holes_of_readFrom items).1 [] [] tree hread, ← itemHoles_itemsFrom [] sketch, hall,
    List.map_map, List.map_nil, List.sum_nil, Nat.zero_add]
  rfl

theorem holes_of_isBlank {sketch : Sketch} (h : sketch.isBlank = true) : sketch.holes = 0 := by
  rw [isBlank, List.all_eq_true] at h
  refine List.sum_eq_zero fun n hn => ?_
  obtain ⟨atom, hatom, rfl⟩ := List.mem_map.mp hn
  cases atom with
  | char c => rfl
  | tree part => cases h _ hatom

/-- The operands of a group have its open places. -/
theorem holes_operands (inner : Sketch) : (inner.operands.map holes).sum = inner.holes := by
  unfold operands
  induction inner with
  | nil => rfl
  | cons atom inner ih =>
      rw [List.splitOnP_cons_eq_if_modifyHead, holes_cons, ← ih]
      split
      · next hseparator =>
          rw [Atom.eq_of_isChar hseparator, List.map_cons, List.sum_cons]
          rfl
      · cases hpieces : inner.splitOnP (Atom.isChar ',') with
        | nil => exact absurd hpieces (List.splitOnP_ne_nil _ _)
        | cons piece pieces =>
            rw [List.modifyHead_cons, List.map_cons, List.map_cons, List.sum_cons, List.sum_cons,
              holes_cons, Nat.add_assoc]

theorem holes_arguments (inner : Sketch) : (inner.arguments.map holes).sum = inner.holes := by
  unfold arguments
  split
  · next hblank => exact (holes_of_isBlank hblank).symm
  · exact holes_operands inner

/-- Pieces that are all read have the open places of their trees. -/
theorem holes_of_readAll {pieces : List Sketch} {trees : List Expr}
    (h : pieces.map (read grammar) = trees.map some) :
    (pieces.map holes).sum = (trees.map Expr.holes).sum := by
  induction pieces generalizing trees with
  | nil =>
      rw [List.map_nil, eq_comm, List.map_eq_nil_iff] at h
      rw [h]
      rfl
  | cons piece pieces ih =>
      obtain ⟨tree, rest, rfl, hpiece, hrest⟩ := List.map_eq_cons_iff.mp h.symm
      rw [List.map_cons, List.map_cons, List.sum_cons, List.sum_cons, ih hrest.symm,
        holes_of_read hpiece.symm]

/-- A row has the open places of its trees. -/
theorem holes_row (trees : List Expr) :
    (row (trees.map some)).holes = (trees.map Expr.holes).sum := by
  unfold row
  induction trees with
  | nil => rfl
  | cons tree trees ih =>
      cases trees with
      | nil => rfl
      | cons other trees =>
          rw [List.map_cons, List.map_cons, List.map_cons, List.map_cons,
            List.intersperse_cons_cons, holes_cons, holes_cons, ← List.map_cons, ← List.map_cons,
            ih, Atom.holes, Atom.holes, Nat.zero_add, List.map_cons, List.sum_cons]
          rfl

/-- A step keeps the open places, or leaves a part without a tree. -/
theorem Step.holes_eq {sketch next : Sketch} (h : Step registry sketch next) :
    .tree none ∈ next ∨ next.holes = sketch.holes := by
  cases h with
  | @call head stem inner name after hfirst hhead hname hpieces =>
      cases htree : Expr.ofCall registry name (inner.arguments.map (read Grammar.standard)) with
      | none => exact .inl (List.mem_append_right _ (.tail _ (.head _)))
      | some tree =>
          obtain ⟨trees, hread, hholes⟩ := Expr.holes_of_ofCall htree
          obtain ⟨blanks, rfl, hblanks⟩ := hhead.split
          have harguments := holes_of_readAll hread
          rw [holes_arguments] at harguments
          refine .inr ?_
          simp [Atom.holes, holes_of_isBlank hblanks, hholes, harguments]
  | @group head before inner name after hfirst hhead hname hpieces =>
      by_cases hnone : none ∈ inner.operands.map (read Grammar.standard)
      · refine .inl (List.mem_append_right _ (.tail _ (List.mem_append_left _ ?_)))
        exact tree_mem_row hnone
      · obtain ⟨trees, hread⟩ := exists_map_some hnone
        have hoperands := holes_of_readAll hread
        rw [holes_operands] at hoperands
        refine .inr ?_
        rw [hread]
        simp [Atom.holes, holes_row, hoperands]

/-- A part without a tree is never lost. -/
theorem Step.none_mem {sketch next : Sketch} (h : Step registry sketch next)
    (hmem : .tree none ∈ sketch) : .tree none ∈ next := by
  cases h with
  | @call head stem inner name after hfirst hhead hname hpieces =>
      rw [List.mem_append, List.mem_cons, List.mem_cons, List.mem_cons]
      rcases tree_mem_parts hmem with hhere | hhere | hhere
      · exact .inl (hhead.tree_mem hhere)
      · rw [Expr.ofCall_of_none registry name (none_mem_arguments hhere)]
        exact .inr (.inr (.inl rfl))
      · exact .inr (.inr (.inr (.inr hhere)))
  | @group head before inner name after hfirst hhead hname hpieces =>
      rw [List.mem_append, List.mem_cons, List.mem_append, List.mem_cons]
      rcases tree_mem_parts hmem with hhere | hhere | hhere
      · exact .inl hhere
      · exact .inr (.inr (.inl (tree_mem_row (none_mem_operands hhere))))
      · exact .inr (.inr (.inr (.inr hhere)))

/-- Steps keep the open places, or leave a part without a tree. -/
theorem Steps.holes_eq {sketch last : Sketch} (h : Steps registry sketch last) :
    .tree none ∈ last ∨ last.holes = sketch.holes := by
  induction h with
  | refl => exact .inr rfl
  | tail _ hstep ih =>
      rcases ih with hnone | hholes
      · exact .inl (hstep.none_mem hnone)
      · rw [← hholes]
        exact hstep.holes_eq

end Sketch

end Reckon
