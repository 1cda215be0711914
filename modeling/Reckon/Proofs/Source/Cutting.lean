import Reckon.Proofs.Source.Calling
import Reckon.Proofs.Source.Resolving

/-!
# Cutting is rewriting

A text on its way to symbols writes a sketch, and replacing its first innermost group is one step of
rewriting that sketch: each step can be made on the text (`Means.cutStep_of_step`), and the text is
cut only where a step can be made (`Means.step_of_cutStep`). So cutting until no group is left is
rewriting until no group is left.
-/

namespace Reckon

open Sketch (Written Tidy Head Innermost Step Steps)
open SymbolTable (known Covers Grows)

variable {registry : Registry} {source : Text} {constants : ConstantTable}
  {trees : List (Option Expr)}

theorem Sketch.Tidy.parts {head inner after : Sketch}
    (h : Tidy source (head ++ .char '(' :: (inner ++ .char ')' :: after))) :
    Tidy source head ∧ Tidy source inner ∧ Tidy source after :=
  ⟨h.of_part (List.prefix_append _ _).isInfix,
    h.of_part ⟨head ++ [.char '('], .char ')' :: after, by simp⟩,
    h.of_part ⟨head ++ .char '(' :: inner ++ [.char ')'], [], by simp⟩⟩

/-- A text on its way to symbols writes the sketch, and its symbols have these trees. A part without
a tree is not lost: the sketch has one as long as a symbol has none. -/
structure Working.Means (registry : Registry) (source : Text) (constants : ConstantTable)
    (working : Working) (sketch : Sketch) (trees : List (Option Expr)) : Prop where
  covers : working.symbols.Covers registry source constants trees
  written : Written (known constants working.symbols.symbols trees) working.text sketch
  tidy : Tidy source sketch
  missing : none ∈ trees → .tree none ∈ sketch

namespace Working.Means

variable {working : Working} {sketch next head inner after : Sketch}

variable (hconstants : constants.Regular source)
include hconstants

/-- The first innermost group of a text is that of its sketch, and it is the one that is cut. -/
theorem split (h : working.Means registry source constants
      (head ++ .char '(' :: (inner ++ .char ')' :: after)) trees) (hfirst : Innermost head inner) :
    ∃ before inside behind,
      Written (known constants working.symbols.symbols trees) before head ∧
      Written (known constants working.symbols.symbols trees) inside inner ∧
      Written (known constants working.symbols.symbols trees) behind after ∧
      Grammar.standard.cutStep constants working = (do
        match ← Grammar.standard.callee? working.symbols constants before with
        | some (stem, name) =>
          let (replacement, symbols) ← Grammar.standard.callSymbol working.symbols name inside
          return some ⟨stem ++ ' ' :: replacement ++ ' ' :: behind, symbols⟩
        | none =>
          let (replacement, symbols) ← Grammar.standard.groupSymbols working.symbols inside
          return some ⟨before ++ ' ' :: replacement ++ ' ' :: behind, symbols⟩) := by
  have hknown := h.covers.generated hconstants
  have hclose : Text.isWordChar ')' = false := by decide
  have hopen : Text.isWordChar '(' = false := by decide
  obtain ⟨before, rest, htext, hbefore, hrest⟩ := h.written.exists_append_cons
  obtain ⟨inside, behind, hrestText, hinside, hbehind⟩ := hrest.exists_append_cons
  refine ⟨before, inside, behind, hbefore, hinside, hbehind, ?_⟩
  have hfirstText : Text.splitFirst Grammar.standard.closing working.text =
      some (before ++ '(' :: inside, behind) := by
    refine Text.splitFirst_eq_some.mpr ⟨by rw [htext, hrestText]; simp, ?_⟩
    rw [List.mem_append, List.mem_cons]
    rintro (hmem | heq | hmem)
    · exact hfirst.before ((hbefore.mem_iff hknown hclose).mp hmem)
    · cases heq
    · exact hfirst.closed ((hinside.mem_iff hknown hclose).mp hmem)
  have hlastText : Text.splitLast Grammar.standard.opening (before ++ '(' :: inside) =
      some (before, inside) :=
    Text.splitLast_append fun hmem => hfirst.inside ((hinside.mem_iff hknown hopen).mp hmem)
  unfold Grammar.cutStep
  split
  · next hnone =>
      rw [hfirstText] at hnone
      cases hnone
  · next hsome =>
      cases hfirstText.symm.trans hsome
      split
      · next hnone =>
          rw [hlastText] at hnone
          cases hnone
      · next hsome =>
          cases hlastText.symm.trans hsome
          rfl

omit hconstants in
/-- A text in which a part is replaced writes the sketch in which it is. -/
theorem replace (h : working.Means registry source constants sketch trees) {stem middle : Sketch}
    {before replacement behind : Text} {other : SymbolTable} {others added : List (Option Expr)}
    (hgrows : Grows registry source constants working.symbols trees other others added)
    (hstem : Written (known constants other.symbols others) before stem)
    (hmiddle : Written (known constants other.symbols others) replacement middle)
    (hafter : Written (known constants other.symbols others) behind after)
    (htidyStem : Tidy source stem) (htidyMiddle : Tidy source middle)
    (htidyAfter : Tidy source after) (hadded : none ∈ added → .tree none ∈ middle)
    (hkept : .tree none ∈ sketch →
      .tree none ∈ stem ∨ .tree none ∈ middle ∨ .tree none ∈ after) :
    Working.Means registry source constants ⟨before ++ ' ' :: replacement ++ ' ' :: behind, other⟩
      (stem ++ .char ' ' :: (middle ++ .char ' ' :: after)) others := by
  refine ⟨hgrows.covers, ?_, ?_, fun hmissing => ?_⟩
  · have hwritten := hstem.append (.char ' ' (hmiddle.append (.char ' ' hafter)))
    simpa using hwritten
  · exact htidyStem.append_cons (htidyMiddle.append_cons htidyAfter (by decide)) (by decide)
  · have hplace : .tree none ∈ stem ∨ .tree none ∈ middle ∨ .tree none ∈ after :=
      (hgrows.fresh none hmissing).elim (fun hold => hkept (h.missing hold))
        (fun hnew => .inr (.inl (hadded hnew)))
    simpa using hplace

/-- A call is replaced by its tree in a text that writes it. -/
theorem cutStep_of_call {stem : Sketch} {name : Text}
    (h : working.Means registry source constants
      (head ++ .char '(' :: (inner ++ .char ')' :: after)) trees) (hfirst : Innermost head inner)
    (hhead : Head head stem name) (hname : Sketch.isCallable name = true)
    (hpieces : ∀ piece ∈ inner.arguments, piece.isBlank = false) :
    ∃ result others, Grammar.standard.cutStep constants working = .ok (some result) ∧
      result.Means registry source constants
        (stem ++ .char ' ' :: .tree (Expr.ofCall registry name
          (inner.arguments.map (Sketch.read Grammar.standard))) :: .char ' ' :: after) others := by
  obtain ⟨before, inside, behind, hbefore, hinside, hbehind, hrun⟩ := h.split hconstants hfirst
  obtain ⟨htidyHead, htidyInner, htidyAfter⟩ := h.tidy.parts
  obtain ⟨text, hstem, hcallee⟩ := h.covers.callee_of_head hconstants hbefore htidyHead hhead
  obtain ⟨replacement, other, others, hcall, hgrows, htree⟩ :=
    h.covers.callSymbol hconstants name hinside htidyInner hpieces
  have hmore := hgrows.known_of_known hconstants
  have htidyStem : Tidy source stem := by
    obtain ⟨blanks, hsplit, -⟩ := hhead.split
    exact htidyHead.of_part ⟨[], _, hsplit.symm⟩
  refine ⟨⟨text ++ ' ' :: replacement ++ ' ' :: behind, other⟩, others, ?_,
    h.replace hgrows (hstem.mono hmore) (.singleton htree) (hbehind.mono hmore) htidyStem
      (.singleton source _) htidyAfter (fun hmissing => ?_) fun hmem => ?_⟩
  · rw [hrun, hcallee, if_pos hname]
    show (Grammar.standard.callSymbol working.symbols name inside >>= _) = _
    rw [hcall]
    rfl
  · -- An argument without a tree leaves the call without one.
    rcases List.mem_append.mp hmissing with hargument | hcallTree
    · rw [Expr.ofCall_of_none registry name hargument]
      exact .head _
    · rw [List.mem_singleton.mp hcallTree]
      exact .head _
  · rcases Sketch.tree_mem_parts hmem with hmem | hmem | hmem
    · exact .inl (hhead.tree_mem hmem)
    · rw [Expr.ofCall_of_none registry name (Sketch.none_mem_arguments hmem)]
      exact .inr (.inl (.head _))
    · exact .inr (.inr hmem)

/-- A group that is not called is replaced by its operands in a text that writes it. -/
theorem cutStep_of_group {stem : Sketch} {name : Text}
    (h : working.Means registry source constants
      (head ++ .char '(' :: (inner ++ .char ')' :: after)) trees) (hfirst : Innermost head inner)
    (hhead : Head head stem name) (hname : Sketch.isCallable name = false)
    (hpieces : ∀ piece ∈ inner.operands, piece.isBlank = false) :
    ∃ result others, Grammar.standard.cutStep constants working = .ok (some result) ∧
      result.Means registry source constants
        (head ++ .char ' ' :: (Sketch.row (inner.operands.map (Sketch.read Grammar.standard)) ++
          .char ' ' :: after)) others := by
  obtain ⟨text, inside, behind, hbefore, hinside, hbehind, hrun⟩ := h.split hconstants hfirst
  obtain ⟨htidyHead, htidyInner, htidyAfter⟩ := h.tidy.parts
  obtain ⟨_, -, hcallee⟩ := h.covers.callee_of_head hconstants hbefore htidyHead hhead
  obtain ⟨replacement, other, others, hgroup, hgrows, hrow⟩ :=
    h.covers.groupSymbols hconstants hinside htidyInner hpieces
  have hmore := hgrows.known_of_known hconstants
  have hoperands : inner.operands.map (Sketch.read Grammar.standard) ≠ [] := by
    rw [ne_eq, List.map_eq_nil_iff]
    exact List.splitOnP_ne_nil _ _
  refine ⟨⟨text ++ ' ' :: replacement ++ ' ' :: behind, other⟩, others, ?_,
    h.replace hgrows (hbefore.mono hmore) hrow (hbehind.mono hmore) htidyHead
      (.row source hoperands) htidyAfter Sketch.tree_mem_row fun hmem => ?_⟩
  · rw [hrun, hcallee, hname]
    show (Grammar.standard.groupSymbols working.symbols inside >>= _) = _
    rw [hgroup]
    rfl
  · rcases Sketch.tree_mem_parts hmem with hmem | hmem | hmem
    · exact .inl hmem
    · exact .inr (.inl (Sketch.tree_mem_row (Sketch.none_mem_operands hmem)))
    · exact .inr (.inr hmem)

/-- Each step of rewriting a sketch can be made on a text that writes it. -/
theorem cutStep_of_step (h : working.Means registry source constants sketch trees)
    (hstep : Step registry sketch next) :
    ∃ result others, Grammar.standard.cutStep constants working = .ok (some result) ∧
      result.Means registry source constants next others := by
  cases hstep with
  | call after hfirst hhead hname hpieces =>
      exact h.cutStep_of_call hconstants hfirst hhead hname hpieces
  | group after hfirst hhead hname hpieces =>
      exact h.cutStep_of_group hconstants hfirst hhead hname hpieces

/-- A group is replaced in a text only where the sketch has one. -/
theorem innermost_of_cutStep (h : working.Means registry source constants sketch trees)
    {result : Working} (hrun : Grammar.standard.cutStep constants working = .ok (some result)) :
    ∃ head inner after, sketch = head ++ .char '(' :: (inner ++ .char ')' :: after) ∧
      Innermost head inner := by
  have hknown := h.covers.generated hconstants
  have hclose : Text.isWordChar ')' = false := by decide
  have hopen : Text.isWordChar '(' = false := by decide
  have hmem : .char ')' ∈ sketch := by
    rw [← h.written.mem_iff hknown hclose]
    refine Classical.byContradiction ?_
    intro hnot
    have hnone : Text.splitFirst Grammar.standard.closing working.text = none :=
      Text.splitFirst_eq_none.mpr hnot
    rw [Grammar.cutStep, hnone] at hrun
    cases hrun
  -- The first closing parenthesis ends the group, and the last opening one before it starts it.
  obtain ⟨front, after, rfl, hfront⟩ := List.eq_append_cons_of_mem hmem
  have hinside : .char '(' ∈ front := by
    refine Classical.byContradiction ?_
    intro hnot
    obtain ⟨before, behind, htext, hbefore, -⟩ := h.written.exists_append_cons
    have hfirst : Text.splitFirst Grammar.standard.closing working.text =
        some (before, behind) :=
      Text.splitFirst_eq_some.mpr
        ⟨htext, fun hmem => hfront ((hbefore.mem_iff hknown hclose).mp hmem)⟩
    have hlast : Text.splitLast Grammar.standard.opening before = none :=
      Text.splitLast_eq_none.mpr fun hmem => hnot ((hbefore.mem_iff hknown hopen).mp hmem)
    rw [Grammar.cutStep, hfirst] at hrun
    simp only [hlast] at hrun
    cases hrun
  obtain ⟨inner, head, hreverse, hinner⟩ :=
    List.eq_append_cons_of_mem (List.mem_reverse.mpr hinside)
  have hsplit : front = head.reverse ++ .char '(' :: inner.reverse := by
    rw [← List.reverse_reverse front, hreverse]
    simp
  rw [hsplit, List.mem_append, List.mem_cons, not_or, not_or] at hfront
  refine ⟨head.reverse, inner.reverse, after, by rw [hsplit]; simp, hfront.1, hfront.2.2, ?_⟩
  exact fun hmem => hinner (List.mem_reverse.mp hmem)

/-- A group is replaced in a text only where a step can be made. -/
theorem step_of_cutStep (h : working.Means registry source constants sketch trees)
    {result : Working} (hrun : Grammar.standard.cutStep constants working = .ok (some result)) :
    ∃ next, Step registry sketch next := by
  obtain ⟨head, inner, after, rfl, hfirst⟩ := h.innermost_of_cutStep hconstants hrun
  obtain ⟨before, inside, behind, hbefore, hinside, hbehind, hcut⟩ := h.split hconstants hfirst
  rw [hcut] at hrun
  obtain ⟨callee, hcallee, hrun⟩ := bind_eq_ok.mp hrun
  have hknown := h.covers.generated hconstants
  obtain ⟨htidyHead, -, -⟩ := h.tidy.parts
  rcases Sketch.exists_head htidyHead with ⟨stem, name, hhead⟩ | ⟨stem, tree, blanks, rfl, hblanks⟩
  · obtain ⟨text, -, hname⟩ := h.covers.callee_of_head hconstants hbefore htidyHead hhead
    cases hcallee.symm.trans hname
    cases hcallable : Sketch.isCallable name with
    | true =>
        rw [hcallable] at hrun
        obtain ⟨_, hcall, -⟩ := bind_eq_ok.mp hrun
        have hpieces := (h.covers.pieces_blank hconstants (hinside.splitArguments hknown)).mp
          (Grammar.isBlank_of_callSymbol hcall)
        exact ⟨_, .call after hfirst hhead hcallable hpieces⟩
    | false =>
        rw [hcallable] at hrun
        obtain ⟨_, hgroup, -⟩ := bind_eq_ok.mp hrun
        have hsplit := hinside.splitOn hknown (c := ',') (by decide)
        have hpieces := (h.covers.pieces_blank hconstants hsplit).mp
          (Grammar.isBlank_of_groupSymbols hgroup)
        exact ⟨_, .group after hfirst hhead hcallable hpieces⟩
  · cases hcallee.symm.trans (h.covers.callee_of_tree hconstants hbefore htidyHead hblanks)

/-- A text is left as it is exactly if no closing parenthesis is left in its sketch. -/
theorem cutStep_eq_none (h : working.Means registry source constants sketch trees) :
    Grammar.standard.cutStep constants working = .ok none ↔ .char ')' ∉ sketch := by
  rw [Grammar.cutStep_eq_none, ← h.written.mem_iff (h.covers.generated hconstants) (by decide),
    ← Text.contains_iff_isInfix]
  exact not_congr Text.contains_singleton

/-- Cutting a text until no group is left rewrites its sketch until no group is left, given a step
for each closing parenthesis. -/
theorem cutGroups_of_steps {last : Sketch} (hsteps : Steps registry sketch last)
    (hlast : .char ')' ∉ last) {working : Working} {trees : List (Option Expr)}
    (h : working.Means registry source constants sketch trees) {fuel : Nat}
    (hfuel : sketch.closings < fuel) :
    ∃ result others, Grammar.standard.cutGroups constants fuel working = .ok result ∧
      result.Means registry source constants last others := by
  -- Each step closes one parenthesis, so the fuel lasts as long as there is a step to make.
  induction hsteps using Relation.ReflTransGen.head_induction_on
    generalizing working trees fuel with
  | refl =>
      refine ⟨working, trees, ?_, h⟩
      cases fuel with
      | zero => rfl
      | succ fuel =>
          rw [Grammar.cutGroups, (h.cutStep_eq_none hconstants).mpr hlast]
          rfl
  | head hstep hrest ih =>
      obtain ⟨middle, others, hrun, hmiddle⟩ := h.cutStep_of_step hconstants hstep
      rw [hstep.closings_eq] at hfuel
      cases fuel with
      | zero => omega
      | succ fuel =>
          have hless := Nat.lt_of_succ_lt_succ hfuel
          obtain ⟨result, found, hresult, hmeans⟩ := ih hmiddle hless
          refine ⟨result, found, ?_, hmeans⟩
          rw [Grammar.cutGroups, hrun]
          exact hresult

/-- A text is cut until no group is left only where its sketch can be rewritten so. -/
theorem steps_of_cutGroups {working result : Working} {sketch : Sketch}
    {trees : List (Option Expr)} (h : working.Means registry source constants sketch trees)
    {fuel : Nat} (hfuel : sketch.closings < fuel)
    (hrun : Grammar.standard.cutGroups constants fuel working = .ok result) :
    ∃ last others, Steps registry sketch last ∧ .char ')' ∉ last ∧
      result.Means registry source constants last others := by
  induction fuel generalizing working sketch trees with
  | zero => omega
  | succ fuel ih =>
      rw [Grammar.cutGroups] at hrun
      obtain ⟨progress, hprogress, hrun⟩ := bind_eq_ok.mp hrun
      cases progress with
      | none =>
          cases hrun
          exact ⟨sketch, trees, .refl, (h.cutStep_eq_none hconstants).mp hprogress, h⟩
      | some middle =>
          -- The text was cut, so some step can be made; making it cuts the text in the same way.
          obtain ⟨next, hstep⟩ := h.step_of_cutStep hconstants hprogress
          obtain ⟨other, others, hother, hmeans⟩ := h.cutStep_of_step hconstants hstep
          cases hprogress.symm.trans hother
          rw [hstep.closings_eq] at hfuel
          obtain ⟨last, found, hsteps, hlast, hresult⟩ := ih hmeans (by omega) hrun
          exact ⟨last, found, .head hstep hsteps, hlast, hresult⟩

end Working.Means

end Reckon
