import Reckon.Proofs.Expr.Trees
import Reckon.Proofs.Source.Extraction

/-!
# Parsing is rewriting

A source has a tree exactly if taking out its string literals and rewriting its groups and calls
ends in a flat sketch that reads as that tree (`parse_iff`). Nothing of the generated names, of the
tables and of their sharing shows in that: the sketches have only characters and trees.
-/

namespace Reckon

open Sketch (Written Tidy Extracts Steps Flat)
open SymbolTable (known Covers Grows)

variable {registry : Registry} {source : Text} {constants : ConstantTable} {working : Working}
  {sketch : Sketch} {trees : List (Option Expr)}

/-- The source has the tree by rewriting. -/
def Sketch.Derives (registry : Registry) (source : Text) (tree : Expr) : Prop :=
  ∃ sketch last, Extracts source sketch ∧ Steps registry sketch last ∧ Flat last ∧
    last.read Grammar.standard = some tree

/-- There are no more closing parentheses in a sketch than characters in its text. -/
theorem Sketch.Written.closings_le {known : Text → Option (Option Expr)} {text : Text}
    (h : Written known text sketch) : sketch.closings ≤ Text.utf8Size text := by
  refine Nat.le_trans ?_ (Text.length_le_utf8Size text)
  induction h with
  | nil => exact Nat.le_refl 0
  | char c rest ih =>
      rw [closings, List.countP_cons, List.length_cons]
      rw [closings] at ih
      split <;> omega
  | name hname rest ih =>
      rw [closings, List.countP_cons_of_neg (by simp [Atom.isChar]), List.length_append]
      exact Nat.le_trans ih (Nat.le_add_left _ _)

theorem SymbolTable.covers_empty (registry : Registry) (source : Text)
    (constants : ConstantTable) : (SymbolTable.empty source).Covers registry source constants [] :=
  ⟨.empty source, .nil⟩

namespace Working.Means

variable (hconstants : constants.Regular source)
include hconstants

/-- Punctuation is found in a text if it is in its sketch. -/
theorem contains_iff (h : working.Means registry source constants sketch trees) {c : Char}
    (hc : Text.isWordChar c = false) :
    Text.contains [c] working.text = true ↔ .char c ∈ sketch :=
  Text.contains_singleton.trans (h.written.mem_iff (h.covers.generated hconstants) hc)

/-- What is left of a text becomes the root, if its sketch is flat. -/
theorem finish_of_flat (h : working.Means registry source constants sketch trees)
    (hflat : Flat sketch) (hblank : sketch.isBlank = false) :
    ∃ id table others, Grammar.standard.finish working = .ok table ∧ table.root = some id ∧
      table.Covers registry source constants others ∧
      others[id]? = some (sketch.read Grammar.standard) ∧
      ∀ tree ∈ others, tree ∈ trees ∨ tree = sketch.read Grammar.standard := by
  have hopening : Text.contains Grammar.standard.opening working.text = false := by
    rw [← Bool.not_eq_true]
    exact fun hmem => hflat.opening ((h.contains_iff hconstants (by decide)).mp hmem)
  have hseparator : Text.contains Grammar.standard.separator working.text = false := by
    rw [← Bool.not_eq_true]
    exact fun hmem => hflat.separator ((h.contains_iff hconstants (by decide)).mp hmem)
  obtain ⟨others, hgrows, hid⟩ :=
    h.covers.enterExpression hconstants h.written h.tidy hflat.separator
  rw [← h.written.isBlank_eq (h.covers.generated hconstants)] at hblank
  refine ⟨(working.symbols.enterExpression working.text).1,
    (working.symbols.enterExpression working.text).2.withRoot
      (working.symbols.enterExpression working.text).1, others, ?_, rfl,
    ⟨⟨hgrows.covers.regular.stem, hgrows.covers.regular.source, hgrows.covers.regular.issued⟩,
      hgrows.covers.denotes⟩, hid, fun tree htree => ?_⟩
  · rw [Grammar.finish, hopening, hseparator, hblank]
    rfl
  · simpa using hgrows.fresh tree htree

/-- What is left of a text becomes the root only if no parenthesis and no separator is left. -/
theorem flat_of_finish (h : working.Means registry source constants sketch trees)
    (hclosing : .char ')' ∉ sketch) {table : SymbolTable}
    (hrun : Grammar.standard.finish working = .ok table) :
    Flat sketch ∧ sketch.isBlank = false := by
  rw [Grammar.finish] at hrun
  split at hrun
  · cases hrun
  · next hopening =>
      split at hrun
      · cases hrun
      · next hseparator =>
          split at hrun
          · cases hrun
          · next hblank =>
              rw [h.written.isBlank_eq (h.covers.generated hconstants)] at hblank
              refine ⟨⟨fun hmem => hopening ?_, hclosing, fun hmem => hseparator ?_⟩,
                by simpa using hblank⟩
              · exact (h.contains_iff hconstants (by decide)).mpr hmem
              · exact (h.contains_iff hconstants (by decide)).mpr hmem

end Working.Means

/-- Taking out literals is the start of cutting. -/
theorem Sketch.Extracts.means (h : Extracts source sketch) {text : Text}
    (hwritten : Written (known constants [] []) text sketch) (registry : Registry) :
    Working.Means registry source constants ⟨text, .empty source⟩ sketch [] :=
  ⟨SymbolTable.covers_empty registry source constants, hwritten, h.tidy (List.infix_refl _), nofun⟩

/-- A source has the tree that rewriting gives it. -/
theorem Sketch.Derives.parse_eq {tree : Expr} (h : Sketch.Derives registry source tree) :
    Expr.parse Grammar.standard registry source = .ok tree := by
  obtain ⟨sketch, last, hextracts, hsteps, hflat, hread⟩ := h
  obtain ⟨text, constants, hextract, hconstants, -, hwritten⟩ :=
    hextracts.extract_complete (.empty source)
  have hmeans := hextracts.means hwritten registry
  obtain ⟨working, trees, hcut, hlast⟩ := hmeans.cutGroups_of_steps hconstants hsteps
    hflat.closing (Nat.lt_succ_of_le hwritten.closings_le)
  obtain ⟨id, table, others, hfinish, hroot, hcovers, hid, hothers⟩ :=
    hlast.finish_of_flat hconstants hflat (Sketch.isBlank_of_read hread)
  -- A symbol without a tree would leave its mark in the last sketch.
  have hall : none ∉ others := by
    intro hother
    rcases hothers none hother with hmissing | hmissing
    · rw [Sketch.read_of_none (hlast.missing hmissing)] at hread
      cases hread
    · rw [← hmissing] at hread
      cases hread
  rw [hread] at hid
  obtain ⟨learned, hrun⟩ := Expr.ofTable_complete hcovers hconstants hroot hall hid
  have hsource : Grammar.standard.cut source = .ok (table, constants) := by
    have hextract' : StringLiteral.extract (.empty Grammar.standard.quote source) source =
        .ok (text, constants) := hextract
    rw [Grammar.cut, hextract']
    show (Grammar.standard.cutGroups constants _ _ >>= _) = _
    rw [hcut]
    show (Grammar.standard.finish working >>= _) = _
    rw [hfinish]
    rfl
  rw [Expr.parse, hsource]
  show (Expr.ofTable Grammar.standard registry table constants >>= _) = _
  rw [hrun]
  rfl

/-- A source has only the tree that rewriting gives it. -/
theorem Sketch.derives_of_parse {tree : Expr}
    (h : Expr.parse Grammar.standard registry source = .ok tree) :
    Sketch.Derives registry source tree := by
  obtain ⟨⟨table, constants⟩, hcut, h⟩ := bind_eq_ok.mp h
  obtain ⟨⟨_, learned⟩, hrun, h⟩ := bind_eq_ok.mp h
  cases h
  have hsource : Grammar.standard.cut source = .ok (table, constants) := by
    cases hresult : Grammar.standard.cut source with
    | error fault =>
        rw [hresult] at hcut
        cases hcut
    | ok result =>
        rw [hresult] at hcut
        cases hcut
        rfl
  obtain ⟨⟨text, known⟩, hextract, hsource⟩ := bind_eq_ok.mp hsource
  obtain ⟨working, hgroups, hsource⟩ := bind_eq_ok.mp hsource
  obtain ⟨symbols, hfinish, hsource⟩ := bind_eq_ok.mp hsource
  cases hsource
  obtain ⟨sketch, hextracts⟩ := Extracts.extract_sound (.empty source) hextract
  obtain ⟨_, _, hresult, hconstants, -, hwritten⟩ :=
    hextracts.extract_complete (.empty source)
  cases hextract.symm.trans hresult
  have hmeans := hextracts.means hwritten registry
  obtain ⟨last, trees, hsteps, hclosing, hlast⟩ := hmeans.steps_of_cutGroups hconstants
    (Nat.lt_succ_of_le hwritten.closings_le) hgroups
  obtain ⟨hflat, hblank⟩ := hlast.flat_of_finish hconstants hclosing hfinish
  obtain ⟨id, _, others, hsame, hroot, hcovers, hid, -⟩ :=
    hlast.finish_of_flat hconstants hflat hblank
  cases hfinish.symm.trans hsame
  exact ⟨sketch, last, hextracts, hsteps, hflat,
    Expr.ofTable_sound hcovers hconstants hroot hrun hid⟩

/-- A source has a tree exactly if rewriting gives it that tree. -/
theorem Expr.parse_iff {tree : Expr} :
    Expr.parse Grammar.standard registry source = .ok tree ↔ Sketch.Derives registry source tree :=
  ⟨Sketch.derives_of_parse, Sketch.Derives.parse_eq⟩

end Reckon
