import Reckon.Proofs.Expr.Linearity
import Reckon.Proofs.Expr.Parsing
import Reckon.Proofs.Source.Spelling

/-!
# String literals are exact and inert

`StringLiteral.ofText_inert` is the statement to read first. The literal of a text becomes the
constant of that text, whatever stands around it. And the text says nothing else: between the same
parts of a source, the literals of all texts lead to one tree, up to the constant, which stands
there once, or all of them lead to none. Names that are generated do depend on the text, since they
avoid the source, but no tree shows them (`Expr.parse_iff`).
-/

namespace Reckon

open Sketch (Extracts Steps Flat)
open StringLiteral (extract)

variable {registry : Registry} {u v : Text} {front behind : Sketch} {constant : Constant}

/-- The constant of a text that a source spells as a literal. -/
def StringLiteral.constantOf (text : Text) : Constant :=
  ⟨.string (String.ofList text), some (StringLiteral.ofText text)⟩

namespace Sketch

/-- The sketch of a source with a literal between two parts, with an open place for the literal. -/
def around (front behind : Sketch) : Sketch :=
  front ++ .char ' ' :: .tree (some (.parameter Expr.hole)) :: .char ' ' :: behind

theorem Extracts.fill_eq {text : Text} {sketch : Sketch} (h : Extracts text sketch) :
    sketch.fill constant = sketch := by
  induction h with
  | plain text _ => exact fill_ofText text
  | literal hbefore hsplit hstring hafter ih =>
      rw [fill_tree, fill_ofText, ih, Option.map_some, StringLiteral.constant, Expr.fill_constant]

theorem Extracts.holes_eq_zero {text : Text} {sketch : Sketch} (h : Extracts text sketch) :
    sketch.holes = 0 := by
  induction h with
  | plain text _ => exact holes_ofText text
  | literal hbefore hsplit hstring hafter ih =>
      simp [Atom.holes, StringLiteral.constant, ih]

/-- The sketch of a source with a literal in it is that with an open place, filled. -/
theorem Extracts.fill_around (hfront : Extracts u front) (hbehind : Extracts v behind)
    (text : Text) :
    Extracts (u ++ StringLiteral.ofText text ++ v)
      ((around front behind).fill (StringLiteral.constantOf text)) := by
  have hliteral : Extracts (StringLiteral.ofText text ++ v)
      (.char ' ' :: .tree (some (.constant (StringLiteral.constantOf text))) ::
        .char ' ' :: behind) := by
    rw [StringLiteral.ofText_append]
    exact .literal List.not_mem_nil (StringLiteral.split_spell text v)
      (StringLiteral.decode_spell text) hbehind
  rw [Sketch.around, fill_tree, hfront.fill_eq, hbehind.fill_eq, Option.map_some, Expr.fill_hole,
    List.append_assoc]
  exact hfront.append hliteral

/-- Only the sketch with an open place, filled, is that of a source with a literal in it. -/
theorem Extracts.eq_around (hfront : Extracts u front) {text : Text} {sketch : Sketch}
    (h : Extracts (u ++ StringLiteral.ofText text ++ v) sketch) :
    ∃ behind, Extracts v behind ∧
      sketch = (Sketch.around front behind).fill (StringLiteral.constantOf text) := by
  rw [List.append_assoc] at h
  obtain ⟨rest, hrest, rfl⟩ := hfront.exists_append h
  rw [StringLiteral.ofText_append] at hrest
  obtain ⟨behind, hbehind, rfl⟩ := Extracts.exists_literal List.not_mem_nil
    (StringLiteral.split_spell text v) (StringLiteral.decode_spell text) hrest
  refine ⟨behind, hbehind, ?_⟩
  rw [Sketch.around, fill_tree, hfront.fill_eq, hbehind.fill_eq, Option.map_some, Expr.fill_hole]
  rfl

/-- The tree with an open place that rewriting gives to a source with a literal between two
parts. -/
def Pattern (registry : Registry) (front : Sketch) (v : Text) (tree : Expr) : Prop :=
  ∃ behind last, Extracts v behind ∧ Steps registry (around front behind) last ∧ Flat last ∧
    last.read Grammar.standard = some tree

/-- The tree of a source with a literal has one open place: the literal is neither lost nor
copied. -/
theorem Pattern.holes_eq_one (hfront : Extracts u front) {template : Expr}
    (h : Pattern registry front v template) : template.holes = 1 := by
  obtain ⟨behind, last, hbehind, hsteps, -, hread⟩ := h
  have hsource : (around front behind).holes = 1 := by
    simp [around, Atom.holes, hfront.holes_eq_zero, hbehind.holes_eq_zero]
  rw [holes_of_read hread]
  refine (hsteps.holes_eq.resolve_left fun hnone => ?_).trans hsource
  rw [read_of_none hnone] at hread
  cases hread

/-- The trees of sources with a literal are those with an open place, filled. -/
theorem derives_iff (hfront : Extracts u front) {text : Text} {tree : Expr} :
    Derives registry (u ++ StringLiteral.ofText text ++ v) tree ↔
      ∃ template, Pattern registry front v template ∧
        tree = template.fill (StringLiteral.constantOf text) := by
  constructor
  · rintro ⟨sketch, last, hextracts, hsteps, hflat, hread⟩
    obtain ⟨behind, hbehind, rfl⟩ := hfront.eq_around hextracts
    obtain ⟨last, rfl, hopen⟩ := hsteps.exists_of_fill
    rw [read_fill] at hread
    obtain ⟨template, htemplate, rfl⟩ := Option.map_eq_some_iff.mp hread
    exact ⟨template, ⟨behind, last, hbehind, hopen, flat_fill.mp hflat, htemplate⟩, rfl⟩
  · rintro ⟨template, ⟨behind, last, hbehind, hsteps, hflat, hread⟩, rfl⟩
    refine ⟨_, _, hfront.fill_around hbehind text, hsteps.fill _, flat_fill.mpr hflat, ?_⟩
    rw [read_fill, hread, Option.map_some]

end Sketch

namespace StringLiteral

theorem valueOf_ofText {table : ConstantTable} (hquote : table.quote = ['"']) (text : Text) :
    table.valueOf? (Text.trim (ofText text)) = .ok (some (.string (String.ofList text))) := by
  rw [ofText, trim_quoted, valueOf_quoted hquote, decode_spell]
  rfl

/-- What is entered before other literals are taken out is kept. -/
theorem get_of_extract {source text result : Text} {constants learned : ConstantTable}
    (hconstants : constants.Regular source) (h : extract constants text = .ok (result, learned))
    {name : Text} {entry : ConstantEntry} (hentry : constants.get? name = some entry) :
    learned.get? name = some entry := by
  obtain ⟨sketch, hsketch⟩ := Extracts.extract_sound hconstants h
  obtain ⟨_, _, hrun, -, hmore, -⟩ := hsketch.extract_complete hconstants
  cases h.symm.trans hrun
  exact ConstantTable.get_of_isPrefix hmore hentry

/-- A literal behind a source whose literals end is entered as one constant, and literals are taken
out behind it then. -/
theorem extract_around (hfront : Extracts u front) (text v : Text) :
    ∃ before table name learned,
      extract (.empty ['"'] (u ++ ofText text ++ v)) u = .ok (before, table) ∧
      table.enter (ofText text) = .ok (some name, learned) ∧
      extract (.empty ['"'] (u ++ ofText text ++ v)) (u ++ ofText text ++ v) =
        (extract learned v).map (fun behind =>
          (before ++ ' ' :: name ++ ' ' :: behind.1, behind.2)) ∧
      ∀ after constants, extract learned v = .ok (after, constants) →
        constants.get? name = some ⟨name, ofText text, .string (String.ofList text)⟩ := by
  have hempty : (ConstantTable.empty ['"'] (u ++ ofText text ++ v)).Regular
      (u ++ ofText text ++ v) := .empty _
  obtain ⟨before, table, hbefore, htable, -, -⟩ := hfront.extract_complete hempty
  obtain ⟨name, learned, henter, hlearned, -, hget⟩ :=
    htable.enter_literal (valueOf_ofText htable.quote text)
  rw [ofText, trim_quoted, ← ofText] at hget
  refine ⟨before, table, name, learned, hbefore, henter, ?_, fun after constants hafter =>
    get_of_extract hlearned hafter hget⟩
  have hliteral : extract table (ofText text ++ v) = (extract learned v).map fun behind =>
      (' ' :: name ++ ' ' :: behind.1, behind.2) := by
    rw [ofText_append, extract_literal htable.quote List.not_mem_nil (split_spell text v), ← ofText,
      henter]
    rfl
  generalize ConstantTable.empty ['"'] (u ++ ofText text ++ v) = constants at hempty hbefore ⊢
  rw [List.append_assoc, hfront.extract_append hempty.quote, hbefore]
  show (extract table (ofText text ++ v)).map _ = _
  rw [hliteral]
  cases extract learned v with
  | error fault => rfl
  | ok behind => simp [Except.map]

/-- The literal of a text is exact: behind a source whose own literals end, it is taken out as one
literal, whose constant is the text. And it is inert: either no text has a tree in its place, or all
texts have the tree of one template, with their constant in its only open place. -/
theorem ofText_inert {taken : Text × ConstantTable}
    (hu : extract (.empty Grammar.standard.quote u) u = .ok taken) (v : Text)
    (registry : Registry) :
    (∀ text, ∃ before table name learned,
      extract (.empty Grammar.standard.quote (u ++ ofText text ++ v)) u = .ok (before, table) ∧
      table.enter (ofText text) = .ok (some name, learned) ∧
      extract (.empty Grammar.standard.quote (u ++ ofText text ++ v)) (u ++ ofText text ++ v) =
        (extract learned v).map (fun behind =>
          (before ++ ' ' :: name ++ ' ' :: behind.1, behind.2)) ∧
      ∀ after constants, extract learned v = .ok (after, constants) →
        constants.get? name = some ⟨name, ofText text, .string (String.ofList text)⟩) ∧
    ((∀ text, ∃ fault,
        Expr.parse Grammar.standard registry (u ++ ofText text ++ v) = .error fault) ∨
      ∃ template : Expr, template.holes = 1 ∧ ∀ text,
        Expr.parse Grammar.standard registry (u ++ ofText text ++ v) =
          .ok (template.fill ⟨.string (String.ofList text), some (ofText text)⟩)) := by
  obtain ⟨front, hfront⟩ := Extracts.extract_sound (.empty u) hu
  refine ⟨fun text => extract_around hfront text v, ?_⟩
  by_cases htemplate : ∃ template, Sketch.Pattern registry front v template
  · obtain ⟨template, hpattern⟩ := htemplate
    refine .inr ⟨template, hpattern.holes_eq_one hfront, fun text => ?_⟩
    exact Expr.parse_iff.mpr ((Sketch.derives_iff hfront).mpr ⟨template, hpattern, rfl⟩)
  · refine .inl fun text => ?_
    cases hparse : Expr.parse Grammar.standard registry (u ++ ofText text ++ v) with
    | error fault => exact ⟨fault, rfl⟩
    | ok tree =>
        obtain ⟨template, hpattern, -⟩ :=
          (Sketch.derives_iff hfront).mp (Expr.parse_iff.mp hparse)
        exact absurd ⟨template, hpattern⟩ htemplate

/-- Between a literal with a parenthesis and the rest of a call, any text is one operand, and the
call has one tree for all of them. -/
theorem ofText_inert_repeat :
    (∃ taken, extract (.empty Grammar.standard.quote "repeat(\"(\" + ".toList)
        "repeat(\"(\" + ".toList = .ok taken) ∧
      ∃ template : Expr, template.holes = 1 ∧ ∀ text,
        Expr.parse Grammar.standard Registry.standard
            ("repeat(\"(\" + ".toList ++ ofText text ++ ", 2)".toList) =
          .ok (template.fill ⟨.string (String.ofList text), some (ofText text)⟩) := by
  have hfront : (extract (.empty Grammar.standard.quote "repeat(\"(\" + ".toList)
      "repeat(\"(\" + ".toList).isOk = true := by decide +kernel
  have hwhole : (Expr.parse Grammar.standard Registry.standard
      ("repeat(\"(\" + ".toList ++ ofText "), \"".toList ++ ", 2)".toList)).isOk = true := by
    decide +kernel
  cases hu : extract (.empty Grammar.standard.quote "repeat(\"(\" + ".toList)
      "repeat(\"(\" + ".toList with
  | error fault =>
      rw [hu] at hfront
      cases hfront
  | ok taken =>
      refine ⟨⟨taken, rfl⟩, ?_⟩
      obtain ⟨-, hnone | htemplate⟩ := ofText_inert hu ", 2)".toList Registry.standard
      · obtain ⟨fault, hfault⟩ := hnone "), \"".toList
        rw [hfault] at hwhole
        cases hwhole
      · exact htemplate

end StringLiteral

end Reckon
