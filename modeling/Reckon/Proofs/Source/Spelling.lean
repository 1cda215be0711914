import Reckon.Proofs.Source.Extraction
import Reckon.Proofs.Text.Quoting

/-!
# A literal in the middle of a source

The literal of a text spells the text between quotes (`StringLiteral.ofText`). Behind a source whose
literals end, it is taken out as one literal, whatever the text says and whatever stands behind it:
taking out literals goes on behind a part as it would go on anywhere (`Extracts.extract_append`),
and what is taken out of the whole is what is taken out of the parts (`Extracts.exists_append`).
-/

namespace Reckon

open Sketch (Extracts ofText)

namespace StringLiteral

/-- The spelling of a character in a literal: a backslash stands before a backslash or a quote. -/
def escape (c : Char) : Text :=
  if c = '"' ∨ c = '\\' then ['\\', c] else [c]

/-- The spelling of a text in a literal. -/
def spell (text : Text) : Text :=
  text.flatMap escape

/-- The literal of a text. -/
def ofText (text : Text) : Text :=
  quoted (spell text)

/-- Every character can be spelled. -/
theorem spells_escape (c : Char) : Text.Spells c (escape c) := by
  unfold escape
  split
  · next h =>
      rcases h with rfl | rfl
      · exact .escape (by decide)
      · exact .escape (by decide)
  · next h => exact .self (fun hquote => h (.inl hquote)) (fun hslash => h (.inr hslash))

theorem split_spell (text after : Text) :
    split? ['"'] false (spell text ++ '"' :: after) = some (spell text, after) :=
  split_spelled (fun c _ => spells_escape c) after

theorem decode_spell (text : Text) : decode ['"'] (spell text) = .ok text :=
  decode_spelled fun c _ => spells_escape c

theorem ofText_append (text after : Text) :
    ofText text ++ after = [] ++ '"' :: (spell text ++ '"' :: after) := by
  simp [ofText, quoted]

end StringLiteral

/-- Entering a literal keeps the quote. -/
theorem ConstantTable.quote_of_enter {table learned : ConstantTable} {text : Text}
    {name : Option Text} (h : table.enter text = .ok (name, learned)) :
    learned.quote = table.quote := by
  unfold enter at h
  simp only at h
  split at h
  · cases h
    rfl
  · split at h <;> cases h <;> rfl

namespace Sketch.Extracts

open StringLiteral (extract extract_plain extract_open extract_literal)

variable {text other : Text} {sketch whole : Sketch} {constants : ConstantTable}

/-- Behind a text without quotes, literals are taken out as they are without that text. -/
theorem extract_behind (hquote : constants.quote = ['"']) {before : Text} (hbefore : '"' ∉ before)
    (other : Text) :
    extract constants (before ++ other) = (extract constants other).map fun behind =>
      (before ++ behind.1, behind.2) := by
  cases hfirst : Text.splitFirst ['"'] other with
  | none =>
      have hother := Text.splitFirst_eq_none.mp hfirst
      rw [extract_plain hquote hother, extract_plain hquote (by
        rw [List.mem_append]
        exact not_or.mpr ⟨hbefore, hother⟩)]
      rfl
  | some parts =>
      obtain ⟨front, rest⟩ := parts
      obtain ⟨rfl, hfront⟩ := Text.splitFirst_eq_some.mp hfirst
      have hboth : '"' ∉ before ++ front := by
        rw [List.mem_append]
        exact not_or.mpr ⟨hbefore, hfront⟩
      rw [← List.append_assoc]
      cases hsplit : StringLiteral.split? ['"'] false rest with
      | none =>
          rw [extract_open hquote hboth hsplit, extract_open hquote hfront hsplit]
          rfl
      | some sides =>
          obtain ⟨body, after⟩ := sides
          rw [extract_literal hquote hboth hsplit, extract_literal hquote hfront hsplit]
          cases constants.enter (StringLiteral.quoted body) with
          | error fault => rfl
          | ok entered =>
              obtain ⟨_ | name, learned⟩ := entered
              · rfl
              · cases hafter : extract learned after with
                | error fault => simp only [hafter, Except.map]
                | ok behind => simp [hafter, Except.map]

/-- Behind a text whose literals end, literals are taken out as they are without that text. -/
theorem extract_append (h : Extracts text sketch) (hquote : constants.quote = ['"'])
    (other : Text) :
    extract constants (text ++ other) = extract constants text >>= fun front =>
      (extract front.2 other).map fun behind => (front.1 ++ behind.1, behind.2) := by
  induction h generalizing constants with
  | plain text htext =>
      rw [extract_plain hquote htext]
      exact extract_behind hquote htext other
  | @literal before rest body after string sketch hbefore hsplit hstring hafter ih =>
      rw [List.append_assoc, List.cons_append, extract_literal hquote hbefore hsplit,
        extract_literal hquote hbefore (StringLiteral.split_append hsplit other)]
      cases henter : constants.enter (StringLiteral.quoted body) with
      | error fault => rfl
      | ok entered =>
          obtain ⟨_ | name, learned⟩ := entered
          · rfl
          · have hlearned : learned.quote = ['"'] :=
              (ConstantTable.quote_of_enter henter).trans hquote
            simp only [ih hlearned]
            cases extract learned after with
            | error fault => rfl
            | ok front =>
                show Except.map _ (Except.map _ (extract front.2 other)) =
                  Except.map _ (extract front.2 other)
                cases hbehind : extract front.2 other with
                | error fault => simp only [Except.map]
                | ok behind => simp [Except.map]

/-- The sketch of a text that starts with a literal, up to characters, has the literal there. -/
theorem exists_literal {before rest body after string : Text} (hbefore : '"' ∉ before)
    (hsplit : StringLiteral.split? ['"'] false rest = some (body, after))
    (hstring : StringLiteral.decode ['"'] body = .ok string)
    (h : Extracts (before ++ '"' :: rest) whole) :
    ∃ behind, Extracts after behind ∧
      whole = ofText before ++
        .char ' ' :: .tree (some (StringLiteral.constant body string)) :: .char ' ' :: behind := by
  generalize hsource : before ++ '"' :: rest = source at h
  cases h with
  | plain _ hnone =>
      subst hsource
      exact absurd (by simp) hnone
  | literal hfirst hsame hother hbehind =>
      have heq := (Text.splitFirst_eq_some.mpr ⟨hsource.symm, hbefore⟩).symm.trans
        (Text.splitFirst_eq_some.mpr ⟨rfl, hfirst⟩)
      cases heq
      cases hsplit.symm.trans hsame
      cases hstring.symm.trans hother
      exact ⟨_, hbehind, rfl⟩

/-- The sketch of a text in front of which literals end is made of that of the front and of one of
the rest. -/
theorem exists_append (h : Extracts text sketch) (hwhole : Extracts (text ++ other) whole) :
    ∃ behind, Extracts other behind ∧ whole = sketch ++ behind := by
  induction h generalizing whole with
  | plain text htext =>
      generalize heq : text ++ other = source at hwhole
      cases hwhole with
      | plain _ hnone =>
          subst heq
          rw [List.mem_append, not_or] at hnone
          exact ⟨_, .plain other hnone.2, by rw [ofText, ofText, ofText, List.map_append]⟩
      | @literal before rest body after string sketch hbefore hsplit hstring hafter =>
          -- The first quote stands behind the text.
          rcases List.append_eq_append_iff.mp heq with ⟨front, rfl, rfl⟩ | ⟨front, rfl, hrest⟩
          · rw [List.mem_append, not_or] at hbefore
            refine ⟨_, .literal hbefore.2 hsplit hstring hafter, ?_⟩
            simp [ofText]
          · cases front with
            | nil =>
                rw [List.nil_append] at hrest
                subst hrest
                refine ⟨_, .literal List.not_mem_nil hsplit hstring hafter, ?_⟩
                simp [ofText]
            | cons c front =>
                rw [List.cons_append, List.cons.injEq] at hrest
                rw [← hrest.1] at htext
                exact absurd (by simp) htext
  | @literal before rest body after string sketch hbefore hsplit hstring hafter ih =>
      rw [List.append_assoc, List.cons_append] at hwhole
      obtain ⟨rests, hrests, rfl⟩ :=
        exists_literal hbefore (StringLiteral.split_append hsplit other) hstring hwhole
      obtain ⟨behind, hbehind, rfl⟩ := ih hrests
      exact ⟨behind, hbehind, by simp⟩

end Sketch.Extracts

end Reckon
