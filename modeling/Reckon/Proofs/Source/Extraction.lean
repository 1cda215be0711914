import Reckon.Proofs.Source.Cutting

/-!
# Taking out string literals

Taking the string literals out of a source gives a text whose sketch has a constant in place of each
of them, between blanks (`Extracts`). Nothing inside a literal counts, so literals are taken out of
two sources together as they are out of each of them (`Extracts.append`).
-/

namespace Reckon

open Sketch (Written Tidy)
open SymbolTable (known)

namespace StringLiteral

/-- A literal and what stands behind it make up the text. -/
theorem eq_of_split {escaped : Bool} {text body after : Text}
    (h : split? ['"'] escaped text = some (body, after)) : text = body ++ '"' :: after := by
  induction text generalizing escaped body with
  | nil => cases escaped <;> cases h
  | cons c text ih =>
      have hrest {escaped : Bool}
          (h : (split? ['"'] escaped text).map (fun parts => (c :: parts.1, parts.2)) =
            some (body, after)) : c :: text = body ++ '"' :: after := by
        obtain ⟨⟨rest, behind⟩, hsplit, heq⟩ := Option.map_eq_some_iff.mp h
        cases heq
        rw [ih hsplit, List.cons_append]
      cases escaped with
      | true => exact hrest h
      | false =>
          unfold split? at h
          split at h
          · exact hrest h
          · split at h
            · next hquote =>
                have hc : '"' = c := by simpa [Text.isPrefixOf_singleton] using hquote
                cases h
                rw [hc]
                rfl
            · exact hrest h

/-- More text behind a literal does not change where the literal ends. -/
theorem split_append {escaped : Bool} {text body after : Text}
    (h : split? ['"'] escaped text = some (body, after)) (more : Text) :
    split? ['"'] escaped (text ++ more) = some (body, after ++ more) := by
  induction text generalizing escaped body with
  | nil => cases escaped <;> cases h
  | cons c text ih =>
      have hrest {escaped : Bool}
          (h : (split? ['"'] escaped text).map (fun parts => (c :: parts.1, parts.2)) =
            some (body, after)) :
          (split? ['"'] escaped (text ++ more)).map (fun parts => (c :: parts.1, parts.2)) =
            some (body, after ++ more) := by
        obtain ⟨⟨rest, behind⟩, hsplit, heq⟩ := Option.map_eq_some_iff.mp h
        cases heq
        rw [ih hsplit]
        rfl
      rw [List.cons_append]
      cases escaped with
      | true => exact hrest h
      | false =>
          unfold split? at h ⊢
          split at h
          · next hescape =>
              rw [if_pos hescape]
              exact hrest h
          · next hescape =>
              rw [if_neg hescape]
              rw [Text.isPrefixOf_singleton] at h ⊢
              split at h
              · next hquote =>
                  cases h
                  rw [if_pos hquote]
                  rfl
              · next hquote =>
                  rw [if_neg hquote]
                  exact hrest h

/-- The text of a string literal. -/
def quoted (body : Text) : Text :=
  '"' :: body ++ ['"']

/-- The constant of a string literal. -/
def constant (body string : Text) : Expr :=
  .constant ⟨.string (String.ofList string), some (quoted body)⟩

/-- A string literal is what its body is decoded to. -/
theorem valueOf_quoted {table : ConstantTable} (hquote : table.quote = ['"']) (body : Text) :
    table.valueOf? (quoted body) =
      (decode ['"'] body).map fun text => some (.string (String.ofList text)) := by
  have hbody : body? ['"'] (quoted body) = some body := by
    have hend : ['"'].isSuffixOf (body ++ ['"']) = true :=
      List.isSuffixOf_iff_suffix.mpr (List.suffix_append body _)
    simp [body?, quoted, hend]
  rw [ConstantTable.valueOf?, hquote, hbody]

theorem trim_quoted (body : Text) : Text.trim (quoted body) = quoted body := by
  refine Text.trimWhile_eq_self ?_ ?_
  · rw [quoted, List.cons_append, List.head?_cons, Option.any_some]
    decide
  · rw [quoted, List.getLast?_concat, Option.any_some]
    decide

theorem length_lt_of_split {before rest body after : Text}
    (h : split? ['"'] false rest = some (body, after)) :
    after.length < (before ++ '"' :: rest).length := by
  rw [eq_of_split h]
  simp
  omega

section Steps

variable {constants : ConstantTable} (hquote : constants.quote = ['"'])
include hquote

theorem extract_plain {text : Text} (h : '"' ∉ text) :
    extract constants text = .ok (text, constants) := by
  rw [extract, hquote, Text.splitFirst_eq_none.mpr h]

theorem extract_open {before rest : Text} (hbefore : '"' ∉ before)
    (hsplit : split? ['"'] false rest = none) :
    extract constants (before ++ '"' :: rest) = .error (.unterminatedString ('"' :: rest)) := by
  rw [extract, hquote, Text.splitFirst_eq_some.mpr ⟨rfl, hbefore⟩]
  simp only [hsplit]
  rfl

/-- The first literal of a text is entered, and then those behind it are taken out. -/
theorem extract_literal {before rest body after : Text} (hbefore : '"' ∉ before)
    (hsplit : split? ['"'] false rest = some (body, after)) :
    extract constants (before ++ '"' :: rest) =
      match constants.enter (quoted body) with
      | .error fault => .error fault
      | .ok (none, _) => .error (.invalidString (quoted body))
      | .ok (some name, learned) => (extract learned after).map fun behind =>
          (before ++ ' ' :: name ++ ' ' :: behind.1, behind.2) := by
  have hquoted : ['"'] ++ body ++ ['"'] = quoted body := rfl
  rw [extract, hquote, Text.splitFirst_eq_some.mpr ⟨rfl, hbefore⟩]
  simp only [hsplit, hquoted]
  cases constants.enter (quoted body) with
  | error fault => rfl
  | ok entered =>
      obtain ⟨_ | name, learned⟩ := entered
      · rfl
      · exact if_pos (length_lt_of_split hsplit)

end Steps

end StringLiteral

namespace Sketch

/-- Taking the string literals out of the text gives the sketch. -/
inductive Extracts : Text → Sketch → Prop where
  | plain (text : Text) (h : '"' ∉ text) : Extracts text (ofText text)
  | literal {before rest body after string : Text} {sketch : Sketch} (hbefore : '"' ∉ before)
      (hsplit : StringLiteral.split? ['"'] false rest = some (body, after))
      (hstring : StringLiteral.decode ['"'] body = .ok string) (hafter : Extracts after sketch) :
      Extracts (before ++ '"' :: rest)
        (ofText before ++
          .char ' ' :: .tree (some (StringLiteral.constant body string)) :: .char ' ' :: sketch)

namespace Extracts

variable {source text other : Text} {sketch a b : Sketch}

/-- Literals are taken out of two texts together as out of each of them. -/
theorem append (ha : Extracts text a) (hb : Extracts other b) :
    Extracts (text ++ other) (a ++ b) := by
  induction ha with
  | plain text h =>
      cases hb with
      | plain _ hother =>
          rw [ofText, ofText, ← List.map_append]
          exact .plain _ (by rw [List.mem_append]; exact not_or.mpr ⟨h, hother⟩)
      | literal hbefore hsplit hstring hafter =>
          rw [← List.append_assoc, ← List.append_assoc, ofText, ofText, ← List.map_append]
          exact .literal (by rw [List.mem_append]; exact not_or.mpr ⟨h, hbefore⟩) hsplit hstring
            hafter
  | literal hbefore hsplit hstring hafter ih =>
      have hmore := Extracts.literal hbefore (StringLiteral.split_append hsplit other) hstring ih
      simpa using hmore

/-- Characters without quotes and gaps are tidy where they are said. -/
theorem tidy_plain (hsource : text <:+: source) (hquote : '"' ∉ text) :
    Tidy source (ofText text) := by
  refine ⟨?_, fun run hrun hwithin => ?_, fun hmem => ?_⟩
  · rw [ofText, List.isChain_map]
    exact List.isChain_iff_forall_rel_of_append_cons_cons.mpr fun _ _ _ _ _ => Atom.apart_chars _ _
  · obtain ⟨before, behind, heq⟩ := hwithin
    have hpart : run <:+: text := by
      obtain ⟨front, rest, hfront, hrest, hbehind⟩ := List.map_eq_append_iff.mp heq.symm
      obtain ⟨first, second, hsplit, hfirst, hsecond⟩ := List.map_eq_append_iff.mp hrest
      have hrun' : second = run := List.map_injective_iff.mpr (fun _ _ h => Atom.char.inj h) hsecond
      exact ⟨first, rest, by rw [hfront, hsplit, hrun']⟩
    exact hpart.trans hsource
  · obtain ⟨c, hc, heq⟩ := List.mem_map.mp hmem
    cases heq
    exact hquote hc

/-- What is taken out of a part of the source is tidy. -/
theorem tidy (h : Extracts text sketch) (hsource : text <:+: source) : Tidy source sketch := by
  induction h with
  | plain _ hquote => exact tidy_plain hsource hquote
  | @literal before rest body after string sketch hbefore hsplit hstring hafter ih =>
      have hfront : before <:+: source := List.infix_append_left.trans hsource
      have hbehind : after <:+: source := by
        refine List.IsInfix.trans ⟨before ++ '"' :: body ++ ['"'], [], ?_⟩ hsource
        rw [StringLiteral.eq_of_split hsplit]
        simp
      exact (tidy_plain hfront hbefore).append_cons
        ((Tidy.singleton source _).append_cons (ih hbehind) (by decide)) (by decide)

/-- The literals of a text can be taken out if its sketch can be. -/
theorem extract_complete (h : Extracts text sketch) {constants : ConstantTable}
    (hconstants : constants.Regular source) :
    ∃ result learned, StringLiteral.extract constants text = .ok (result, learned) ∧
      learned.Regular source ∧ constants.entries <+: learned.entries ∧
      Written (known learned [] []) result sketch := by
  induction h generalizing constants with
  | plain text hquote =>
      exact ⟨text, constants, StringLiteral.extract_plain hconstants.quote hquote, hconstants,
        List.prefix_refl _, .plain _ _⟩
  | @literal before rest body after string sketch hbefore hsplit hstring hafter ih =>
      have hvalue : constants.valueOf? (Text.trim (StringLiteral.quoted body)) =
          .ok (some (.string (String.ofList string))) := by
        rw [StringLiteral.trim_quoted, StringLiteral.valueOf_quoted hconstants.quote, hstring]
        rfl
      obtain ⟨name, middle, henter, hmiddle, hfirst, hget⟩ := hconstants.enter_literal hvalue
      obtain ⟨result, learned, hrun, hlearned, hmore, hwritten⟩ := ih hmiddle
      refine ⟨before ++ ' ' :: name ++ ' ' :: result, learned, ?_, hlearned, hfirst.trans hmore, ?_⟩
      · rw [StringLiteral.extract_literal hconstants.quote hbefore hsplit, henter]
        simp only [hrun]
        rfl
      · have hname :
            known learned [] [] name = some (some (StringLiteral.constant body string)) := by
          show (learned.get? name).map _ = _
          rw [ConstantTable.get_of_isPrefix hmore hget, StringLiteral.trim_quoted]
          rfl
        have hwhole := (Written.plain (known learned [] []) before).append
          (.char ' ' (.name hname (.char ' ' hwritten)))
        simpa using hwhole

/-- The literals of a text are taken out only if its sketch can be. -/
theorem extract_sound {constants learned : ConstantTable} (hconstants : constants.Regular source)
    {result : Text} (h : StringLiteral.extract constants text = .ok (result, learned)) :
    ∃ sketch, Extracts text sketch := by
  -- Each literal that is taken out leaves a shorter text behind it.
  induction hlength : text.length using Nat.strongRecOn generalizing text constants result with
  | ind length ih =>
      cases hfirst : Text.splitFirst ['"'] text with
      | none => exact ⟨_, .plain text (Text.splitFirst_eq_none.mp hfirst)⟩
      | some parts =>
          obtain ⟨before, rest⟩ := parts
          obtain ⟨rfl, hbefore⟩ := Text.splitFirst_eq_some.mp hfirst
          cases hsplit : StringLiteral.split? ['"'] false rest with
          | none =>
              rw [StringLiteral.extract_open hconstants.quote hbefore hsplit] at h
              cases h
          | some sides =>
              obtain ⟨body, after⟩ := sides
              rw [StringLiteral.extract_literal hconstants.quote hbefore hsplit] at h
              have hvalue := StringLiteral.valueOf_quoted hconstants.quote body
              cases hstring : StringLiteral.decode ['"'] body with
              | error fault =>
                  rw [hstring] at hvalue
                  have henter := hconstants.enter_other (StringLiteral.quoted body) (by
                    rw [StringLiteral.trim_quoted, hvalue]
                    intro value heq
                    cases heq)
                  rw [StringLiteral.trim_quoted, hvalue] at henter
                  rw [henter] at h
                  cases h
              | ok string =>
                  rw [hstring] at hvalue
                  rw [← StringLiteral.trim_quoted] at hvalue
                  obtain ⟨name, middle, henter, hmiddle, -⟩ := hconstants.enter_literal hvalue
                  rw [henter] at h
                  obtain ⟨⟨_, known⟩, hrest, heq⟩ := map_eq_ok.mp h
                  cases heq
                  obtain ⟨sketch, hsketch⟩ := ih _
                    (hlength ▸ StringLiteral.length_lt_of_split hsplit) hmiddle hrest rfl
                  exact ⟨_, .literal hbefore hsplit hstring hsketch⟩

end Extracts

end Sketch

end Reckon
