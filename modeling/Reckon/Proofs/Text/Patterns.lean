import Mathlib.Algebra.Group.Action.Defs
import Mathlib.Algebra.Order.BigOperators.Group.List
import Mathlib.Algebra.Order.Group.Nat
import Mathlib.Data.List.Infix
import Reckon.Proofs.Text.Splitting

/-!
# Splitting at patterns of any length

The punctuation of a grammar may have several characters. Whatever it is, the text before its first
occurrence and the text behind its last one do not have it, and the pieces between its occurrences
do not either (`splitOn_spec`).
-/

namespace Reckon.Text

variable {pattern text before after : Text}

/-- The first occurrence of a pattern and what stands around it make up the text. -/
theorem eq_of_splitFirst (h : splitFirst pattern text = some (before, after)) :
    text = before ++ pattern ++ after := by
  induction text generalizing before with
  | nil =>
      obtain ⟨hempty, h⟩ := Option.ite_none_right_eq_some.mp h
      cases h
      simpa using hempty
  | cons c text ih =>
      rw [splitFirst] at h
      split at h
      · next hfront =>
          obtain ⟨rest, hrest⟩ := List.isPrefixOf_iff_prefix.mp hfront
          cases h
          rw [← hrest, List.drop_left, List.nil_append]
      · obtain ⟨⟨front, behind⟩, hsplit, h⟩ := Option.map_eq_some_iff.mp h
        cases h
        rw [ih hsplit]
        rfl

/-- A text contains a pattern exactly if the pattern is a part of it. -/
theorem contains_iff_isInfix : contains pattern text = true ↔ pattern <:+: text := by
  refine ⟨fun h => ?_, contains_of_isInfix⟩
  obtain ⟨⟨before, after⟩, hsplit⟩ := Option.isSome_iff_exists.mp h
  exact ⟨before, after, (eq_of_splitFirst hsplit).symm⟩

/-- A text does not have more different parts than there are pairs of places in it. -/
theorem length_le_of_distinct {parts : List Text} (hdistinct : parts.Nodup)
    (hparts : ∀ part ∈ parts, part <:+: text) : parts.length ≤ (text.length + 1) ^ 2 := by
  have hsubset : parts ⊆ text.tails.flatMap List.inits := by
    intro part hpart
    obtain ⟨rest, hfront, hrest⟩ := List.infix_iff_prefix_suffix.mp (hparts part hpart)
    exact List.mem_flatMap.mpr
      ⟨rest, (List.mem_tails _ _).mpr hrest, (List.mem_inits _ _).mpr hfront⟩
  have hlength : ∀ length ∈ text.tails.map fun rest => rest.inits.length,
      length ≤ text.length + 1 := by
    simp only [List.forall_mem_map, List.mem_tails, List.length_inits, Nat.add_le_add_iff_right]
    exact fun rest hrest => hrest.length_le
  calc parts.length
      ≤ (text.tails.flatMap List.inits).length := hdistinct.length_le_of_subset hsubset
    _ = (text.tails.map fun rest => rest.inits.length).sum := List.length_flatMap
    _ ≤ (text.tails.map fun rest => rest.inits.length).length • (text.length + 1) :=
        List.sum_le_card_nsmul _ _ hlength
    _ = (text.length + 1) ^ 2 := by rw [List.length_map, List.length_tails, smul_eq_mul, sq]

theorem not_isInfix_of_splitFirst (h : splitFirst pattern text = none) : ¬ pattern <:+: text := by
  rw [← contains_iff_isInfix, contains, h]
  simp

variable (hpattern : pattern ≠ [])
include hpattern

/-- The text before the first occurrence of a pattern does not have it. -/
theorem not_isInfix_before (h : splitFirst pattern text = some (before, after)) :
    ¬ pattern <:+: before := by
  induction text generalizing before with
  | nil => simp [splitFirst, hpattern] at h
  | cons c text ih =>
      have htext := eq_of_splitFirst h
      rw [splitFirst] at h
      split at h
      · cases h
        simpa using hpattern
      · next hfront =>
          obtain ⟨⟨front, behind⟩, hsplit, h⟩ := Option.map_eq_some_iff.mp h
          cases h
          rw [List.infix_cons_iff]
          rintro (hstart | hrest)
          · refine hfront (List.isPrefixOf_iff_prefix.mpr ?_)
            rw [htext, List.append_assoc]
            exact hstart.trans (List.prefix_append _ _)
          · exact ih hsplit hrest

/-- A text without a last occurrence of a pattern does not have it. -/
theorem not_isInfix_of_splitLast (h : splitLast pattern text = none) : ¬ pattern <:+: text := by
  induction text with
  | nil => simpa using hpattern
  | cons c text ih =>
      rw [splitLast] at h
      cases hrest : splitLast pattern text with
      | some sides => simp [hrest] at h
      | none =>
          simp only [hrest, ite_eq_right_iff, reduceCtorEq, imp_false] at h
          rw [List.infix_cons_iff, not_or]
          exact ⟨fun hstart => h (List.isPrefixOf_iff_prefix.mpr hstart), ih hrest⟩

/-- The last occurrence of a pattern stands in the text, and the text behind it does not have it. -/
theorem splitLast_spec (h : splitLast pattern text = some (before, after)) :
    text = before ++ pattern ++ after ∧ ¬ pattern <:+: after := by
  induction text generalizing before with
  | nil => simp [splitLast, hpattern] at h
  | cons c text ih =>
      rw [splitLast] at h
      cases hrest : splitLast pattern text with
      | some sides =>
          rw [hrest] at h
          cases h
          obtain ⟨htext, hafter⟩ := ih hrest
          exact ⟨by rw [htext]; rfl, hafter⟩
      | none =>
          simp only [hrest, Option.ite_none_right_eq_some, Option.some.injEq, Prod.mk.injEq] at h
          obtain ⟨hfront, rfl, rfl⟩ := h
          obtain ⟨rest, hstart⟩ := List.isPrefixOf_iff_prefix.mp hfront
          rw [← hstart, List.drop_left]
          refine ⟨rfl, fun hafter => not_isInfix_of_splitLast hpattern hrest ?_⟩
          -- The pattern is not empty, so what follows it is a part of the text without its first
          -- character.
          cases pattern with
          | nil => exact absurd rfl hpattern
          | cons d pattern =>
              obtain ⟨rfl, rfl⟩ := List.cons.inj hstart
              exact hafter.trans (List.suffix_append pattern rest).isInfix

omit hpattern in
/-- Behind the characters that are skipped, the pieces are those of the rest. -/
theorem piecesFrom_skip (separator : Text) (skip : Nat) (text : Text) :
    piecesFrom separator skip text = piecesFrom separator 0 (text.drop skip) := by
  induction text generalizing skip with
  | nil => cases skip <;> rfl
  | cons c text ih =>
      cases skip with
      | zero => rfl
      | succ skip => exact ih skip

/-- The first piece of a text ends at the first occurrence of the separator. -/
theorem splitOn_eq (text : Text) :
    splitOn pattern text =
      match splitFirst pattern text with
      | none => [text]
      | some (before, after) => before :: splitOn pattern after := by
  have hsplit (text : Text) : splitOn pattern text = piecesFrom pattern 0 text := by
    rw [splitOn, if_neg (by simpa using hpattern)]
  rw [hsplit]
  induction text with
  | nil => simp [piecesFrom, splitFirst, hpattern]
  | cons c text ih =>
      rw [piecesFrom, splitFirst]
      by_cases hfront : pattern.isPrefixOf (c :: text) = true
      · rw [if_pos hfront, if_pos hfront, piecesFrom_skip]
        have hdrop : text.drop (pattern.length - 1) = (c :: text).drop pattern.length := by
          obtain ⟨d, rest, rfl⟩ := List.exists_cons_of_ne_nil hpattern
          rfl
        rw [hdrop, ← hsplit]
      · rw [if_neg hfront, if_neg hfront, ih]
        cases splitFirst pattern text with
        | none => rfl
        | some sides => rfl

/-- The pieces between the occurrences of a separator are parts of the text that do not have it, and
make up the text. -/
theorem splitOn_spec (text : Text) :
    (∀ piece ∈ splitOn pattern text, piece <:+: text ∧ ¬ pattern <:+: piece) ∧
      pattern.intercalate (splitOn pattern text) = text := by
  induction hlength : text.length using Nat.strongRecOn generalizing text with
  | _ length ih =>
      rw [splitOn_eq hpattern]
      cases hsplit : splitFirst pattern text with
      | none =>
          have hnone := not_isInfix_of_splitFirst hsplit
          refine ⟨List.forall_mem_singleton.mpr ⟨List.infix_refl text, hnone⟩, ?_⟩
          simp [List.intercalate]
      | some sides =>
          obtain ⟨before, after⟩ := sides
          have htext := eq_of_splitFirst hsplit
          have hpos := List.length_pos_iff.mpr hpattern
          have hlt : after.length < length := by
            rw [← hlength, htext, List.length_append, List.length_append]
            omega
          obtain ⟨hpieces, hjoin⟩ := ih _ hlt after rfl
          have hbefore : before <:+: text := ⟨[], pattern ++ after, by simp [htext]⟩
          have hafter : after <:+: text := ⟨before ++ pattern, [], by simp [htext]⟩
          refine ⟨List.forall_mem_cons.mpr ⟨⟨hbefore, not_isInfix_before hpattern hsplit⟩,
            fun piece hpiece => ⟨(hpieces piece hpiece).1.trans hafter,
              (hpieces piece hpiece).2⟩⟩, ?_⟩
          have hne : splitOn pattern after ≠ [] := by
            rw [splitOn_eq hpattern]
            cases splitFirst pattern after <;> simp
          obtain ⟨piece, pieces, hcons⟩ := List.exists_cons_of_ne_nil hne
          show pattern.intercalate (before :: splitOn pattern after) = text
          rw [hcons] at hjoin ⊢
          rw [List.intercalate_cons_cons, hjoin, htext]

end Reckon.Text
