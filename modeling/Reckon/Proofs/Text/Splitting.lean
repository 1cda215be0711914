import Reckon.Text.Basic

/-!
# Splitting at one character

The punctuation that cuts a source consists of single characters. For a pattern of one character,
the first and the last occurrence are known by what stands beside them (`splitFirst_eq_some`,
`splitLast_append`), and splitting is that of lists.
-/

namespace Reckon.Text

theorem length_le_utf8Size (text : Text) : text.length ≤ utf8Size text := by
  induction text with
  | nil => exact Nat.le_refl 0
  | cons c text ih =>
      have hc : 0 < c.utf8Size := c.utf8Size_pos
      rw [utf8Size, List.length_cons]
      omega

/-- A pattern occurs in a text that it is a part of. -/
theorem contains_of_isInfix {pattern text : Text} (h : pattern <:+: text) :
    contains pattern text = true := by
  induction text with
  | nil =>
      obtain rfl := List.infix_nil.mp h
      rfl
  | cons c text ih =>
      rw [contains, splitFirst]
      split
      · rfl
      · next hfront =>
          rcases List.infix_cons_iff.mp h with hstart | hrest
          · exact absurd (List.isPrefixOf_iff_prefix.mpr hstart) hfront
          · rw [Option.isSome_map]
            exact ih hrest

section Character

variable {c : Char}

theorem isPrefixOf_singleton (c d : Char) (text : Text) :
    [c].isPrefixOf (d :: text) = (c == d) := by
  simp [List.isPrefixOf]

/-- A text without a character has no first occurrence of it. -/
theorem splitFirst_eq_none {text : Text} : splitFirst [c] text = none ↔ c ∉ text := by
  induction text with
  | nil => simp [splitFirst]
  | cons d text ih =>
      rw [splitFirst, isPrefixOf_singleton, List.mem_cons, not_or, ← ih]
      by_cases h : c = d
      · simp [h]
      · simp [h]

/-- The first occurrence of a character has none before it. -/
theorem splitFirst_eq_some {text before after : Text} :
    splitFirst [c] text = some (before, after) ↔ text = before ++ c :: after ∧ c ∉ before := by
  induction text generalizing before with
  | nil => simp [splitFirst]
  | cons d text ih =>
      rw [splitFirst, isPrefixOf_singleton]
      by_cases h : c = d
      · subst h
        rw [if_pos (beq_self_eq_true c)]
        cases before with
        | nil => simp [eq_comm]
        | cons e before =>
            simp only [List.cons_append, List.cons.injEq, List.mem_cons, not_or]
            constructor
            · nofun
            · rintro ⟨⟨rfl, -⟩, hne, -⟩
              exact absurd rfl hne
      · rw [if_neg (by simpa using h)]
        cases before with
        | nil =>
            simp only [Option.map_eq_some_iff, Prod.mk.injEq, List.nil_append, List.cons.injEq]
            constructor
            · rintro ⟨_, _, hcons, _⟩
              cases hcons
            · rintro ⟨⟨hd, _⟩, _⟩
              exact absurd hd.symm h
        | cons e before =>
            simp only [Option.map_eq_some_iff, Prod.exists, Prod.mk.injEq, List.cons_append,
              List.cons.injEq, List.mem_cons, not_or]
            constructor
            · rintro ⟨before', after', hsplit, ⟨rfl, rfl⟩, rfl⟩
              obtain ⟨htext, hbefore⟩ := ih.mp hsplit
              exact ⟨⟨rfl, htext⟩, h, hbefore⟩
            · rintro ⟨⟨rfl, htext⟩, -, hbefore⟩
              exact ⟨before, after, ih.mpr ⟨htext, hbefore⟩, ⟨rfl, rfl⟩, rfl⟩

/-- A text without a character has no last occurrence of it. -/
theorem splitLast_eq_none {text : Text} : splitLast [c] text = none ↔ c ∉ text := by
  induction text with
  | nil => simp [splitLast]
  | cons d text ih =>
      rw [splitLast, List.mem_cons, not_or, ← ih]
      cases splitLast [c] text with
      | some sides => simp
      | none => simp [isPrefixOf_singleton]

/-- The last occurrence of a character has none behind it. -/
theorem splitLast_append {before after : Text} (h : c ∉ after) :
    splitLast [c] (before ++ c :: after) = some (before, after) := by
  induction before with
  | nil => simp [splitLast, splitLast_eq_none.mpr h]
  | cons d before ih => simp [splitLast, ih]

theorem contains_singleton {text : Text} : contains [c] text = true ↔ c ∈ text := by
  rw [contains, Option.isSome_iff_ne_none, ne_eq, splitFirst_eq_none, Classical.not_not]

/-- Splitting at one character is splitting the list. -/
theorem splitOn_singleton (c : Char) (text : Text) :
    splitOn [c] text = text.splitOnP (· == c) := by
  show piecesFrom [c] 0 text = _
  induction text with
  | nil => rfl
  | cons d text ih =>
      rw [piecesFrom, isPrefixOf_singleton, List.splitOnP_cons_eq_if_modifyHead]
      by_cases h : c = d
      · subst h
        rw [if_pos (beq_self_eq_true c), if_pos (beq_self_eq_true c)]
        exact congrArg _ ih
      · rw [if_neg (by simpa using h), if_neg (by simpa using Ne.symm h), ih]
        cases hpieces : text.splitOnP (· == c) with
        | nil => exact absurd hpieces (List.splitOnP_ne_nil _ _)
        | cons piece pieces => rfl

end Character

/-- Nothing splits in front of elements that split nothing. -/
theorem splitOnP_append {α : Type} {p : α → Bool} {front : List α} (h : ∀ a ∈ front, p a = false)
    (rest : List α) :
    (front ++ rest).splitOnP p = (rest.splitOnP p).modifyHead (front ++ ·) := by
  induction front with
  | nil =>
      cases hpieces : rest.splitOnP p with
      | nil => exact absurd hpieces (List.splitOnP_ne_nil p rest)
      | cons first pieces => exact hpieces
  | cons a front ih =>
      rw [List.forall_mem_cons] at h
      rw [List.cons_append, List.splitOnP_cons_eq_if_modifyHead, h.1, ih h.2]
      simp [List.modifyHead_modifyHead, Function.comp_def]

/-- The pieces of a list are parts of it, the first one at its start, and nothing that splits is in
them. -/
theorem splitOnP_spec {α : Type} (p : α → Bool) (list : List α) :
    ∃ first rest, list.splitOnP p = first :: rest ∧ first <+: list ∧
      ∀ piece ∈ first :: rest, piece <:+: list ∧ ∀ a ∈ piece, p a = false := by
  induction list with
  | nil => exact ⟨[], [], rfl, List.prefix_refl _, by simp⟩
  | cons a list ih =>
      obtain ⟨first, rest, hsplit, hfirst, hpieces⟩ := ih
      rw [List.splitOnP_cons_eq_if_modifyHead, hsplit]
      rw [List.forall_mem_cons] at hpieces
      have hrest : ∀ piece ∈ rest, piece <:+: a :: list ∧ ∀ a ∈ piece, p a = false :=
        fun piece hpiece => ⟨List.infix_cons (hpieces.2 piece hpiece).1, (hpieces.2 piece hpiece).2⟩
      cases ha : p a with
      | true =>
          refine ⟨[], first :: rest, rfl, ⟨a :: list, rfl⟩, ?_⟩
          refine List.forall_mem_cons.mpr ⟨⟨⟨[], _, rfl⟩, by simp⟩, ?_⟩
          exact List.forall_mem_cons.mpr ⟨⟨List.infix_cons hpieces.1.1, hpieces.1.2⟩, hrest⟩
      | false =>
          have hcons : a :: first <+: a :: list := List.cons_prefix_cons.mpr ⟨rfl, hfirst⟩
          refine ⟨a :: first, rest, rfl, hcons,
            List.forall_mem_cons.mpr ⟨⟨hcons.isInfix, ?_⟩, hrest⟩⟩
          exact List.forall_mem_cons.mpr ⟨ha, hpieces.1.2⟩

theorem infix_of_mem_splitOnP {α : Type} {p : α → Bool} {list piece : List α}
    (h : piece ∈ list.splitOnP p) : piece <:+: list ∧ ∀ a ∈ piece, p a = false := by
  obtain ⟨first, rest, hsplit, -, hpieces⟩ := splitOnP_spec p list
  exact hpieces piece (hsplit ▸ h)

/-- What does not split is in one of the pieces. -/
theorem exists_mem_splitOnP {α : Type} {p : α → Bool} {list : List α} {a : α} (h : a ∈ list)
    (ha : p a = false) : ∃ piece ∈ list.splitOnP p, a ∈ piece := by
  induction list with
  | nil => cases h
  | cons b list ih =>
      obtain ⟨first, rest, hsplit, -⟩ := splitOnP_spec p list
      rw [List.splitOnP_cons_eq_if_modifyHead]
      rcases List.mem_cons.mp h with rfl | h
      · rw [hsplit, if_neg (by simp [ha])]
        exact ⟨a :: first, .head _, .head _⟩
      · obtain ⟨piece, hpiece, hmem⟩ := ih h
        rw [hsplit] at hpiece ⊢
        split
        · exact ⟨piece, .tail _ hpiece, hmem⟩
        · rcases List.mem_cons.mp hpiece with rfl | hpiece
          · exact ⟨b :: piece, .head _, .tail _ hmem⟩
          · exact ⟨piece, .tail _ hpiece, hmem⟩

end Reckon.Text
