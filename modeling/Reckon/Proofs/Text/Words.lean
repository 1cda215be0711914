import Reckon.Proofs.Text.Splitting
import Reckon.Proofs.Text.Trimming

/-!
# The words of a text

A word ends where a character stands that is no word character. So a text that is put together from
texts with such characters between them has the words of its parts and no others. `Speaks` is a
property of all words of a text, and the lemmas say how it follows the parts.
-/

namespace Reckon.Text

/-- All words of the text have the property. -/
def Speaks (P : Text → Prop) (text : Text) : Prop :=
  ∀ word ∈ words text, word ≠ [] → P word

variable {P : Text → Prop} {a b mark text word : Text}

theorem Speaks.mono {Q : Text → Prop} (h : Speaks P text) (himp : ∀ word, P word → Q word) :
    Speaks Q text :=
  fun word hword hne => himp word (h word hword hne)

theorem speaks_nil (P : Text → Prop) : Speaks P [] := by
  intro word hword hne
  rw [words, List.splitOnP_nil, List.mem_singleton] at hword
  exact absurd hword hne

/-- Around a character that is in no word, the words are those of the two sides. -/
theorem speaks_append_cons {c : Char} (hc : isWordChar c = false) :
    Speaks P (a ++ c :: b) ↔ Speaks P a ∧ Speaks P b := by
  have hwords : words (a ++ c :: b) = words a ++ words b :=
    List.splitOnP_append_cons a b (by simpa using hc)
  unfold Speaks
  rw [hwords, List.forall_mem_append]

/-- Characters that are in no word may stand before a text. -/
theorem speaks_mark_append (hmark : ∀ c ∈ mark, isWordChar c = false) :
    Speaks P (mark ++ text) ↔ Speaks P text := by
  induction mark with
  | nil => rfl
  | cons c mark ih =>
      rw [List.forall_mem_cons] at hmark
      have hcons : Speaks P ([] ++ c :: (mark ++ text)) ↔ Speaks P [] ∧ Speaks P (mark ++ text) :=
        speaks_append_cons hmark.1
      exact hcons.trans ((and_iff_right (speaks_nil P)).trans (ih hmark.2))

theorem speaks_append_mark (hmark : ∀ c ∈ mark, isWordChar c = false) (hne : mark ≠ []) :
    Speaks P (a ++ mark ++ b) ↔ Speaks P a ∧ Speaks P b := by
  obtain ⟨c, mark, rfl⟩ := List.exists_cons_of_ne_nil hne
  rw [List.forall_mem_cons] at hmark
  rw [List.append_assoc, List.cons_append, speaks_append_cons hmark.1, speaks_mark_append hmark.2]

theorem speaks_append_right (hmark : ∀ c ∈ mark, isWordChar c = false) :
    Speaks P (text ++ mark) ↔ Speaks P text := by
  by_cases hne : mark = []
  · rw [hne, List.append_nil]
  · have h := speaks_append_mark (P := P) (a := text) (b := []) hmark hne
    rw [List.append_nil] at h
    exact h.trans (and_iff_left (speaks_nil P))

/-- A trimmed text has the words of the text. -/
theorem speaks_trim : Speaks P (trim text) ↔ Speaks P text := by
  obtain ⟨l, r, htext, hl, hr⟩ := exists_trimWhile Unicode.isBlank text
  have hparts : Speaks P (l ++ trimWhile Unicode.isBlank text ++ r) ↔ Speaks P (trim text) := by
    rw [speaks_append_right fun c hc => isWordChar_of_blank (hr c hc),
      speaks_mark_append fun c hc => isWordChar_of_blank (hl c hc)]
    rfl
  rw [← htext] at hparts
  exact hparts.symm

theorem speaks_trimEnd : Speaks P (trimEnd text) ↔ Speaks P text := by
  have hblanks := forall_mem_takeEndWhile Unicode.isBlank text
  have hparts : Speaks P (trimEnd text ++ takeEndWhile Unicode.isBlank text) ↔
      Speaks P (trimEnd text) :=
    speaks_append_right fun c hc => isWordChar_of_blank (hblanks c hc)
  rw [trimEnd, dropEndWhile_append] at hparts
  exact hparts.symm

/-- A text without the word at its end has no other words. -/
theorem Speaks.dropEndWord (h : Speaks P text) : Speaks P (dropEndWhile isWordChar text) := by
  have hlast := getLast_dropEndWhile isWordChar text
  have htext := dropEndWhile_append isWordChar text
  rcases List.eq_nil_or_concat (dropEndWhile isWordChar text) with hnil | ⟨front, c, hconcat⟩
  · rw [hnil]
    exact speaks_nil P
  · rw [hconcat] at hlast htext ⊢
    rw [List.concat_eq_append] at hlast htext ⊢
    have hc : isWordChar c = false := by simpa using hlast
    rw [← htext, List.append_assoc, List.singleton_append, speaks_append_cons hc] at h
    exact (speaks_append_cons hc).mpr ⟨h.1, speaks_nil P⟩

theorem words_of_forall (h : ∀ c ∈ word, isWordChar c = true) : words word = [word] := by
  have hsplit : (word ++ []).splitOnP (fun c => !isWordChar c) = _ :=
    splitOnP_append (fun c hc => by simp [h c hc]) []
  simpa [words] using hsplit

/-- Texts with marks between them have the words of the texts. -/
theorem speaks_intercalate (hmark : ∀ c ∈ mark, isWordChar c = false) (hne : mark ≠ [])
    {pieces : List Text} :
    Speaks P (mark.intercalate pieces) ↔ ∀ piece ∈ pieces, Speaks P piece := by
  induction pieces with
  | nil => simpa using speaks_nil P
  | cons piece pieces ih =>
      cases pieces with
      | nil => simp [List.intercalate]
      | cons next pieces =>
          rw [List.intercalate_cons_cons, speaks_append_mark hmark hne, ih,
            List.forall_mem_cons (a := piece)]

/-- What stands between characters that are in no word, and is made of word characters, is a word of
the text. -/
theorem mem_words (hword : ∀ c ∈ word, isWordChar c = true)
    (ha : a.getLast?.any isWordChar = false) (hb : b.head?.any isWordChar = false) :
    word ∈ words (a ++ word ++ b) := by
  -- The text before the word ends its own last word, and so does the word.
  have hbehind : word ∈ words (word ++ b) := by
    cases b with
    | nil => simp [words_of_forall hword]
    | cons c b =>
        have hc : isWordChar c = false := by simpa using hb
        have hsplit : words (word ++ c :: b) = words word ++ words b :=
          List.splitOnP_append_cons word b (by simpa using hc)
        rw [hsplit, words_of_forall hword]
        exact .head _
  rcases List.eq_nil_or_concat a with rfl | ⟨front, c, rfl⟩
  · exact hbehind
  · have hc : isWordChar c = false := by simpa using ha
    have hsplit : words (front ++ c :: (word ++ b)) = words front ++ words (word ++ b) :=
      List.splitOnP_append_cons front _ (by simpa using hc)
    have htext : front.concat c ++ word ++ b = front ++ c :: (word ++ b) := by simp
    rw [htext, hsplit]
    exact List.mem_append_right _ hbehind

theorem speaks_of_isInfix (text : Text) : Speaks (· <:+: text) text :=
  fun _ hword _ => (infix_of_mem_splitOnP hword).1

end Reckon.Text
