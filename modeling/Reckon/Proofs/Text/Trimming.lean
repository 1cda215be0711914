import Mathlib.Data.List.TakeWhile
import Reckon.Proofs.Text.Classes
import Reckon.Text.Basic

/-!
# Trimming

A trimmed text is what is left of a text between the blanks around it. It is empty for a blank text,
and otherwise neither starts nor ends with a blank.
-/

namespace Reckon.Text

variable {p : Char → Bool}

theorem dropEndWhile_append (p : Char → Bool) (text : Text) :
    dropEndWhile p text ++ takeEndWhile p text = text := by
  unfold dropEndWhile takeEndWhile
  rw [← List.reverse_append, List.takeWhile_append_dropWhile, List.reverse_reverse]

theorem dropEndWhile_isPrefix (p : Char → Bool) (text : Text) : dropEndWhile p text <+: text :=
  ⟨takeEndWhile p text, dropEndWhile_append p text⟩

theorem forall_mem_takeEndWhile (p : Char → Bool) (text : Text) :
    ∀ c ∈ takeEndWhile p text, p c = true := by
  intro c hc
  rw [takeEndWhile, List.mem_reverse] at hc
  exact List.mem_takeWhile_imp hc

/-- The longest end of a text made of characters of a class, and the text before it. -/
theorem endWhile_append {before run : Text} (hrun : ∀ c ∈ run, p c = true)
    (hbefore : before.getLast?.any p = false) :
    dropEndWhile p (before ++ run) = before ∧ takeEndWhile p (before ++ run) = run := by
  have hreverse : ∀ c ∈ run.reverse, p c = true := fun c hc => hrun c (List.mem_reverse.mp hc)
  rw [List.getLast?_eq_head?_reverse] at hbefore
  unfold dropEndWhile takeEndWhile
  rw [List.reverse_append, List.dropWhile_append_of_pos hreverse,
    List.takeWhile_append_of_pos hreverse]
  cases hbehind : before.reverse with
  | nil => simpa using hbehind.symm
  | cons c rest =>
      rw [hbehind] at hbefore
      have hc : ¬ p c = true := by simpa using hbefore
      rw [List.dropWhile_cons_of_neg hc, List.takeWhile_cons_of_neg hc, ← hbehind]
      simp

theorem dropEndWhile_eq_self {text : Text} (h : text.getLast?.any p = false) :
    dropEndWhile p text = text := by
  have hend := (endWhile_append (List.forall_mem_nil _) h).1
  rwa [List.append_nil] at hend

/-- The end of a text that loses its characters of a class is not of that class. -/
theorem getLast_dropEndWhile (p : Char → Bool) (text : Text) :
    (dropEndWhile p text).getLast?.any p = false := by
  rw [dropEndWhile, List.getLast?_reverse]
  have hhead := List.head?_dropWhile_not p text.reverse
  cases h : (text.reverse.dropWhile p).head? with
  | none => rfl
  | some c =>
      rw [h] at hhead
      simpa using hhead

theorem exists_trimWhile (p : Char → Bool) (text : Text) :
    ∃ l r, text = l ++ trimWhile p text ++ r ∧ (∀ c ∈ l, p c = true) ∧ ∀ c ∈ r, p c = true := by
  refine ⟨text.takeWhile p, takeEndWhile p (text.dropWhile p), ?_, fun c hc => ?_,
    forall_mem_takeEndWhile p _⟩
  · rw [trimWhile, List.append_assoc, dropEndWhile_append, List.takeWhile_append_dropWhile]
  · exact List.mem_takeWhile_imp hc

/-- A text that neither starts nor ends in the class is trimmed. -/
theorem trimWhile_eq_self {text : Text} (hhead : text.head?.any p = false)
    (hlast : text.getLast?.any p = false) : trimWhile p text = text := by
  have hdrop : text.dropWhile p = text := by
    cases text with
    | nil => rfl
    | cons c rest => exact List.dropWhile_cons_of_neg (by simpa using hhead)
  rw [trimWhile, hdrop, dropEndWhile_eq_self hlast]

/-- A text without characters of the class is trimmed. -/
theorem trimWhile_of_forall {text : Text} (h : ∀ c ∈ text, p c = false) :
    trimWhile p text = text := by
  refine trimWhile_eq_self ?_ ?_
  · cases hhead : text.head? with
    | none => rfl
    | some c => exact h c (List.mem_of_head? hhead)
  · cases hlast : text.getLast? with
    | none => rfl
    | some c => exact h c (List.mem_of_getLast? hlast)

theorem getLast_trimWhile (p : Char → Bool) (text : Text) :
    (trimWhile p text).getLast?.any p = false :=
  getLast_dropEndWhile p _

/-- A trimmed text does not start in the class. -/
theorem head_trimWhile (p : Char → Bool) (text : Text) :
    (trimWhile p text).head?.any p = false := by
  have hsplit := dropEndWhile_append p (text.dropWhile p)
  have hhead := List.head?_dropWhile_not p text
  unfold trimWhile
  cases hdrop : dropEndWhile p (text.dropWhile p) with
  | nil => rfl
  | cons c rest =>
      rw [hdrop] at hsplit
      rw [← hsplit, List.cons_append, List.head?_cons] at hhead
      simpa using hhead

/-- A trimmed text is empty only if there are only characters of the class. -/
theorem trimWhile_eq_nil_iff {text : Text} :
    trimWhile p text = [] ↔ ∀ c ∈ text, p c = true := by
  obtain ⟨l, r, htext, hl, hr⟩ := exists_trimWhile p text
  constructor
  · intro h
    rw [htext, h, List.append_nil]
    exact List.forall_mem_append.mpr ⟨hl, hr⟩
  · intro h
    cases htrim : trimWhile p text with
    | nil => rfl
    | cons c rest =>
        have hhead := head_trimWhile p text
        rw [htrim] at hhead htext
        have hc : p c = true := h c (by rw [htext]; simp)
        simp [hc] at hhead

/-- Characters of the class around a text do not change what is left of it. -/
theorem trimWhile_append {l r : Text} (hl : ∀ c ∈ l, p c = true) (hr : ∀ c ∈ r, p c = true)
    (text : Text) : trimWhile p (l ++ text ++ r) = trimWhile p text := by
  have hdrop : (l ++ (text ++ r)).dropWhile p = (text ++ r).dropWhile p :=
    List.dropWhile_append_of_pos hl
  rw [trimWhile, trimWhile, List.append_assoc, hdrop, List.dropWhile_append]
  split
  · next hempty =>
      rw [List.isEmpty_iff.mp hempty, List.dropWhile_eq_nil_iff.mpr hr]
  · unfold dropEndWhile
    rw [List.reverse_append, List.dropWhile_append_of_pos]
    exact fun c hc => hr c (List.mem_reverse.mp hc)

/-- The word at the end of a text, up to blanks, and the text before it. -/
theorem endWord_append {before word blanks : Text} (hword : ∀ c ∈ word, isWordChar c = true)
    (hedge : before.getLast?.any isWordChar = false)
    (hmark : word = [] → before.getLast?.any Unicode.isBlank = false)
    (hblanks : ∀ c ∈ blanks, Unicode.isBlank c = true) :
    dropEndWhile isWordChar (trimEnd (before ++ (word ++ blanks))) = before ∧
      takeEndWhile isWordChar (trimEnd (before ++ (word ++ blanks))) = word := by
  have hcore : (before ++ word).getLast?.any Unicode.isBlank = false := by
    rcases List.eq_nil_or_concat word with rfl | ⟨front, c, rfl⟩
    · rw [List.append_nil]
      exact hmark rfl
    · have hc := hword c (by simp)
      rw [List.concat_eq_append, ← List.append_assoc, List.getLast?_concat, Option.any_some]
      exact isBlank_of_isWordChar hc
  have htrim : trimEnd (before ++ (word ++ blanks)) = before ++ word := by
    rw [← List.append_assoc]
    exact (endWhile_append hblanks hcore).1
  rw [htrim]
  exact endWhile_append hword hedge

theorem trimWhile_trimWhile (p : Char → Bool) (text : Text) :
    trimWhile p (trimWhile p text) = trimWhile p text :=
  trimWhile_eq_self (head_trimWhile p text) (getLast_trimWhile p text)

end Reckon.Text
