import Reckon.Proofs.Grammar.Checked
import Reckon.Proofs.Source.Lexemes
import Reckon.Proofs.Text.Words

/-!
# Operands are whole words

A token that is a word counts only where it stands alone, and any other token has no word character.
So no word of a text reaches across the start or the end of an operator, and an operand that is made
of word characters is a word of the text (`Grammar.operand_mem_words`).
-/

namespace Reckon

/-- No word of the text reaches across the place. -/
def Text.Parted (text : Text) (place : Nat) : Prop :=
  (text.take place).getLast?.any Text.isWordChar = false ∨
    (text.drop place).head?.any Text.isWordChar = false

namespace Text

/-- A trimmed part of word characters, between places that no word reaches across, is a word. -/
theorem trim_mem_words {a part b : Text}
    (ha : a.getLast?.any isWordChar = false ∨ (part ++ b).head?.any isWordChar = false)
    (hb : (a ++ part).getLast?.any isWordChar = false ∨ b.head?.any isWordChar = false)
    (hne : trim part ≠ []) (hword : ∀ c ∈ trim part, isWordChar c = true) :
    trim part ∈ words (a ++ part ++ b) := by
  obtain ⟨l, r, hpart, hl, hr⟩ := exists_trimWhile Unicode.isBlank part
  change part = l ++ trim part ++ r at hpart
  generalize trim part = word at hpart hne hword ⊢
  subst hpart
  have hsides : a ++ (l ++ word ++ r) ++ b = (a ++ l) ++ word ++ (r ++ b) := by simp
  rw [hsides]
  refine mem_words hword ?_ ?_
  · rcases List.eq_nil_or_concat l with rfl | ⟨front, c, rfl⟩
    · -- A word character stands behind the first place, so none stands before it.
      obtain ⟨c, word, rfl⟩ := List.exists_cons_of_ne_nil hne
      rw [List.forall_mem_cons] at hword
      simpa [hword.1] using ha
    · have hc : isWordChar c = false := isWordChar_of_blank (hl c (by simp))
      simp [hc]
  · cases r with
    | nil =>
        obtain ⟨front, c, rfl⟩ : ∃ front c, word = front ++ [c] :=
          ⟨_, _, (List.dropLast_append_getLast hne).symm⟩
        have hc : isWordChar c = true := hword c (by simp)
        simpa [hc] using hb
    | cons c r =>
        have hc : isWordChar c = false := isWordChar_of_blank (hr c (.head _))
        simp [hc]

end Text

namespace Grammar

variable {grammar : Grammar}

/-- No word reaches across the start or the end of an operator. -/
theorem parted_of_found (hgrammar : grammar.check = .ok ()) {text : Text} {o : Occurrence}
    (h : o ∈ grammar.found text) : text.Parted o.start ∧ text.Parted o.stop := by
  obtain ⟨hoperator, ⟨rest, hrest⟩, hfits⟩ := mem_found h
  obtain ⟨hne, hshape⟩ := tokens_of_check hgrammar _ hoperator
  simp only at hne hshape
  by_cases hword : Text.isWord o.token = true
  · -- A word stands alone.
    rw [OperatorToken.fits, if_pos hword, OperatorToken.standsAlone] at hfits
    simp only [Bool.and_eq_true, Bool.not_eq_true'] at hfits
    exact ⟨.inl hfits.1, .inr hfits.2⟩
  · have hmarks : ∀ c ∈ o.token, Text.isWordChar c = false := by
      unfold isToken at hshape
      split at hshape
      · rw [Bool.and_eq_true] at hshape
        simp [Text.isWord, hne, hshape.1] at hword
      · next hany => simpa using hany
    constructor
    · right
      obtain ⟨c, token, htoken⟩ := List.exists_cons_of_ne_nil hne
      have hc := hmarks c (by simp [htoken])
      rw [← hrest, htoken]
      simp [hc]
    · left
      have htake : text.take o.stop = text.take o.start ++ o.token := by
        rw [Occurrence.stop, List.take_add, ← hrest, List.take_left]
      rw [htake, List.getLast?_append_of_ne_nil _ hne, List.getLast?_eq_some_getLast hne]
      exact hmarks _ (List.getLast_mem hne)

/-- An operand of the pieces of a text from a place on is a word of the text, if it is made of word
characters and no word reaches across the place or across an operator. -/
theorem mem_words_of_pieces {text operand : Text} {place : Nat} {occurrences : List Occurrence}
    (hplace : text.Parted place)
    (hoccurrences : ∀ o ∈ occurrences, text.Parted o.start ∧ text.Parted o.stop)
    (h : .operand operand ∈ Piece.ofOccurrences text place occurrences)
    (hword : ∀ c ∈ operand, Text.isWordChar c = true) : operand ∈ Text.words text := by
  have hpart {place n : Nat} (hplace : text.Parted place) (hend : text.Parted (place + n))
      (h : .operand operand ∈ Piece.operands ((text.drop place).take n)) :
      operand ∈ Text.words text := by
    unfold Piece.operands at h
    by_cases hempty : Text.trim ((text.drop place).take n) = []
    · simp [hempty] at h
    · simp only [List.isEmpty_iff, if_neg hempty, List.mem_singleton, Piece.operand.injEq] at h
      subst h
      have htake : text.take (place + n) =
          text.take place ++ (text.drop place).take n := List.take_add
      have hdrop : (text.drop place).take n ++ text.drop (place + n) =
          text.drop place := by
        rw [← List.drop_drop, List.take_append_drop]
      have hmem := Text.trim_mem_words (a := text.take place) (b := text.drop (place + n))
        (by rw [hdrop]; exact hplace) (by rw [← htake]; exact hend) hempty hword
      rwa [List.append_assoc, hdrop, List.take_append_drop] at hmem
  induction occurrences generalizing place with
  | nil =>
      refine hpart (n := text.length) hplace (.inr ?_) ?_
      · rw [List.drop_eq_nil_of_le (Nat.le_add_left _ _)]
        rfl
      · rwa [List.take_of_length_le (by rw [List.length_drop]; omega)]
  | cons first rest ih =>
      rw [List.forall_mem_cons] at hoccurrences
      rcases List.mem_append.mp h with h | h
      · rcases Nat.le_total place first.start with hle | hle
        · refine hpart hplace ?_ h
          rw [Nat.add_sub_cancel' hle]
          exact hoccurrences.1.1
        · rw [Nat.sub_eq_zero_of_le hle] at h
          cases h
      · rcases List.mem_cons.mp h with h | h
        · cases h
        · exact ih hoccurrences.1.2 hoccurrences.2 h

/-- An operand that is made of word characters is a word of the text. -/
theorem operand_mem_words (hgrammar : grammar.check = .ok ()) {text operand : Text}
    (h : .operand operand ∈ Piece.ofOccurrences text 0 (grammar.occurrences text))
    (hword : ∀ c ∈ operand, Text.isWordChar c = true) : operand ∈ Text.words text :=
  mem_words_of_pieces (.inl rfl)
    (fun _ ho => parted_of_found hgrammar (mem_found_of_mem ho)) h hword

end Grammar

end Reckon
