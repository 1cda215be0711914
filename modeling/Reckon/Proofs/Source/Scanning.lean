import Mathlib.Data.List.TakeWhile
import Reckon.Proofs.Source.Lexing

/-!
# What a scan for a token finds

A scan goes through a text from left to right and misses a match only if an earlier match of the
same token overlaps it (`mem_occurrences_of_first`). What it finds counts if it is a maximal run of
word characters, for a word, and if it is no sign of an exponent, for a sign. Of all that counts,
what starts inside something read before it is left out, and nothing else (`kept_or_covered`).
-/

namespace Reckon

namespace Text

/-- The bytes before a place are those of the characters before it. -/
theorem byteOffset_eq (text : Text) (place : Nat) :
    byteOffset text place = (String.ofList (text.take place)).utf8ByteSize := by
  unfold byteOffset
  induction text.take place with
  | nil => rfl
  | cons c rest ih =>
      rw [utf8Size, ih, String.ofList_cons, String.utf8ByteSize_append,
        String.utf8ByteSize_singleton]

theorem byteOffset_mono (text : Text) {place later : Nat} (h : place ≤ later) :
    byteOffset text place ≤ byteOffset text later := by
  obtain ⟨more, rfl⟩ := Nat.exists_eq_add_of_le h
  rw [byteOffset_eq, byteOffset_eq, List.take_add, String.ofList_append,
    String.utf8ByteSize_append]
  omega

/-- A character inside a match is a character of the pattern. -/
theorem exists_mem_of_match {pattern text : Text} {start place : Nat}
    (h : pattern <+: text.drop start) (hle : start ≤ place)
    (hlt : place < start + pattern.length) : ∃ c ∈ pattern, text[place]? = some c := by
  have hin : place - start < pattern.length := by omega
  refine ⟨pattern[place - start], List.getElem_mem hin, ?_⟩
  rw [← List.prefix_iff_getElem?.mp h _ hin, List.getElem?_drop]
  congr 1
  omega

/-- A match that no earlier one overlaps is found. -/
theorem mem_occurrencesFrom_of_first {pattern text : Text} {offset skip start : Nat}
    (hskip : skip ≤ start) (hmatch : pattern <+: text.drop start) (hnonempty : pattern ≠ [])
    (hfirst : ∀ earlier, skip ≤ earlier → earlier < start → pattern <+: text.drop earlier →
      earlier + pattern.length ≤ start) :
    offset + start ∈ occurrencesFrom pattern offset skip text := by
  -- The induction is on the text. Behind a match, what is skipped ends at the latest where the next
  -- match that it does not overlap begins.
  induction text generalizing offset skip start with
  | nil => exact absurd (by simpa using hmatch) hnonempty
  | cons c text ih =>
      have hpos := List.length_pos_iff.mpr hnonempty
      have hlater {skip : Nat} (hskip : skip + 1 ≤ start)
          (hfirst : ∀ earlier, skip + 1 ≤ earlier → earlier < start →
            pattern <+: (c :: text).drop earlier → earlier + pattern.length ≤ start) :
          offset + start ∈ occurrencesFrom pattern (offset + 1) skip text := by
        obtain ⟨next, rfl⟩ : ∃ next, start = next + 1 := ⟨start - 1, by omega⟩
        have hnext : offset + (next + 1) = offset + 1 + next := by omega
        rw [hnext]
        refine ih (by omega) hmatch ?_
        intro earlier hle hlt hprefix
        have hbound := hfirst (earlier + 1) (by omega) (by omega) hprefix
        omega
      cases skip with
      | succ skip => exact hlater hskip hfirst
      | zero =>
          unfold occurrencesFrom
          by_cases hhead : pattern.isPrefixOf (c :: text) = true
          · rw [if_pos hhead]
            by_cases hstart : start = 0
            · rw [hstart]
              exact .head _
            · have hbound := hfirst 0 (by omega) (by omega) (List.isPrefixOf_iff_prefix.mp hhead)
              refine .tail _ (hlater (by omega) ?_)
              intro earlier _ hlt hprefix
              exact hfirst earlier (by omega) hlt hprefix
          · rw [if_neg hhead]
            have hstart : start ≠ 0 := by
              rintro rfl
              exact hhead (List.isPrefixOf_iff_prefix.mpr hmatch)
            refine hlater (by omega) ?_
            intro earlier _ hlt hprefix
            exact hfirst earlier (by omega) hlt hprefix

/-- A match of a pattern that no earlier match overlaps is found. -/
theorem mem_occurrences_of_first {pattern text : Text} {start : Nat}
    (hmatch : pattern <+: text.drop start) (hnonempty : pattern ≠ [])
    (hfirst : ∀ earlier, earlier < start → pattern <+: text.drop earlier →
      earlier + pattern.length ≤ start) : start ∈ occurrences pattern text := by
  have hempty : pattern.isEmpty = false := by simpa using hnonempty
  have hmem : 0 + start ∈ occurrencesFrom pattern 0 0 text :=
    mem_occurrencesFrom_of_first (Nat.zero_le start) hmatch hnonempty fun earlier _ =>
      hfirst earlier
  rw [occurrences, hempty, if_neg Bool.false_ne_true]
  rwa [Nat.zero_add] at hmem

/-- Between the two texts the word is a maximal run of word characters. -/
structure IsRun (before word after : Text) : Prop where
  word : isWord word = true
  before : ∀ c ∈ before.getLast?, isWordChar c = false
  after : ∀ c ∈ after.head?, isWordChar c = false

/-- A sign between the two texts belongs to a number: before it stand a letter of an exponent and a
mantissa of digits and points, in front of which the number breaks off, and behind it a digit. -/
inductive IsExponentSign : Text → Text → Prop where
  | intro {before mantissa : Text} {letter digit : Char} {after : Text}
      (hletter : letter = 'e' ∨ letter = 'E')
      (hmantissa : ∀ c ∈ mantissa, Decimal.isDigit c = true ∨ c = '.')
      (hsome : ∃ c ∈ mantissa, Decimal.isDigit c = true)
      (hbefore : ∀ c ∈ before.getLast?, IsBreak c)
      (hdigit : Decimal.isDigit digit = true) :
      IsExponentSign (before ++ mantissa ++ [letter]) (digit :: after)

end Text

namespace OperatorToken

/-- The check of an exponent is what it is meant to be. -/
theorem belongsToExponent_iff {before after : Text} :
    belongsToExponent before after = true ↔ Text.IsExponentSign before after := by
  constructor
  · intro h
    unfold belongsToExponent at h
    split at h
    · cases h
    · next letter mantissa hreverse =>
        simp only [Bool.and_eq_true, Bool.not_eq_true', Bool.or_eq_true, beq_iff_eq] at h
        obtain ⟨⟨⟨hletter, hdigit⟩, hsome⟩, hbefore⟩ := h
        cases after with
        | nil => cases hdigit
        | cons digit after =>
            have hsplit : before =
                (mantissa.dropWhile fun c => Decimal.isDigit c || c == '.').reverse ++
                  (mantissa.takeWhile fun c => Decimal.isDigit c || c == '.').reverse ++
                  [letter] := by
              rw [← List.reverse_append, List.takeWhile_append_dropWhile, ← List.reverse_cons,
                ← hreverse, List.reverse_reverse]
            rw [hsplit]
            refine .intro hletter ?_ ?_ ?_ hdigit
            · intro c hc
              have hclass := List.mem_takeWhile_imp (List.mem_reverse.mp hc)
              simpa using hclass
            · simpa using hsome
            · intro c hc
              rw [List.getLast?_reverse] at hc
              have hnot := List.head?_dropWhile_not (fun c => Decimal.isDigit c || c == '.')
                mantissa
              rw [hc] at hnot hbefore
              simp only [Bool.or_eq_false_iff, beq_eq_false_iff_ne] at hnot
              exact ⟨hbefore, hnot.2⟩
  · intro h
    cases h with
    | @intro before mantissa letter digit after hletter hmantissa hsome hbefore hdigit =>
        have hclass : ∀ c ∈ mantissa.reverse, (Decimal.isDigit c || c == '.') = true := by
          intro c hc
          simpa using hmantissa c (List.mem_reverse.mp hc)
        have hletter : (letter == 'e' || letter == 'E') = true := by simpa using hletter
        have hsome : mantissa.reverse.any Decimal.isDigit = true := by simpa using hsome
        have hreverse : (before ++ mantissa ++ [letter]).reverse =
            letter :: (mantissa.reverse ++ before.reverse) := by simp
        unfold belongsToExponent
        rw [hreverse]
        simp only [List.takeWhile_append_of_pos hclass, List.dropWhile_append_of_pos hclass,
          hletter, List.any_append, hsome, List.head?_cons, Option.any_some, hdigit]
        -- The mantissa is all that the number has before the letter.
        cases hlast : before.reverse with
        | nil => simp
        | cons c rest =>
            have hbreak := hbefore c (by rw [← List.head?_reverse, hlast]; rfl)
            simp [hbreak.digit, hbreak.point, hbreak.word]

/-- A word counts as a whole word. -/
theorem fits_word {token before after : Text} (hword : Text.isWord token = true) :
    fits token before after = true ↔ Text.IsRun before token after := by
  rw [fits, if_pos hword, standsAlone, Bool.and_eq_true, Bool.not_eq_true', Bool.not_eq_true']
  constructor
  · rintro ⟨hbefore, hafter⟩
    refine ⟨hword, fun c hc => ?_, fun c hc => ?_⟩
    · rwa [Option.mem_def.mp hc] at hbefore
    · rwa [Option.mem_def.mp hc] at hafter
  · intro h
    constructor
    · cases hlast : before.getLast? with
      | none => rfl
      | some c => exact h.before c hlast
    · cases hhead : after.head? with
      | none => rfl
      | some c => exact h.after c hhead

/-- What is no word counts, unless it is the sign of an exponent. -/
theorem fits_symbol {token before after : Text} (hsymbol : Text.isWord token = false) :
    fits token before after = true ↔
      ¬((token = ['+'] ∨ token = ['-']) ∧ Text.IsExponentSign before after) := by
  rw [fits, if_neg (by simp [hsymbol]), ← belongsToExponent_iff]
  by_cases hsign : token = ['+'] ∨ token = ['-']
  · rw [if_pos hsign]
    simp [hsign]
  · rw [if_neg hsign]
    simp [hsign]

/-- A match that counts is found, unless an earlier match overlaps it. -/
theorem mem_occurrences_of_fits {operator : OperatorToken} {text before after : Text}
    (htext : text = before ++ operator.token ++ after) (hnonempty : operator.token ≠ [])
    (hfits : fits operator.token before after = true)
    (hfirst : ∀ earlier, earlier < before.length → operator.token <+: text.drop earlier →
      earlier + operator.token.length ≤ before.length) :
    ⟨operator.level, before.length, operator.token⟩ ∈ operator.occurrences text := by
  have hmatch : operator.token <+: text.drop before.length := by
    rw [htext, List.append_assoc, List.drop_left]
    exact List.prefix_append _ _
  have hbefore : text.take before.length = before := by
    rw [htext, List.append_assoc, List.take_left]
  have hafter : text.drop (before.length + operator.token.length) = after := by
    rw [htext, ← List.length_append, List.drop_left]
  refine List.mem_map.mpr ⟨before.length, List.mem_filter.mpr ⟨?_, ?_⟩, rfl⟩
  · exact Text.mem_occurrences_of_first hmatch hnonempty hfirst
  · rw [hbefore, hafter]
    exact hfits

end OperatorToken

namespace Occurrence

/-- The occurrence stands in the text between these two. -/
structure StandsBetween (occurrence : Occurrence) (text before after : Text) : Prop where
  text : text = before ++ occurrence.token ++ after
  start : occurrence.start = before.length

theorem StandsBetween.take_eq {o : Occurrence} {text before after : Text}
    (h : o.StandsBetween text before after) : text.take o.start = before := by
  rw [h.text, h.start, List.append_assoc, List.take_left]

theorem StandsBetween.drop_eq {o : Occurrence} {text before after : Text}
    (h : o.StandsBetween text before after) : text.drop o.stop = after := by
  rw [h.text, stop, h.start, ← List.length_append, List.drop_left]

theorem StandsBetween.take_stop {o : Occurrence} {text before after : Text}
    (h : o.StandsBetween text before after) : text.take o.stop = before ++ o.token := by
  rw [h.text, stop, h.start, ← List.length_append, List.take_left]

variable {covered : Nat} {occurrences : List Occurrence} {o : Occurrence}

/-- What is kept starts behind what is covered. -/
theorem le_of_mem_keepDisjoint (h : o ∈ keepDisjoint covered occurrences) : covered ≤ o.start := by
  induction occurrences generalizing covered with
  | nil => cases h
  | cons first rest ih =>
      rw [keepDisjoint] at h
      by_cases hfirst : first.start < covered
      · rw [if_pos hfirst] at h
        exact ih h
      · rw [if_neg hfirst] at h
        rcases List.mem_cons.mp h with rfl | h
        · omega
        · have hle := ih h
          unfold stop at hle
          omega

/-- What is kept does not overlap, and is in order. -/
theorem pairwise_keepDisjoint (covered : Nat) (occurrences : List Occurrence) :
    (keepDisjoint covered occurrences).Pairwise fun a b => a.stop ≤ b.start := by
  induction occurrences generalizing covered with
  | nil => exact .nil
  | cons first rest ih =>
      rw [keepDisjoint]
      by_cases hfirst : first.start < covered
      · rw [if_pos hfirst]
        exact ih covered
      · rw [if_neg hfirst]
        exact .cons (fun o ho => le_of_mem_keepDisjoint ho) (ih first.stop)

/-- Of occurrences in the order of reading, one that is not kept starts in what is covered, or
inside one that is kept. -/
theorem kept_or_covered (covered : Nat)
    (hordered : occurrences.Pairwise fun a b => reads a b = true) (h : o ∈ occurrences) :
    o ∈ keepDisjoint covered occurrences ∨ o.start < covered ∨
      ∃ kept ∈ keepDisjoint covered occurrences, kept.start ≤ o.start ∧ o.start < kept.stop := by
  induction occurrences generalizing covered with
  | nil => cases h
  | cons first rest ih =>
      obtain ⟨hfirst, hrest⟩ := List.pairwise_cons.mp hordered
      rw [keepDisjoint]
      by_cases hcovered : first.start < covered
      · rw [if_pos hcovered]
        rcases List.mem_cons.mp h with rfl | h
        · exact .inr (.inl hcovered)
        · exact ih covered hrest h
      · rw [if_neg hcovered]
        rcases List.mem_cons.mp h with rfl | h
        · exact .inl (.head _)
        · have hreads := hfirst o h
          simp only [reads, Bool.or_eq_true, Bool.and_eq_true, decide_eq_true_eq,
            beq_iff_eq] at hreads
          rcases ih first.stop hrest h with hkept | hlt | ⟨kept, hkept, hin⟩
          · exact .inl (.tail _ hkept)
          · exact .inr (.inr ⟨first, .head _, by omega, hlt⟩)
          · exact .inr (.inr ⟨kept, .tail _ hkept, hin⟩)

end Occurrence

end Reckon
