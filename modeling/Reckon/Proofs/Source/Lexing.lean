import Mathlib.Data.List.Nodup
import Mathlib.Data.List.Perm.Basic
import Reckon.Proofs.Text.Classes
import Reckon.Source.Occurrence

/-!
# Operators of a text that a blank divides

No token contains a blank, and no decision about a token looks across one. So the operators of a
text are those of the part before a blank and those of the part behind it, which is
`occurrences_blank`.
-/

namespace Reckon

/-- The tokens of the grammar have a shape that can be found in a text, and each stands once among
those that are looked for. -/
structure Grammar.Lexical (grammar : Grammar) : Prop where
  nonempty : ∀ operator ∈ grammar.operatorTokens, operator.token ≠ []
  shaped : ∀ operator ∈ grammar.operatorTokens, Grammar.isToken operator.token = true
  distinct : (grammar.operatorTokens.map (·.token)).Nodup

theorem Grammar.lexical_standard : Grammar.standard.Lexical :=
  ⟨by decide, by decide, by decide⟩

theorem isBlank_of_isToken {token : Text} (h : Grammar.isToken token = true) {c : Char}
    (hc : c ∈ token) : Unicode.isBlank c = false := by
  unfold Grammar.isToken at h
  split at h
  · simp only [Bool.and_eq_true, List.all_eq_true] at h
    exact isBlank_of_isWordChar (h.1 c hc)
  · simpa using (by simpa using h : ∀ c ∈ token, Unicode.isBlank c = false) c hc

namespace Text

/-- A pattern without a character matches before that character only. -/
theorem isPrefixOf_append_cons {pattern a rest : Text} {b : Char} (h : b ∉ pattern) :
    pattern.isPrefixOf (a ++ b :: rest) = pattern.isPrefixOf a := by
  induction pattern generalizing a with
  | nil => simp
  | cons c pattern ih =>
      simp only [List.mem_cons, not_or] at h
      cases a with
      | nil => simp [List.isPrefixOf, Ne.symm h.1]
      | cons d a => simp [List.isPrefixOf, ih h.2]

theorem drop_append_cons (a rest : Text) (b : Char) (count : Nat) :
    (a ++ b :: rest).drop (count + (a.length + 1)) = rest.drop count := by
  have hcount : count + (a.length + 1) - a.length = count + 1 := by omega
  rw [List.drop_append, List.drop_eq_nil_of_le (by omega), hcount, List.nil_append,
    List.drop_succ_cons]

/-- The characters up to one behind a character are those up to it, that one, and those behind it
that are taken on their own. -/
theorem take_append_cons (a rest : Text) (b : Char) (count : Nat) :
    (a ++ b :: rest).take (count + (a.length + 1)) = a ++ b :: rest.take count := by
  have hcount : count + (a.length + 1) - a.length = count + 1 := by omega
  rw [List.take_append, List.take_of_length_le (by omega), hcount, List.take_succ_cons]

/-- Occurrences are found by their offset from any start. -/
theorem occurrencesFrom_add (pattern : Text) (offset skip more : Nat) (text : Text) :
    occurrencesFrom pattern (offset + more) skip text =
      (occurrencesFrom pattern offset skip text).map (· + more) := by
  induction text generalizing offset skip with
  | nil => rfl
  | cons c text ih =>
      have hnext : offset + more + 1 = offset + 1 + more := by omega
      cases skip with
      | succ skip => simp only [occurrencesFrom, hnext, ih]
      | zero =>
          simp only [occurrencesFrom, hnext, ih]
          split <;> simp

/-- The occurrences of a pattern that a character does not occur in are found before and behind that
character. -/
theorem occurrencesFrom_append_cons {pattern : Text} {b : Char} (hpattern : pattern ≠ [])
    (hb : b ∉ pattern) (offset skip : Nat) (a rest : Text) (hskip : skip ≤ a.length) :
    occurrencesFrom pattern offset skip (a ++ b :: rest) =
      occurrencesFrom pattern offset skip a ++
        occurrencesFrom pattern (offset + a.length + 1) 0 rest := by
  -- The induction is on the text before the character. A match ends before the character, so what
  -- is skipped after it does too.
  induction a generalizing offset skip with
  | nil =>
      obtain rfl : skip = 0 := by simpa using hskip
      have hmatch : pattern.isPrefixOf (b :: rest) = false := by
        cases pattern with
        | nil => exact absurd rfl hpattern
        | cons c pattern =>
            have hc : c ≠ b := fun h => hb (h ▸ .head _)
            simp [List.isPrefixOf, hc]
      simp [occurrencesFrom, hmatch]
  | cons c a ih =>
      have hlength : offset + 1 + a.length + 1 = offset + (a.length + 1) + 1 := by omega
      cases skip with
      | succ skip =>
          simp only [List.cons_append, occurrencesFrom, List.length_cons]
          rw [ih (offset + 1) skip (by simpa using hskip), hlength]
      | zero =>
          simp only [List.cons_append, occurrencesFrom, List.length_cons]
          rw [← List.cons_append, isPrefixOf_append_cons hb]
          split
          · next hmatch =>
              have hle := (List.isPrefixOf_iff_prefix.mp hmatch).length_le
              rw [ih (offset + 1) _ (by simp at hle; omega), hlength]
              rfl
          · rw [ih (offset + 1) 0 (Nat.zero_le _), hlength]

/-- An occurrence of a pattern is where the pattern stands in the text. -/
theorem drop_of_mem_occurrencesFrom {pattern : Text} {offset skip start : Nat} {text : Text}
    (h : start ∈ occurrencesFrom pattern offset skip text) :
    offset ≤ start ∧ pattern <+: text.drop (start - offset) := by
  induction text generalizing offset skip with
  | nil => cases h
  | cons c text ih =>
      have hnext {skip : Nat} (h : start ∈ occurrencesFrom pattern (offset + 1) skip text) :
          offset ≤ start ∧ pattern <+: (c :: text).drop (start - offset) := by
        obtain ⟨hle, hdrop⟩ := ih h
        refine ⟨by omega, ?_⟩
        rwa [show start - offset = start - (offset + 1) + 1 by omega, List.drop_succ_cons]
      cases skip with
      | succ skip => exact hnext h
      | zero =>
          unfold occurrencesFrom at h
          split at h
          · next hmatch =>
              rcases List.mem_cons.mp h with rfl | h
              · exact ⟨Nat.le_refl _, by simpa using List.isPrefixOf_iff_prefix.mp hmatch⟩
              · exact hnext h
          · exact hnext h

end Text

namespace Text

/-- The character is part of no word and of no number. -/
structure IsBreak (b : Char) : Prop where
  word : isWordChar b = false
  point : b ≠ '.'

namespace IsBreak

variable {b : Char}

theorem of_blank (h : Unicode.isBlank b = true) : IsBreak b :=
  ⟨isWordChar_of_blank h, Unicode.forall_blank (P := fun c => c ≠ '.') (by decide) h⟩

theorem digit (h : IsBreak b) : Decimal.isDigit b = false := by
  rw [← Bool.not_eq_true]
  intro hdigit
  have hword := h.word
  rw [isWordChar_of_isDigit hdigit] at hword
  cases hword

theorem exponent (h : IsBreak b) : b ≠ 'e' ∧ b ≠ 'E' := by
  have hletters : isWordChar 'e' = true ∧ isWordChar 'E' = true := by decide
  constructor
  · rintro rfl
    exact absurd h.word (by simp [hletters.1])
  · rintro rfl
    exact absurd h.word (by simp [hletters.2])

end IsBreak

end Text

namespace OperatorToken

variable {b : Char} (hb : Text.IsBreak b)
include hb

/-- A break behind the text after a token makes no difference to the token. -/
theorem fits_append_cons (token head rest more : Text) :
    fits token head (rest ++ b :: more) = fits token head rest := by
  have hhead (p : Char → Bool) (hp : p b = false) :
      (rest ++ b :: more).head?.any p = rest.head?.any p := by
    cases rest with
    | nil => simp [hp]
    | cons => rfl
  unfold fits standsAlone belongsToExponent
  rw [hhead _ hb.word, hhead _ hb.digit]

/-- The characters of a mantissa end at a break. -/
theorem mantissa_append_cons (isMantissa : Char → Bool) (hmantissa : isMantissa b = false)
    (mantissa more : Text) :
    (mantissa ++ b :: more).takeWhile isMantissa = mantissa.takeWhile isMantissa ∧
      ((mantissa ++ b :: more).dropWhile isMantissa).head?.any Text.isWordChar =
        (mantissa.dropWhile isMantissa).head?.any Text.isWordChar := by
  induction mantissa with
  | nil => simp [hmantissa, hb.word]
  | cons c mantissa ih =>
      by_cases hc : isMantissa c = true
      · simp [hc, ih.1, ih.2]
      · simp [hc]

/-- A break before the text in front of a token makes no difference to the token. -/
theorem fits_cons_append (token more head rest : Text) :
    fits token (more ++ b :: head) rest = fits token head rest := by
  have hlast : (more ++ b :: head).getLast?.any Text.isWordChar =
      head.getLast?.any Text.isWordChar := by
    cases head with
    | nil => simp [hb.word]
    | cons c head =>
        rw [List.append_cons, List.getLast?_append_of_ne_nil _ (List.cons_ne_nil c head)]
  -- An exponent belongs to a mantissa, which ends at the break if it reaches that far.
  have hexponent : belongsToExponent (more ++ b :: head) rest = belongsToExponent head rest := by
    unfold belongsToExponent
    rw [List.reverse_append, List.reverse_cons, List.append_assoc, List.singleton_append]
    cases head.reverse with
    | nil =>
        simp [hb.exponent.1, hb.exponent.2]
    | cons c mantissa =>
        obtain ⟨htake, hdrop⟩ := mantissa_append_cons hb
          (fun c => Decimal.isDigit c || c == '.') (by simp [hb.digit, hb.point]) mantissa
          more.reverse
        simp only [List.cons_append, htake, hdrop]
  unfold fits standsAlone
  rw [hlast, hexponent]

end OperatorToken

namespace Occurrence

/-- The occurrence some characters further on. -/
def shift (more : Nat) (occurrence : Occurrence) : Occurrence :=
  { occurrence with start := occurrence.start + more }

@[simp] theorem stop_shift (more : Nat) (occurrence : Occurrence) :
    (occurrence.shift more).stop = occurrence.stop + more := by
  simp only [stop, shift]
  omega

end Occurrence

namespace OperatorToken

/-- An occurrence of a token is where the token stands in the text, and counts there. -/
theorem mem_occurrences {operator : OperatorToken} {text : Text} {occurrence : Occurrence}
    (h : occurrence ∈ operator.occurrences text) :
    occurrence.level = operator.level ∧ occurrence.token = operator.token ∧
      operator.token <+: text.drop occurrence.start ∧
      fits operator.token (text.take occurrence.start) (text.drop occurrence.stop) = true := by
  obtain ⟨start, hstart, rfl⟩ := List.mem_map.mp h
  obtain ⟨hstart, hfits⟩ := List.mem_filter.mp hstart
  refine ⟨rfl, rfl, ?_, hfits⟩
  unfold Text.occurrences at hstart
  split at hstart
  · cases hstart
  · exact (Text.drop_of_mem_occurrencesFrom hstart).2

/-- An occurrence ends inside the text. -/
theorem stop_le_of_mem {operator : OperatorToken} {text : Text} {occurrence : Occurrence}
    (h : occurrence ∈ operator.occurrences text) (hnonempty : operator.token ≠ []) :
    occurrence.stop ≤ text.length := by
  obtain ⟨-, htoken, hdrop, -⟩ := mem_occurrences h
  have hle := hdrop.length_le
  have hpos := List.length_pos_iff.mpr hnonempty
  rw [List.length_drop] at hle
  rw [Occurrence.stop, htoken]
  omega

/-- The places where a token counts are those before a break and those behind it. -/
theorem occurrences_append_cons {operator : OperatorToken} {b : Char}
    (hb : Text.IsBreak b) (hnonempty : operator.token ≠ []) (htoken : b ∉ operator.token)
    (a rest : Text) :
    operator.occurrences (a ++ b :: rest) = operator.occurrences a ++
      (operator.occurrences rest).map (Occurrence.shift (a.length + 1)) := by
  have hpos := List.length_pos_iff.mpr hnonempty
  have hempty : operator.token.isEmpty = false := by simpa using hnonempty
  simp only [occurrences, Text.occurrences, hempty, Bool.false_eq_true, if_false]
  rw [Text.occurrencesFrom_append_cons hnonempty htoken 0 0 a rest (Nat.zero_le _),
    Nat.add_assoc, Text.occurrencesFrom_add, List.filter_append, List.map_append, List.filter_map,
    List.map_map, List.map_map]
  congr 1
  · congr 1
    refine List.filter_congr ?_
    intro start hstart
    have hle := (Text.drop_of_mem_occurrencesFrom hstart).2.length_le
    rw [List.length_drop] at hle
    rw [List.take_append_of_le_length (by omega), List.drop_append_of_le_length (by omega),
      fits_append_cons hb]
  · congr 1
    refine List.filter_congr ?_
    intro start _
    show fits _ (List.take (start + (a.length + 1)) _)
      (List.drop (start + (a.length + 1) + operator.token.length) _) = _
    rw [Text.take_append_cons, Nat.add_right_comm, Text.drop_append_cons, fits_cons_append hb]

end OperatorToken

namespace Occurrence

theorem reads_trans (a b c : Occurrence) (hab : reads a b = true) (hbc : reads b c = true) :
    reads a c = true := by
  simp only [reads, Bool.or_eq_true, Bool.and_eq_true, decide_eq_true_eq, beq_iff_eq] at *
  omega

theorem reads_total (a b : Occurrence) : (reads a b || reads b a) = true := by
  simp only [reads, Bool.or_eq_true, Bool.and_eq_true, decide_eq_true_eq, beq_iff_eq]
  omega

theorem reads_shift (more : Nat) (a b : Occurrence) :
    reads (a.shift more) (b.shift more) = reads a b := by
  have hstart : (a.start + more == b.start + more) = (a.start == b.start) := by
    rw [Bool.eq_iff_iff, beq_iff_eq, beq_iff_eq]
    omega
  simp only [reads, shift, hstart, Nat.add_lt_add_iff_right]
  rfl

/-- Shifting all occurrences shifts those that are kept. -/
theorem keepDisjoint_shift (more covered : Nat) (occurrences : List Occurrence) :
    keepDisjoint (covered + more) (occurrences.map (shift more)) =
      (keepDisjoint covered occurrences).map (shift more) := by
  induction occurrences generalizing covered with
  | nil => rfl
  | cons first rest ih =>
      have hstart : (first.shift more).start = first.start + more := rfl
      by_cases hcovered : first.start < covered
      · rw [List.map_cons, keepDisjoint, keepDisjoint, if_pos (by omega), if_pos hcovered, ih]
      · rw [List.map_cons, keepDisjoint, keepDisjoint, if_neg (by omega), if_neg hcovered,
          List.map_cons, stop_shift, ih]

/-- Occurrences that start in what is covered are not kept. -/
theorem keepDisjoint_of_lt {covered : Nat} {occurrences : List Occurrence}
    (h : ∀ o ∈ occurrences, o.start < covered) : keepDisjoint covered occurrences = [] := by
  induction occurrences with
  | nil => rfl
  | cons first rest ih =>
      rw [List.forall_mem_cons] at h
      rw [keepDisjoint, if_pos h.1]
      exact ih h.2

/-- Occurrences behind a place are kept as if nothing before that place were covered. -/
theorem keepDisjoint_of_le {covered place : Nat} {occurrences : List Occurrence}
    (hcovered : covered ≤ place) (h : ∀ o ∈ occurrences, place ≤ o.start) :
    keepDisjoint covered occurrences = keepDisjoint place occurrences := by
  cases occurrences with
  | nil => rfl
  | cons first rest =>
      have hfirst := h first (.head _)
      rw [keepDisjoint, keepDisjoint, if_neg (by omega), if_neg (by omega)]

/-- Occurrences behind a place are kept apart from those that end before it. -/
theorem keepDisjoint_append {covered place : Nat} {before behind : List Occurrence}
    (hcovered : covered ≤ place) (hbefore : ∀ o ∈ before, o.stop ≤ place)
    (hbehind : ∀ o ∈ behind, place ≤ o.start) :
    keepDisjoint covered (before ++ behind) =
      keepDisjoint covered before ++ keepDisjoint place behind := by
  induction before generalizing covered with
  | nil => exact keepDisjoint_of_le hcovered hbehind
  | cons first rest ih =>
      rw [List.forall_mem_cons] at hbefore
      rw [List.cons_append, keepDisjoint, keepDisjoint]
      split
      · exact ih hcovered hbefore.2
      · rw [List.cons_append, ih hbefore.1 hbefore.2]

/-- Kept occurrences are occurrences, and start behind what is covered. -/
theorem mem_of_keepDisjoint {covered : Nat} {occurrences : List Occurrence} {o : Occurrence}
    (h : o ∈ keepDisjoint covered occurrences) : o ∈ occurrences := by
  induction occurrences generalizing covered with
  | nil => cases h
  | cons first rest ih =>
      rw [keepDisjoint] at h
      split at h
      · exact .tail _ (ih h)
      · rcases List.mem_cons.mp h with rfl | h
        · exact .head _
        · exact .tail _ (ih h)

end Occurrence

namespace Grammar

/-- The places where tokens count, token by token. -/
def found (grammar : Grammar) (text : Text) : List Occurrence :=
  grammar.operatorTokens.flatMap (·.occurrences text)

/-- The places where tokens count, in the order of reading. -/
def ordered (grammar : Grammar) (text : Text) : List Occurrence :=
  (grammar.found text).mergeSort Occurrence.reads

theorem occurrences_eq (grammar : Grammar) (text : Text) :
    grammar.occurrences text = Occurrence.keepDisjoint 0 (grammar.ordered text) :=
  rfl

variable {grammar : Grammar}

theorem mem_ordered {text : Text} {o : Occurrence} :
    o ∈ grammar.ordered text ↔ o ∈ grammar.found text :=
  List.mem_mergeSort

theorem pairwise_ordered (grammar : Grammar) (text : Text) :
    (grammar.ordered text).Pairwise fun a b => Occurrence.reads a b = true :=
  List.pairwise_mergeSort Occurrence.reads_trans Occurrence.reads_total _

/-- An occurrence is found where its token stands in the text, and counts there. -/
theorem mem_found {text : Text} {o : Occurrence} (h : o ∈ grammar.found text) :
    ⟨o.token, o.level⟩ ∈ grammar.operatorTokens ∧ o.token <+: text.drop o.start ∧
      OperatorToken.fits o.token (text.take o.start) (text.drop o.stop) = true := by
  obtain ⟨operator, hoperator, ho⟩ := List.mem_flatMap.mp h
  obtain ⟨hlevel, htoken, hdrop, hfits⟩ := OperatorToken.mem_occurrences ho
  rw [hlevel, htoken]
  exact ⟨hoperator, hdrop, hfits⟩

theorem mem_found_of_mem {text : Text} {o : Occurrence} (h : o ∈ grammar.occurrences text) :
    o ∈ grammar.found text :=
  mem_ordered.mp (Occurrence.mem_of_keepDisjoint h)

variable (hgrammar : grammar.Lexical)
include hgrammar

theorem stop_le_of_found {text : Text} {o : Occurrence} (h : o ∈ grammar.found text) :
    o.stop ≤ text.length := by
  obtain ⟨operator, hoperator, ho⟩ := List.mem_flatMap.mp h
  exact OperatorToken.stop_le_of_mem ho (hgrammar.nonempty operator hoperator)

theorem level_unique {a b : OperatorToken} (ha : a ∈ grammar.operatorTokens)
    (hb : b ∈ grammar.operatorTokens) (h : a.token = b.token) : a = b :=
  List.inj_on_of_nodup_map hgrammar.distinct ha hb h

/-- Two occurrences at one place with tokens of one length are the same. -/
theorem eq_of_reads {text : Text} {a b : Occurrence} (ha : a ∈ grammar.found text)
    (hb : b ∈ grammar.found text) (hab : a.reads b = true) (hba : b.reads a = true) : a = b := by
  obtain ⟨hamem, hadrop, -⟩ := mem_found ha
  obtain ⟨hbmem, hbdrop, -⟩ := mem_found hb
  simp only [Occurrence.reads, Bool.or_eq_true, Bool.and_eq_true, decide_eq_true_eq,
    beq_iff_eq] at hab hba
  have hstart : a.start = b.start := by omega
  have hlength : a.token.length = b.token.length := by omega
  have htoken : a.token = b.token := by
    rw [hstart] at hadrop
    exact (List.prefix_of_prefix_length_le hadrop hbdrop (by omega)).eq_of_length hlength
  have hlevel := level_unique hgrammar hamem hbmem htoken
  cases a
  cases b
  simp_all

/-- The places where tokens count in a text that a blank divides are, in some order, those in its
parts. -/
theorem found_blank {b : Char} (hb : Unicode.isBlank b = true) (a rest : Text) :
    (grammar.found (a ++ b :: rest)).Perm (grammar.found a ++
      (grammar.found rest).map (Occurrence.shift (a.length + 1))) := by
  have hsplit : grammar.found (a ++ b :: rest) = grammar.operatorTokens.flatMap fun operator =>
      operator.occurrences a ++
        (operator.occurrences rest).map (Occurrence.shift (a.length + 1)) := by
    refine List.flatMap_congr ?_
    intro operator hoperator
    refine OperatorToken.occurrences_append_cons (.of_blank hb)
      (hgrammar.nonempty operator hoperator) ?_ a rest
    intro hmem
    have hnot := isBlank_of_isToken (hgrammar.shaped operator hoperator) hmem
    rw [hb] at hnot
    cases hnot
  have hmap : (grammar.found rest).map (Occurrence.shift (a.length + 1)) =
      grammar.operatorTokens.flatMap fun operator =>
        (operator.occurrences rest).map (Occurrence.shift (a.length + 1)) :=
    List.map_flatMap
  rw [hsplit, hmap]
  exact (List.flatMap_append_perm _ _ _).symm

/-- In the order of reading, the places where tokens count before a blank come first. -/
theorem ordered_blank {b : Char} (hb : Unicode.isBlank b = true) (a rest : Text) :
    grammar.ordered (a ++ b :: rest) = grammar.ordered a ++
      (grammar.ordered rest).map (Occurrence.shift (a.length + 1)) := by
  have hperm := found_blank hgrammar hb a rest
  have hsides := (List.mergeSort_perm (grammar.found a) Occurrence.reads).append
    ((List.mergeSort_perm (grammar.found rest) Occurrence.reads).map
      (Occurrence.shift (a.length + 1)))
  -- Both sides are the same places in order, and no two different places are read at once.
  refine List.Perm.eq_of_pairwise (fun x y hx hy hxy hyx => ?_) (pairwise_ordered grammar _) ?_ ?_
  · have hyfound := hperm.symm.subset (hsides.subset hy)
    exact eq_of_reads hgrammar (mem_ordered.mp hx) hyfound hxy hyx
  · refine List.pairwise_append.mpr ⟨pairwise_ordered grammar a, ?_, fun x hx y hy => ?_⟩
    · rw [List.pairwise_map]
      exact (pairwise_ordered grammar rest).imp fun h => (Occurrence.reads_shift _ _ _).trans h
    · obtain ⟨y, -, rfl⟩ := List.mem_map.mp hy
      have hstop := stop_le_of_found hgrammar (mem_ordered.mp hx)
      have hlt : x.start < y.start + (a.length + 1) := by
        unfold Occurrence.stop at hstop
        omega
      simp [Occurrence.reads, Occurrence.shift, hlt]
  · exact (List.mergeSort_perm _ _).trans (hperm.trans hsides.symm)

/-- The operators of a text that a blank divides are those of its parts. -/
theorem occurrences_blank {b : Char} (hb : Unicode.isBlank b = true) (a rest : Text) :
    grammar.occurrences (a ++ b :: rest) = grammar.occurrences a ++
      (grammar.occurrences rest).map (Occurrence.shift (a.length + 1)) := by
  have hbefore : ∀ o ∈ grammar.ordered a, o.stop ≤ a.length + 1 := by
    intro o ho
    have hstop := stop_le_of_found hgrammar (mem_ordered.mp ho)
    omega
  have hbehind : ∀ o ∈ (grammar.ordered rest).map (Occurrence.shift (a.length + 1)),
      a.length + 1 ≤ o.start := by
    rw [List.forall_mem_map]
    intro o _
    show a.length + 1 ≤ o.start + (a.length + 1)
    omega
  have hshift := Occurrence.keepDisjoint_shift (a.length + 1) 0 (grammar.ordered rest)
  rw [Nat.zero_add] at hshift
  rw [occurrences_eq, occurrences_eq, occurrences_eq, ordered_blank hgrammar hb,
    Occurrence.keepDisjoint_append (Nat.zero_le _) hbefore hbehind, hshift]

end Grammar

end Reckon
