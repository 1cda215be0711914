import Mathlib.Data.List.Basic
import Reckon.Proofs.Grammar.Checked
import Reckon.Proofs.Source.Operands
import Reckon.Proofs.Source.Scanning

/-!
# Operators are located exactly

The scans for the tokens of a grammar do not know of each other, and what they find is thinned
afterwards. `occurrences_exact` says what is left in any text: words are the maximal runs of word
characters that are tokens, no operator is inside a float, and a symbol is missed only where another
operator covers its first character, an earlier match of it overlaps it, or it is the sign of an
exponent.
-/

namespace Reckon

namespace Text

variable {before word after : Text}

/-- What stands in a text between two places of a part stands in the part. -/
theorem exists_inside {part piece first last : Text}
    (h : before ++ part ++ after = first ++ piece ++ last) (hfirst : before.length ≤ first.length)
    (hlast : first.length + piece.length ≤ before.length + part.length) :
    ∃ head tail, first = before ++ head ∧ part = head ++ piece ++ tail ∧ last = tail ++ after := by
  have hbefore : before <+: before ++ part ++ after := ⟨part ++ after, by rw [List.append_assoc]⟩
  have hwhole : first <+: before ++ part ++ after := ⟨piece ++ last, by rw [h, List.append_assoc]⟩
  obtain ⟨head, rfl⟩ := List.prefix_of_prefix_length_le hbefore hwhole hfirst
  have hrest : part ++ after = head ++ piece ++ last := by
    simpa only [List.append_assoc, List.append_right_inj] using h
  have hpiece : head ++ piece <+: part ++ after := ⟨last, hrest.symm⟩
  have hlength : (head ++ piece).length ≤ part.length := by
    rw [List.length_append] at hlast ⊢
    omega
  obtain ⟨tail, rfl⟩ :=
    List.prefix_of_prefix_length_le hpiece (List.prefix_append part after) hlength
  rw [List.append_assoc (head ++ piece), List.append_right_inj] at hrest
  exact ⟨head, tail, rfl, rfl, hrest.symm⟩

theorem IsRun.ne_nil (h : IsRun before word after) : word ≠ [] := by
  rintro rfl
  exact absurd h.word (by decide)

theorem IsRun.forall_mem (h : IsRun before word after) : ∀ c ∈ word, isWordChar c = true := by
  have hword := h.word
  rw [isWord, Bool.and_eq_true, List.all_eq_true] at hword
  exact hword.2

/-- A run is what can be read of word characters from its first one on. -/
theorem IsRun.takeWhile_eq (h : IsRun before word after) :
    (word ++ after).takeWhile isWordChar = word := by
  rw [List.takeWhile_append_of_pos h.forall_mem]
  cases hafter : after with
  | nil => simp
  | cons c rest => simp [h.after c (by rw [hafter]; rfl)]

/-- What is made of word characters and reaches behind the place where a run begins does not begin
before it. -/
theorem IsRun.le_start {pattern text : Text} {start : Nat} (h : IsRun before word after)
    (htext : text = before ++ word ++ after) (hmatch : pattern <+: text.drop start)
    (hpattern : ∀ c ∈ pattern, isWordChar c = true)
    (hreach : before.length < start + pattern.length) : before.length ≤ start := by
  by_contra hstart
  -- The last character before the run would be one of the pattern.
  have hle : start ≤ before.length - 1 := by omega
  obtain ⟨c, hc, hplace⟩ := exists_mem_of_match hmatch hle (by omega)
  have hlast : before.getLast? = some c := by
    rw [List.getLast?_eq_getElem?, ← hplace, htext, List.append_assoc,
      List.getElem?_append_left (by omega)]
  have hnot := h.before c hlast
  rw [hpattern c hc] at hnot
  cases hnot

end Text

namespace Literal

/-- A sign in a float stands behind the letter of its exponent and in front of the digits, and
nowhere else. -/
theorem exists_of_sign_mem {number : Text} {sign : Char} (h : isFloat number = true)
    (hsign : sign = '+' ∨ sign = '-') (hmem : sign ∈ number) :
    ∃ mantissa letter digits, number = (mantissa ++ [letter]) ++ sign :: digits ∧
      (∀ c ∈ mantissa, Decimal.isDigit c = true ∨ c = '.') ∧
      (∃ c ∈ mantissa, Decimal.isDigit c = true) ∧ (letter = 'e' ∨ letter = 'E') ∧
      Decimal.isDigits digits = true ∧ sign ∉ mantissa ++ [letter] ∧ sign ∉ digits := by
  obtain ⟨hdigit, hpoint, hlower, hupper⟩ :
      Decimal.isDigit sign = false ∧ sign ≠ '.' ∧ sign ≠ 'e' ∧ sign ≠ 'E' := by
    rcases hsign with rfl | rfl <;> decide
  obtain ⟨mantissa, exponent, rfl, hmantissa, hsome, hexponent⟩ := exists_of_isFloat h
  have hnotMantissa : sign ∉ mantissa := by
    intro hmem
    rcases hmantissa sign hmem with hmem | hmem
    · rw [hdigit] at hmem
      cases hmem
    · exact hpoint hmem
  have hmem := (List.mem_append.mp hmem).resolve_left hnotMantissa
  obtain ⟨letter, other, digits, rfl, hletter, hother, hdigits⟩ :=
    exists_of_isExponent (hexponent.resolve_left (List.ne_nil_of_mem hmem))
  have hnotLetter : sign ≠ letter := by
    rcases hletter with rfl | rfl
    · exact hlower
    · exact hupper
  have hnotDigits : sign ∉ digits := by
    intro hmem
    rw [Decimal.isDigits, Bool.and_eq_true, List.all_eq_true] at hdigits
    rw [hdigits.2 sign hmem] at hdigit
    cases hdigit
  have hmem := (List.mem_cons.mp hmem).resolve_left hnotLetter
  have hmem := (List.mem_append.mp hmem).resolve_right hnotDigits
  obtain rfl : other = [sign] := by
    rcases hother with rfl | rfl | rfl
    · cases hmem
    · rw [List.mem_singleton.mp hmem]
    · rw [List.mem_singleton.mp hmem]
  refine ⟨mantissa, letter, digits, ?_, hmantissa, hsome, hletter, hdigits, ?_, hnotDigits⟩
  · rw [List.append_assoc]
    rfl
  · rw [List.mem_append, List.mem_singleton, not_or]
    exact ⟨hnotMantissa, hnotLetter⟩

/-- A sign in a float that does not continue what stands before it is the sign of an exponent. -/
theorem isExponentSign_of_isFloat {before head token tail after : Text}
    (h : isFloat (head ++ token ++ tail) = true) (htoken : token = ['+'] ∨ token = ['-'])
    (hbefore : ∀ c ∈ before.getLast?, Text.IsBreak c) :
    Text.IsExponentSign (before ++ head) (tail ++ after) := by
  obtain ⟨sign, rfl, hsign⟩ : ∃ sign, token = [sign] ∧ (sign = '+' ∨ sign = '-') := by
    rcases htoken with rfl | rfl
    · exact ⟨'+', rfl, .inl rfl⟩
    · exact ⟨'-', rfl, .inr rfl⟩
  rw [List.append_assoc, List.singleton_append] at h
  obtain ⟨mantissa, letter, digits, hparts, hmantissa, hsome, hletter, hdigits, hhead, htail⟩ :=
    exists_of_sign_mem h hsign (List.mem_append_right _ (.head _))
  obtain ⟨rfl, -, rfl⟩ := (List.append_cons_inj_of_notMem hhead htail).mp hparts.symm
  rw [Decimal.isDigits, Bool.and_eq_true, List.all_eq_true, Bool.not_eq_true'] at hdigits
  obtain ⟨digit, rest, rfl⟩ := List.exists_cons_of_ne_nil (List.isEmpty_eq_false_iff.mp hdigits.1)
  rw [← List.append_assoc, List.cons_append]
  exact .intro hletter hmantissa hsome hbefore (hdigits.2 digit (.head _))

end Literal

namespace OperatorToken

theorem isWord_of_mem {token : Text} (h : Grammar.isToken token = true) {c : Char} (hc : c ∈ token)
    (hword : Text.isWordChar c = true) : Text.isWord token = true := by
  have hany : token.any Text.isWordChar = true := List.any_eq_true.mpr ⟨c, hc, hword⟩
  rw [Grammar.isToken, if_pos hany, Bool.and_eq_true] at h
  rw [Text.isWord, Bool.and_eq_true]
  exact ⟨by simpa using List.ne_nil_of_mem hc, h.1⟩

/-- Of the tokens of operators only the two signs have characters of floats. -/
theorem isSign_of_isFloatPart {token : Text}
    (h : (BinaryOperator.ofToken? token).isSome = true ∨
      (UnaryOperator.ofToken? token).isSome = true)
    {c : Char} (hc : c ∈ token) (hpart : Literal.isFloatPart c = true) :
    token = ['+'] ∨ token = ['-'] := by
  have hany : token.any Literal.isFloatPart = true := List.any_eq_true.mpr ⟨c, hc, hpart⟩
  clear hc
  -- Every token of the two tables is looked at.
  rcases h with h | h
  · unfold BinaryOperator.ofToken? at h
    split at h <;> first | cases h; done | exact (by decide : _ → _) hany
  · unfold UnaryOperator.ofToken? at h
    split at h <;> first | cases h; done | exact (by decide : _ → _) hany

end OperatorToken

namespace Grammar

variable {grammar : Grammar} {text : Text}

/-- What is looked for are the tokens of the grammar. -/
theorem mem_tokens {token : Text} :
    token ∈ grammar.tokens ↔ ∃ level, ⟨token, level⟩ ∈ grammar.operatorTokens := by
  simp only [tokens, operatorTokens, List.mem_append, List.mem_map, List.mem_filter,
    List.mem_eraseDups]
  constructor
  · rintro (⟨entry, hentry, rfl⟩ | htoken)
    · exact ⟨some entry.1, .inl ⟨entry, hentry, rfl⟩⟩
    · by_cases hbinary : token ∈ grammar.operators.tokens.map (·.2)
      · obtain ⟨entry, hentry, rfl⟩ := List.mem_map.mp hbinary
        exact ⟨some entry.1, .inl ⟨entry, hentry, rfl⟩⟩
      · exact ⟨none, .inr ⟨token, ⟨htoken, by simpa using hbinary⟩, rfl⟩⟩
  · rintro ⟨level, ⟨entry, hentry, heq⟩ | ⟨other, ⟨hother, -⟩, heq⟩⟩
    · exact .inl ⟨entry, hentry, congrArg OperatorToken.token heq⟩
    · obtain rfl : other = token := congrArg OperatorToken.token heq
      exact .inr hother

theorem token_mem {o : Occurrence} (h : o ∈ grammar.occurrences text) : o.token ∈ grammar.tokens :=
  mem_tokens.mpr ⟨o.level, (mem_found (mem_found_of_mem h)).1⟩

theorem token_isPrefix {o : Occurrence} (h : o ∈ grammar.occurrences text) :
    o.token <+: text.drop o.start :=
  (mem_found (mem_found_of_mem h)).2.1

variable (hgrammar : grammar.check = .ok ())
include hgrammar

theorem shape_of_mem_tokens {token : Text} (h : token ∈ grammar.tokens) :
    token ≠ [] ∧ isToken token = true := by
  obtain ⟨level, hlevel⟩ := mem_tokens.mp h
  exact tokens_of_check hgrammar _ hlevel

/-- The tokens of the grammar stand for operators. -/
theorem operator_of_mem_tokens {token : Text} (h : token ∈ grammar.tokens) :
    (BinaryOperator.ofToken? token).isSome = true ∨
      (UnaryOperator.ofToken? token).isSome = true := by
  obtain ⟨hbinary, hfront⟩ := operators_of_check hgrammar
  rcases List.mem_append.mp h with h | h
  · obtain ⟨entry, hentry, rfl⟩ := List.mem_map.mp h
    exact .inl (hbinary entry hentry)
  · exact .inr (hfront token h)

theorem length_pos {o : Occurrence} (h : o ∈ grammar.occurrences text) : 0 < o.token.length :=
  List.length_pos_iff.mpr (shape_of_mem_tokens hgrammar (token_mem h)).1

/-- An operator stands between two parts of the text, and counts there. -/
theorem exists_standsBetween {o : Occurrence} (h : o ∈ grammar.occurrences text) :
    ∃ before after, o.StandsBetween text before after ∧
      OperatorToken.fits o.token before after = true := by
  obtain ⟨-, ⟨after, hafter⟩, hfits⟩ := mem_found (mem_found_of_mem h)
  have hpos := length_pos hgrammar h
  have hlength := congrArg List.length hafter
  rw [List.length_append, List.length_drop] at hlength
  have hstop : text.drop o.stop = after := by
    rw [Occurrence.stop, ← List.drop_drop, ← hafter, List.drop_left]
  refine ⟨text.take o.start, after, ⟨?_, ?_⟩, hstop ▸ hfits⟩
  · rw [List.append_assoc, hafter, List.take_append_drop]
  · rw [List.length_take]
    omega

/-- A match that counts is an operator, unless an earlier match of the same token overlaps it or an
operator covers where it starts. -/
theorem exists_of_fits {token before after : Text} (htoken : token ∈ grammar.tokens)
    (htext : text = before ++ token ++ after)
    (hfits : OperatorToken.fits token before after = true)
    (hfirst : ∀ earlier, earlier < before.length → token <+: text.drop earlier →
      earlier + token.length ≤ before.length) :
    (∃ o ∈ grammar.occurrences text, o.StandsBetween text before after ∧ o.token = token) ∨
      ∃ o ∈ grammar.occurrences text, o.start ≤ before.length ∧ before.length < o.stop := by
  obtain ⟨level, hlevel⟩ := mem_tokens.mp htoken
  have hnonempty := (shape_of_mem_tokens hgrammar htoken).1
  have hmem : ⟨level, before.length, token⟩ ∈ OperatorToken.occurrences ⟨token, level⟩ text :=
    OperatorToken.mem_occurrences_of_fits htext hnonempty hfits hfirst
  have hfound : ⟨level, before.length, token⟩ ∈ grammar.ordered text :=
    mem_ordered.mpr (List.mem_flatMap.mpr ⟨_, hlevel, hmem⟩)
  rcases Occurrence.kept_or_covered 0 (pairwise_ordered grammar text) hfound with
    hkept | hlt | hcovered
  · exact .inl ⟨_, hkept, ⟨htext, rfl⟩, rfl⟩
  · exact absurd hlt (Nat.not_lt_zero _)
  · exact .inr hcovered

/-- An operator that covers where a run begins is the run. -/
theorem eq_of_covers {before word after : Text} (hrun : Text.IsRun before word after)
    (htext : text = before ++ word ++ after) {o : Occurrence} (h : o ∈ grammar.occurrences text)
    (hle : o.start ≤ before.length) (hlt : before.length < o.stop) :
    o.StandsBetween text before after ∧ o.token = word := by
  have hpos : 0 < word.length := List.length_pos_iff.mpr hrun.ne_nil
  obtain ⟨c, hc, hplace⟩ := Text.exists_mem_of_match (token_isPrefix h) hle hlt
  have hchar : Text.isWordChar c = true := by
    rw [htext, List.append_assoc, List.getElem?_append_right (Nat.le_refl _), Nat.sub_self,
      List.getElem?_append_left hpos] at hplace
    exact hrun.forall_mem c (List.mem_of_getElem? hplace)
  -- So its token is a word, and a run itself. Two runs from one place are the same.
  have hword := OperatorToken.isWord_of_mem (shape_of_mem_tokens hgrammar (token_mem h)).2 hc hchar
  obtain ⟨first, last, hstands, hfits⟩ := exists_standsBetween hgrammar h
  have hother := (OperatorToken.fits_word hword).mp hfits
  have hstart : o.start = before.length :=
    Nat.le_antisymm hle (hrun.le_start htext (token_isPrefix h) hother.forall_mem hlt)
  have hbefore : first = before := by
    rw [← hstands.take_eq, hstart, htext, List.append_assoc, List.take_left]
  have hrest : o.token ++ last = word ++ after := by
    have heq := hstands.text.symm.trans htext
    rwa [hbefore, List.append_assoc, List.append_assoc, List.append_right_inj] at heq
  have htoken : o.token = word := by
    rw [← hother.takeWhile_eq, hrest, hrun.takeWhile_eq]
  exact ⟨⟨htoken ▸ htext, hstart⟩, htoken⟩

/-- The operators that are words are the maximal runs of word characters that are tokens. -/
theorem word_iff {before word after : Text} (htext : text = before ++ word ++ after) :
    (∃ o ∈ grammar.occurrences text, o.StandsBetween text before after ∧ o.token = word ∧
        Text.isWord word = true) ↔
      word ∈ grammar.wordTokens ∧ Text.IsRun before word after := by
  constructor
  · rintro ⟨o, ho, hstands, rfl, hword⟩
    obtain ⟨-, -, hfits⟩ := mem_found (mem_found_of_mem ho)
    rw [hstands.take_eq, hstands.drop_eq, OperatorToken.fits_word hword] at hfits
    exact ⟨List.mem_filter.mpr ⟨token_mem ho, hword⟩, hfits⟩
  · rintro ⟨hmem, hrun⟩
    have hfits := (OperatorToken.fits_word hrun.word).mpr hrun
    have hfirst (earlier : Nat) (hearlier : earlier < before.length)
        (hmatch : word <+: text.drop earlier) : earlier + word.length ≤ before.length := by
      by_contra hover
      have hle := hrun.le_start htext hmatch hrun.forall_mem (by omega)
      omega
    rcases exists_of_fits hgrammar (List.mem_filter.mp hmem).1 htext hfits hfirst with
      ⟨o, ho, hstands, htoken⟩ | ⟨o, ho, hle, hlt⟩
    · exact ⟨o, ho, hstands, htoken, hrun.word⟩
    · obtain ⟨hstands, htoken⟩ := eq_of_covers hgrammar hrun htext ho hle hlt
      exact ⟨o, ho, hstands, htoken, hrun.word⟩

/-- No operator is inside a float that does not continue what stands before it. -/
theorem apart_of_isFloat {before number after : Text} (htext : text = before ++ number ++ after)
    (hnumber : Literal.isFloat number = true) (hbefore : ∀ c ∈ before.getLast?, Text.IsBreak c)
    {o : Occurrence} (h : o ∈ grammar.occurrences text) :
    o.stop ≤ before.length ∨ before.length + number.length ≤ o.start := by
  by_contra hover
  rw [not_or] at hover
  have hpos : 0 < number.length := by
    rw [List.length_pos_iff]
    rintro rfl
    exact absurd hnumber (by decide)
  have hlength := length_pos hgrammar h
  obtain ⟨first, last, hstands, hfits⟩ := exists_standsBetween hgrammar h
  unfold Occurrence.stop at hover
  -- The two have a character in common, so the operator is a sign.
  have hsign : o.token = ['+'] ∨ o.token = ['-'] := by
    have hle : o.start ≤ max o.start before.length := Nat.le_max_left _ _
    obtain ⟨c, hc, hplace⟩ := Text.exists_mem_of_match (token_isPrefix h) hle (by omega)
    rw [htext, List.getElem?_append_left (by rw [List.length_append]; omega),
      List.getElem?_append_right (by omega)] at hplace
    exact OperatorToken.isSign_of_isFloatPart (operator_of_mem_tokens hgrammar (token_mem h)) hc
      (Literal.isFloatPart_of_float hnumber c (List.mem_of_getElem? hplace))
  have hone : o.token.length = 1 := by
    rcases hsign with hsign | hsign <;> rw [hsign] <;> rfl
  -- So it stands in the float, and there only an exponent has a sign.
  have hstart := hstands.start
  obtain ⟨head, tail, rfl, rfl, rfl⟩ := Text.exists_inside (htext.symm.trans hstands.text)
    (by omega) (by omega)
  have hsymbol : Text.isWord o.token = false := by
    rcases hsign with hsign | hsign <;> rw [hsign] <;> decide
  rw [OperatorToken.fits_symbol hsymbol] at hfits
  exact hfits ⟨hsign, Literal.isExponentSign_of_isFloat hnumber hsign hbefore⟩

/-- A symbol is an operator wherever it matches, unless an operator covers where it starts, an
earlier match of it overlaps it, or it is the sign of an exponent. -/
theorem symbol_cases {before token after : Text} (htext : text = before ++ token ++ after)
    (htoken : token ∈ grammar.tokens) (hsymbol : Text.isWord token = false) :
    (∃ o ∈ grammar.occurrences text, o.StandsBetween text before after ∧ o.token = token) ∨
      (∃ o ∈ grammar.occurrences text, o.start ≤ before.length ∧ before.length < o.stop) ∨
      (∃ earlier < before.length, token <+: text.drop earlier ∧
        before.length < earlier + token.length) ∨
      (token = ['+'] ∨ token = ['-']) ∧ Text.IsExponentSign before after := by
  by_cases hexponent : (token = ['+'] ∨ token = ['-']) ∧ Text.IsExponentSign before after
  · exact .inr (.inr (.inr hexponent))
  · by_cases hearlier : ∃ earlier < before.length, token <+: text.drop earlier ∧
        before.length < earlier + token.length
    · exact .inr (.inr (.inl hearlier))
    · have hfits := (OperatorToken.fits_symbol hsymbol).mpr hexponent
      have hfirst (earlier : Nat) (hlt : earlier < before.length)
          (hmatch : token <+: text.drop earlier) : earlier + token.length ≤ before.length := by
        by_contra hover
        exact hearlier ⟨earlier, hlt, hmatch, by omega⟩
      rcases exists_of_fits hgrammar htoken htext hfits hfirst with hfound | hcovered
      · exact .inl hfound
      · exact .inr (.inl hcovered)

/-- Operators are located exactly.

Their ranges of bytes follow one another without overlap, begin and end between characters, and
spell the tokens. The words among them are the maximal runs of word characters that are tokens. None
of them overlaps a float, with an exponent or without, that does not continue what stands before it,
whatever stands behind it. And a symbol is one of them wherever it matches, unless one of them
covers where it starts, an earlier match of it overlaps it, or it is the sign of an exponent. -/
theorem occurrences_exact (text : Text) :
    ((grammar.occurrences text).Pairwise fun a b =>
      text.byteOffset a.stop ≤ text.byteOffset b.start) ∧
    (∀ o ∈ grammar.occurrences text, o.token ∈ grammar.tokens ∧
      text.byteOffset o.start < text.byteOffset o.stop ∧
      ∃ before after, o.StandsBetween text before after ∧
        text.byteOffset o.start = (String.ofList before).utf8ByteSize ∧
        text.byteOffset o.stop = (String.ofList (before ++ o.token)).utf8ByteSize) ∧
    (∀ before word after, text = before ++ word ++ after →
      ((∃ o ∈ grammar.occurrences text, o.StandsBetween text before after ∧ o.token = word ∧
          Text.isWord word = true) ↔
        word ∈ grammar.wordTokens ∧ Text.IsRun before word after)) ∧
    (∀ before number after, text = before ++ number ++ after → Literal.isFloat number = true →
      (∀ c ∈ before.getLast?, Text.IsBreak c) →
      ∀ o ∈ grammar.occurrences text,
        o.stop ≤ before.length ∨ before.length + number.length ≤ o.start) ∧
    ∀ before token after, text = before ++ token ++ after → token ∈ grammar.tokens →
      Text.isWord token = false →
      (∃ o ∈ grammar.occurrences text, o.StandsBetween text before after ∧ o.token = token) ∨
      (∃ o ∈ grammar.occurrences text, o.start ≤ before.length ∧ before.length < o.stop) ∨
      (∃ earlier < before.length, token <+: text.drop earlier ∧
        before.length < earlier + token.length) ∨
      (token = ['+'] ∨ token = ['-']) ∧ Text.IsExponentSign before after := by
  refine ⟨?_, fun o ho => ⟨token_mem ho, ?_⟩, fun before word after => word_iff hgrammar,
    fun before number after htext hnumber hbefore o =>
      apart_of_isFloat hgrammar htext hnumber hbefore,
    fun before token after => symbol_cases hgrammar⟩
  · exact (Occurrence.pairwise_keepDisjoint 0 _).imp fun h => Text.byteOffset_mono text h
  · obtain ⟨before, after, hstands, -⟩ := exists_standsBetween hgrammar ho
    have hstart : text.byteOffset o.start = (String.ofList before).utf8ByteSize := by
      rw [Text.byteOffset_eq, hstands.take_eq]
    have hstop : text.byteOffset o.stop = (String.ofList (before ++ o.token)).utf8ByteSize := by
      rw [Text.byteOffset_eq, hstands.take_stop]
    refine ⟨?_, before, after, hstands, hstart, hstop⟩
    obtain ⟨c, rest, htoken⟩ := List.exists_cons_of_length_pos (length_pos hgrammar ho)
    have hsize := c.utf8Size_pos
    rw [hstart, hstop, htoken, String.ofList_append, String.utf8ByteSize_append, String.ofList_cons,
      String.utf8ByteSize_append, String.utf8ByteSize_singleton]
    omega

omit hgrammar in
/-- In the standard grammar the sign in `1e-5 or b` is part of the number, and `or` is a word. -/
theorem occurrences_exact_exponent :
    standard.check = .ok () ∧
      (∀ o ∈ standard.occurrences ['1', 'e', '-', '5', ' ', 'o', 'r', ' ', 'b'], 4 ≤ o.start) ∧
      ∃ o ∈ standard.occurrences ['1', 'e', '-', '5', ' ', 'o', 'r', ' ', 'b'],
        o.start = 5 ∧ o.token = ['o', 'r'] := by
  have hgrammar : standard.check = .ok () := rfl
  obtain ⟨-, hspelled, hwords, hfloats, -⟩ :=
    occurrences_exact hgrammar ['1', 'e', '-', '5', ' ', 'o', 'r', ' ', 'b']
  refine ⟨hgrammar, fun o ho => ?_, ?_⟩
  · rcases hfloats [] ['1', 'e', '-', '5'] [' ', 'o', 'r', ' ', 'b'] rfl rfl nofun o ho with
      hstop | hstart
    · obtain ⟨-, hlt, -⟩ := hspelled o ho
      rw [Nat.le_zero.mp hstop] at hlt
      exact absurd hlt (Nat.not_lt_zero _)
    · exact hstart
  · have hspace : Text.isWordChar ' ' = false := by decide
    have hrun : Text.IsRun ['1', 'e', '-', '5', ' '] ['o', 'r'] [' ', 'b'] := by
      refine ⟨by decide, fun c hc => ?_, fun c hc => ?_⟩
      · obtain rfl : ' ' = c := Option.some.inj hc
        exact hspace
      · obtain rfl : ' ' = c := Option.some.inj hc
        exact hspace
    obtain ⟨o, ho, hstands, htoken, -⟩ := (hwords _ _ _ rfl).mpr ⟨by decide, hrun⟩
    exact ⟨o, ho, hstands.start, htoken⟩

end Grammar

end Reckon
