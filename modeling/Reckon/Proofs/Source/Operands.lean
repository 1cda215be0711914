import Reckon.Proofs.Source.Lexemes
import Reckon.Source.Literal

/-!
# Operands that refer to nothing

An operand without a generated name is a literal or a parameter: `Expr.ofLeaf?`. None of them has a
blank inside, so an operand that a blank divides is neither, which is what lets a blank divide the
reading of a flat expression.
-/

namespace Reckon

/-- The tree of an operand that is a literal or a parameter. -/
def Expr.ofLeaf? (text : Text) : Option Expr :=
  match Literal.ofText text with
  | .ok (some (.name name)) => some (.parameter (String.ofList name))
  | .ok (some literal) => literal.value?.map fun value => .constant ⟨value, some text⟩
  | _ => none

namespace Literal

theorem isBlank_of_isBlank {c : Char} (h : isBlank c = true) : Unicode.isBlank c = true := by
  simp only [isBlank, Bool.or_eq_true, beq_iff_eq] at h
  rcases h with (((rfl | rfl) | rfl) | rfl) | rfl <;> decide

/-- The characters of a float. -/
def isFloatPart (c : Char) : Bool :=
  Decimal.isDigit c || c == '.' || c == 'e' || c == 'E' || c == '+' || c == '-'

theorem classes_of_blank {c : Char} (h : Unicode.isBlank c = true) :
    Hex.isDigit c = false ∧ isFloatPart c = false ∧ c ≠ '0' ∧ c ≠ 'x' ∧ c ≠ 'X' :=
  Unicode.forall_blank (P := fun c => Hex.isDigit c = false ∧ isFloatPart c = false ∧
    c ≠ '0' ∧ c ≠ 'x' ∧ c ≠ 'X') (by decide) h

theorem isFloatPart_of_digits {text : Text} (h : Decimal.isDigits text = true) :
    ∀ c ∈ text, isFloatPart c = true := by
  simp only [Decimal.isDigits, Bool.and_eq_true, List.all_eq_true] at h
  intro c hc
  simp [isFloatPart, h.2 c hc]

/-- An exponent is a letter, a sign or none, and digits. -/
theorem exists_of_isExponent {text : Text} (h : isExponent text = true) :
    ∃ letter sign digits, text = letter :: (sign ++ digits) ∧ (letter = 'e' ∨ letter = 'E') ∧
      (sign = [] ∨ sign = ['+'] ∨ sign = ['-']) ∧ Decimal.isDigits digits = true := by
  have hsign {rest : Text} (h : Decimal.isDigits (Decimal.splitSign rest).2 = true) :
      ∃ sign digits, rest = sign ++ digits ∧ (sign = [] ∨ sign = ['+'] ∨ sign = ['-']) ∧
        Decimal.isDigits digits = true := by
    unfold Decimal.splitSign at h
    split at h
    · next digits => exact ⟨['-'], digits, rfl, .inr (.inr rfl), h⟩
    · next digits => exact ⟨['+'], digits, rfl, .inr (.inl rfl), h⟩
    · exact ⟨[], rest, rfl, .inl rfl, h⟩
  unfold isExponent at h
  split at h
  · obtain ⟨sign, digits, rfl, hsign, hdigits⟩ := hsign h
    exact ⟨'e', sign, digits, rfl, .inl rfl, hsign, hdigits⟩
  · obtain ⟨sign, digits, rfl, hsign, hdigits⟩ := hsign h
    exact ⟨'E', sign, digits, rfl, .inr rfl, hsign, hdigits⟩
  · cases h

/-- A float is a mantissa of digits and points, with an exponent or without. -/
theorem exists_of_isFloat {text : Text} (h : isFloat text = true) :
    ∃ mantissa exponent, text = mantissa ++ exponent ∧
      (∀ c ∈ mantissa, Decimal.isDigit c = true ∨ c = '.') ∧
      (∃ c ∈ mantissa, Decimal.isDigit c = true) ∧
      (exponent = [] ∨ isExponent exponent = true) := by
  have hrun (text : Text) :
      ∀ c ∈ text.takeWhile Decimal.isDigit, Decimal.isDigit c = true ∨ c = '.' :=
    fun c hc => .inl (List.mem_takeWhile_imp hc)
  have hsome {text : Text} (h : (text.takeWhile Decimal.isDigit).isEmpty = false) :
      ∃ c ∈ text.takeWhile Decimal.isDigit, Decimal.isDigit c = true := by
    obtain ⟨c, hc⟩ := List.exists_mem_of_ne_nil _ (List.isEmpty_eq_false_iff.mp h)
    exact ⟨c, hc, List.mem_takeWhile_imp hc⟩
  have htext := text.takeWhile_append_dropWhile (p := Decimal.isDigit)
  simp only [isFloat] at h
  split at h
  · next rest hrest =>
      simp only [Bool.and_eq_true, Bool.or_eq_true, Bool.not_eq_true', List.isEmpty_iff] at h
      rw [hrest] at htext
      refine ⟨text.takeWhile Decimal.isDigit ++ '.' :: rest.takeWhile Decimal.isDigit,
        rest.dropWhile Decimal.isDigit, ?_, ?_, ?_, h.2⟩
      · rw [List.append_assoc, List.cons_append, List.takeWhile_append_dropWhile, htext]
      · exact List.forall_mem_append.mpr ⟨hrun text, List.forall_mem_cons.mpr ⟨.inr rfl, hrun rest⟩⟩
      · obtain ⟨c, hc, hdigit⟩ := hsome h.1
        exact ⟨c, List.mem_append_right _ (.tail _ hc), hdigit⟩
  · simp only [Bool.and_eq_true, Bool.not_eq_true'] at h
    exact ⟨_, _, htext.symm, hrun text, hsome h.1, .inr h.2⟩

/-- A float is made of characters of floats. -/
theorem isFloatPart_of_float {text : Text} (h : isFloat text = true) :
    ∀ c ∈ text, isFloatPart c = true := by
  obtain ⟨mantissa, exponent, rfl, hmantissa, -, hexponent⟩ := exists_of_isFloat h
  refine List.forall_mem_append.mpr ⟨fun c hc => ?_, ?_⟩
  · rcases hmantissa c hc with hdigit | rfl
    · simp [isFloatPart, hdigit]
    · decide
  · rcases hexponent with rfl | hexponent
    · exact List.forall_mem_nil _
    · obtain ⟨letter, sign, digits, rfl, hletter, hsign, hdigits⟩ := exists_of_isExponent hexponent
      refine List.forall_mem_cons.mpr
        ⟨?_, List.forall_mem_append.mpr ⟨?_, isFloatPart_of_digits hdigits⟩⟩
      · rcases hletter with rfl | rfl <;> decide
      · rcases hsign with rfl | rfl | rfl <;> simp [isFloatPart]

/-- Hex digits behind `0x` have no blank. -/
theorem isBlank_of_hexDigits {word digits : Text} (h : hexDigits? word = some digits) {c : Char}
    (hc : c ∈ word) : Unicode.isBlank c = false := by
  have hdigits {x : Char} {rest : Text} (hx : x = 'x' ∨ x = 'X')
      (hrest : rest.all Hex.isDigit = true) (hc : c ∈ '0' :: x :: rest) :
      Unicode.isBlank c = false := by
    cases hblank : Unicode.isBlank c with
    | false => rfl
    | true =>
        obtain ⟨hhex, -, hzero, hxc, hXc⟩ := classes_of_blank hblank
        rcases List.mem_cons.mp hc with rfl | hc
        · exact absurd rfl hzero
        · rcases List.mem_cons.mp hc with rfl | hc
          · rcases hx with rfl | rfl
            · exact absurd rfl hxc
            · exact absurd rfl hXc
          · rw [List.all_eq_true.mp hrest c hc] at hhex
            cases hhex
  unfold hexDigits? at h
  split at h
  · next rest =>
      split at h
      · next hrest => exact hdigits (.inl rfl) hrest hc
      · cases h
  · next rest =>
      split at h
      · next hrest => exact hdigits (.inr rfl) hrest hc
      · cases h
  · cases h

/-- A name is a word. -/
theorem isWordChar_of_name {word : Text} (h : isName word = true) {c : Char} (hc : c ∈ word) :
    Text.isWordChar c = true := by
  refine isWordChar_of_isNamePart ?_
  cases word with
  | nil => cases hc
  | cons first rest =>
      rw [isName, Bool.and_eq_true, List.all_eq_true] at h
      rcases List.mem_cons.mp hc with rfl | hc
      · exact isNamePart_of_isNameStart h.1
      · exact h.2 c hc

theorem isBlank_of_name {word : Text} (h : isName word = true) {c : Char} (hc : c ∈ word) :
    Unicode.isBlank c = false :=
  isBlank_of_isWordChar (isWordChar_of_name h hc)

/-- A token has no blank. -/
theorem isBlank_of_isToken {word : Text} (h : isToken word = true) {c : Char} (hc : c ∈ word) :
    Unicode.isBlank c = false := by
  have hfloatPart (hword : ∀ c ∈ word, isFloatPart c = true) : Unicode.isBlank c = false := by
    cases hblank : Unicode.isBlank c with
    | false => rfl
    | true =>
        have hclass := (classes_of_blank hblank).2.1
        rw [hword c hc] at hclass
        cases hclass
  rw [isToken, Bool.or_eq_true, Bool.or_eq_true, Bool.or_eq_true] at h
  rcases h with ((hdigits | hhex) | hfloat) | hname
  · exact hfloatPart (isFloatPart_of_digits hdigits)
  · obtain ⟨digits, hdigits⟩ := Option.isSome_iff_exists.mp hhex
    exact isBlank_of_hexDigits hdigits hc
  · exact hfloatPart (isFloatPart_of_float hfloat)
  · exact isBlank_of_name hname hc

/-- What is no token is nothing. -/
theorem ofWord_of_not_isToken {word : Text} (h : isToken word = false) :
    ofWord word = .ok none := by
  rw [isToken, Bool.or_eq_false_iff, Bool.or_eq_false_iff, Bool.or_eq_false_iff] at h
  obtain ⟨⟨⟨hdigits, hhex⟩, hfloat⟩, hname⟩ := h
  have hkeyword {keyword : Text} (hkeyword : isName keyword = true) : word ≠ keyword := by
    rintro rfl
    rw [hname] at hkeyword
    cases hkeyword
  rw [Option.isSome_eq_false_iff, Option.isNone_iff_eq_none] at hhex
  rw [ofWord, hdigits, hhex, hfloat, hname, if_neg (hkeyword (by decide)),
    if_neg (hkeyword (by decide))]
  rfl

theorem isBlank_of_ofWord {word : Text} {literal : Literal}
    (h : ofWord word = .ok (some literal)) {c : Char} (hc : c ∈ word) :
    Unicode.isBlank c = false := by
  cases htoken : isToken word with
  | false => cases (ofWord_of_not_isToken htoken).symm.trans h
  | true => exact isBlank_of_isToken htoken hc

/-- A word that is read as a name is one. -/
theorem isName_of_ofWord {word name : Text} (h : ofWord word = .ok (some (.name name))) :
    isName name = true := by
  unfold ofWord at h
  repeat' split at h
  all_goals try cases h
  · obtain ⟨x, -, hx⟩ := Option.map_eq_some_iff.mp (Except.ok.inj h)
    cases hx
  · assumption

/-- Where no longest token is found there is none. -/
theorem isToken_of_longest_eq_none {text : Text} {bound : Nat} (h : longest? text bound = none) :
    ∀ length ≤ bound, 0 < length → isToken (text.take length) = false := by
  induction bound with
  | zero => omega
  | succ bound ih =>
      rw [longest?] at h
      split at h
      · cases h
      · next hnot =>
          intro length hle hpos
          rcases Nat.lt_or_eq_of_le hle with hlt | rfl
          · exact ih h length (Nat.le_of_lt_succ hlt) hpos
          · exact Bool.eq_false_iff.mpr hnot

/-- The longest token is one, and no longer prefix is. -/
theorem isToken_of_longest_eq_some {text : Text} {bound length : Nat}
    (h : longest? text bound = some length) :
    length ≤ bound ∧ isToken (text.take length) = true ∧
      ∀ longer ≤ bound, length < longer → isToken (text.take longer) = false := by
  induction bound with
  | zero => cases h
  | succ bound ih =>
      rw [longest?] at h
      split at h
      · next htoken =>
          cases h
          exact ⟨Nat.le_refl _, htoken, fun longer hle hlt => absurd hle (Nat.not_le_of_lt hlt)⟩
      · next hnot =>
          obtain ⟨hle, htoken, hlonger⟩ := ih h
          refine ⟨Nat.le_succ_of_le hle, htoken, ?_⟩
          intro longer hlongerLe hlt
          rcases Nat.lt_or_eq_of_le hlongerLe with hlongerLt | rfl
          · exact hlonger longer (Nat.le_of_lt_succ hlongerLt) hlt
          · exact Bool.eq_false_iff.mpr hnot

/-- No token reaches into the blanks behind a word. -/
theorem le_of_isToken {word blanks : Text} (hblanks : ∀ c ∈ blanks, isBlank c = true) {length : Nat}
    (hle : length ≤ (word ++ blanks).length) (h : isToken ((word ++ blanks).take length) = true) :
    length ≤ word.length := by
  refine Nat.le_of_not_lt fun hlt => ?_
  rw [List.length_append] at hle
  obtain ⟨c, rest, rfl⟩ : ∃ c rest, blanks = c :: rest :=
    List.exists_cons_of_length_pos (by omega)
  obtain ⟨more, hmore⟩ : ∃ more, length - word.length = more + 1 :=
    ⟨length - word.length - 1, by omega⟩
  have hmem : c ∈ (word ++ c :: rest).take length := by
    rw [List.take_append, hmore, List.take_succ_cons]
    exact List.mem_append_right _ (.head _)
  have hblank := isBlank_of_isBlank (hblanks c (.head _))
  rw [isBlank_of_isToken h hmem] at hblank
  cases hblank

/-- A text is what it is without the blanks around it, read as a whole: the longest token at its
start either ends with it, or leaves something that is no blank. -/
theorem ofText_eq_ofWord (text : Text) : ofText text = ofWord (Text.trimWhile isBlank text) := by
  have hsplit := Text.dropEndWhile_append isBlank (text.dropWhile isBlank)
  have hblanks := Text.forall_mem_takeEndWhile isBlank (text.dropWhile isBlank)
  have hlast := Text.getLast_trimWhile isBlank text
  unfold ofText
  rw [Text.trimWhile] at hlast ⊢
  generalize Text.dropEndWhile isBlank (text.dropWhile isBlank) = word at hsplit hlast ⊢
  generalize Text.takeEndWhile isBlank (text.dropWhile isBlank) = blanks at hsplit hblanks
  simp only [← hsplit]
  have hbound : word.length ≤ (word ++ blanks).length := by
    rw [List.length_append]
    omega
  cases hlongest : longest? (word ++ blanks) (word ++ blanks).length with
  | none =>
      have hnone : isToken word = false := by
        rcases Nat.eq_zero_or_pos word.length with hzero | hpos
        · rw [List.length_eq_zero_iff.mp hzero]
          decide
        · have htake := isToken_of_longest_eq_none hlongest word.length hbound hpos
          rwa [List.take_left] at htake
      exact (ofWord_of_not_isToken hnone).symm
  | some length =>
      obtain ⟨hle, htoken, hlonger⟩ := isToken_of_longest_eq_some hlongest
      rcases Nat.lt_or_eq_of_le (le_of_isToken hblanks hle htoken) with hlt | rfl
      · have hnone := hlonger word.length hbound hlt
        rw [List.take_left] at hnone
        have hrest : ((word ++ blanks).drop length).all isBlank = false := by
          rw [Bool.eq_false_iff, ne_eq, List.all_eq_true]
          intro hall
          cases hword : word.getLast? with
          | none =>
              rw [List.getLast?_eq_none_iff.mp hword] at hlt
              exact Nat.not_lt_zero _ hlt
          | some c =>
              have hc : c ∈ (word ++ blanks).drop length := by
                rw [List.drop_append_of_le_length (Nat.le_of_lt hlt)]
                refine List.mem_append_left _ (List.mem_of_getLast? ?_)
                rw [List.getLast?_drop, if_neg (Nat.not_le_of_lt hlt), hword]
              rw [hword, Option.any_some, hall c hc] at hlast
              cases hlast
        simp only [hrest, Bool.false_eq_true, if_false, ofWord_of_not_isToken hnone]
      · have hrest : ((word ++ blanks).drop word.length).all isBlank = true := by
          rw [List.drop_left, List.all_eq_true]
          exact hblanks
        simp only [hrest, if_true, List.take_left]

theorem isName_of_ofText {text name : Text} (h : ofText text = .ok (some (.name name))) :
    isName name = true := by
  rw [ofText_eq_ofWord] at h
  exact isName_of_ofWord h

end Literal

/-- An operand that a blank divides is neither a literal nor a parameter. -/
theorem Expr.ofLeaf_of_divided {text : Text} (h : text.Divided) : ofLeaf? text = none := by
  have hnone {edge : Option Char} (h : edge.any Unicode.isBlank = false) :
      edge.any Literal.isBlank = false := by
    cases edge with
    | none => rfl
    | some c =>
        cases hc : Literal.isBlank c with
        | false => exact hc
        | true =>
            rw [Option.any_some, Literal.isBlank_of_isBlank hc] at h
            cases h
  have htrim : Text.trimWhile Literal.isBlank text = text :=
    Text.trimWhile_eq_self (hnone h.head) (hnone h.last)
  obtain ⟨c, hc, hblank⟩ := h.blank
  rw [ofLeaf?, Literal.ofText_eq_ofWord, htrim]
  cases hword : Literal.ofWord text with
  | error fault => rfl
  | ok found =>
      cases found with
      | none => rfl
      | some literal =>
          have hnot := Literal.isBlank_of_ofWord hword hc
          rw [hblank] at hnot
          cases hnot

end Reckon
