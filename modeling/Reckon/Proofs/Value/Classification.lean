import Reckon.Proofs.Number.Integer
import Reckon.Proofs.Value.Bytes

/-!
# What counts as a literal

`Literal.ofText_iff` says for every text which literal, name or error it is. The text without the
blanks around it is compared with the shapes of literals, which are stated here character by
character: no scanner occurs in them.
-/

namespace Reckon

namespace Decimal

/-- A run of digits of ASCII. -/
def Digits (text : Text) : Prop :=
  text ≠ [] ∧ ∀ c ∈ text, c.isDigit = true

theorem isDigits_iff {text : Text} : isDigits text = true ↔ Digits text := by
  rw [isDigits, Bool.and_eq_true, Bool.not_eq_true', List.isEmpty_eq_false_iff, List.all_eq_true]
  exact Iff.rfl

/-- A run of digits ends where something else starts. -/
theorem span_digits {digits rest : Text} (hdigits : ∀ c ∈ digits, c.isDigit = true)
    (hrest : rest.head?.any isDigit = false) :
    (digits ++ rest).takeWhile isDigit = digits ∧ (digits ++ rest).dropWhile isDigit = rest := by
  rw [List.takeWhile_append_of_pos (p := isDigit) hdigits,
    List.dropWhile_append_of_pos (p := isDigit) hdigits]
  cases rest with
  | nil => exact ⟨List.append_nil _, rfl⟩
  | cons c rest =>
      rw [List.head?_cons, Option.any_some, ← Bool.not_eq_true] at hrest
      rw [List.takeWhile_cons_of_neg hrest, List.dropWhile_cons_of_neg hrest, List.append_nil]
      exact ⟨rfl, rfl⟩

/-- The integer of a run of digits is their number, if it is in range. -/
theorem readInt64_digits {digits : Text} (h : Digits digits) :
    readInt64? digits = fit? (ofDigits digits) := by
  have hdigits := isDigits_iff.mpr h
  rw [readInt64?, readInt?, splitSign_of_isDigits hdigits]
  show (if isDigits digits = true then some _ else none).bind fit? = _
  rw [if_pos hdigits, Exact.signed, if_neg Bool.false_ne_true, Option.bind_some]

theorem fits_iff {n : Nat} : Fits n ↔ n ≤ 2 ^ 63 - 1 := by
  unfold Fits
  omega

end Decimal

namespace Literal

open Decimal (Digits isDigits_iff)

/-- The exponent of a float: a letter, a sign or none, and digits. -/
inductive ExponentShape : Text → Prop where
  | mk {letter : Char} {sign digits : Text} (hletter : letter = 'e' ∨ letter = 'E')
      (hsign : sign = [] ∨ sign = ['+'] ∨ sign = ['-']) (hdigits : Digits digits) :
      ExponentShape (letter :: (sign ++ digits))

/-- The three shapes of floats. -/
inductive FloatShape : Text → Prop where
  | decimal {whole fraction exponent : Text} (hwhole : Digits whole) (hfraction : Digits fraction)
      (hexponent : exponent = [] ∨ ExponentShape exponent) :
      FloatShape (whole ++ '.' :: (fraction ++ exponent))
  | fraction {fraction exponent : Text} (hfraction : Digits fraction)
      (hexponent : exponent = [] ∨ ExponentShape exponent) :
      FloatShape ('.' :: (fraction ++ exponent))
  | scientific {whole exponent : Text} (hwhole : Digits whole)
      (hexponent : ExponentShape exponent) : FloatShape (whole ++ exponent)

/-- Hex digits behind `0x` or `0X`. -/
def HexShape (digits word : Text) : Prop :=
  (word = '0' :: 'x' :: digits ∨ word = '0' :: 'X' :: digits) ∧ ∀ c ∈ digits, Hex.HexDigit c

/-- A letter or an underscore, and behind it letters, numbers and underscores. -/
def NameShape (word : Text) : Prop :=
  ∃ first rest, word = first :: rest ∧ (Unicode.isLetter first = true ∨ first = '_') ∧
    ∀ c ∈ rest, Unicode.isLetter c = true ∨ Unicode.isNumber c = true ∨ c = '_'

/-- The name of a truth value. -/
def keyword (b : Bool) : Text :=
  (if b then "true" else "false").toList

/-- What a word is: a literal of its shape, an error if it has a shape of numbers or bytes that none
has, or nothing if it has no shape. -/
inductive Reads (word : Text) : Except SyntaxFault (Option Literal) → Prop where
  | integer (h : Digits word) (hrange : Decimal.ofDigits word ≤ 2 ^ 63 - 1) :
      Reads word (.ok (some (.integer word)))
  | outOfRange (h : Digits word) (hrange : 2 ^ 63 - 1 < Decimal.ofDigits word) :
      Reads word (.error (.integerOutOfRange word))
  | bytes {digits : Text} (h : HexShape digits word) (heven : digits.length % 2 = 0) :
      Reads word (.ok (some (.bytes digits)))
  | oddDigits {digits : Text} (h : HexShape digits word) (hodd : digits.length % 2 = 1) :
      Reads word (.error (.oddHexDigits digits))
  | float {x : Float} (h : FloatShape word) (hx : Decimal.readFloat? word = some x) :
      Reads word (.ok (some (.float x)))
  | boolean (b : Bool) (h : word = keyword b) : Reads word (.ok (some (.boolean b)))
  | name (h : NameShape word) (hkeyword : ∀ b, word ≠ keyword b) :
      Reads word (.ok (some (.name word)))
  | nothing (hdigits : ¬Digits word) (hbytes : ∀ digits, ¬HexShape digits word)
      (hfloat : ¬FloatShape word) (hname : ¬NameShape word) : Reads word (.ok none)

/-- The value that a literal stands for. A name stands for none. -/
inductive Denotes : Literal → Option Value → Prop where
  | integer {digits : Text} {i : Int64} (h : i.toInt = Decimal.ofDigits digits) :
      Denotes (.integer digits) (some (.integer i))
  | bytes {digits : Text} {bytes : List UInt8} (h : Hex.encode bytes = digits.map Char.toLower) :
      Denotes (.bytes digits) (some (.byteArray bytes))
  | float (x : Float) : Denotes (.float x) (some (.float x))
  | boolean (b : Bool) : Denotes (.boolean b) (some (.boolean b))
  | name (name : Text) : Denotes (.name name) none

/-- Exponents are recognized. -/
theorem isExponent_iff {text : Text} : isExponent text = true ↔ ExponentShape text := by
  constructor
  · intro h
    obtain ⟨letter, sign, digits, rfl, hletter, hsign, hdigits⟩ := exists_of_isExponent h
    exact .mk hletter hsign (isDigits_iff.mp hdigits)
  · rintro ⟨hletter, hsign, hdigits⟩
    have hdigits := isDigits_iff.mpr hdigits
    rcases hletter with rfl | rfl
    all_goals
      rcases hsign with rfl | rfl | rfl
      · show Decimal.isDigits (Decimal.splitSign _).2 = true
        rwa [List.nil_append, Decimal.splitSign_of_isDigits hdigits]
      · exact hdigits
      · exact hdigits

theorem head_of_exponent {exponent : Text} (h : exponent = [] ∨ ExponentShape exponent) :
    exponent.head?.any Decimal.isDigit = false := by
  rcases h with rfl | ⟨hletter, -, -⟩
  · rfl
  · rcases hletter with rfl | rfl <;> rfl

theorem digits_takeWhile {text : Text} (h : (text.takeWhile Decimal.isDigit).isEmpty = false) :
    Digits (text.takeWhile Decimal.isDigit) :=
  ⟨List.isEmpty_eq_false_iff.mp h, fun _ hc => List.mem_takeWhile_imp hc⟩

/-- Digits or none, a point and digits are a float, with or without an exponent. -/
theorem isFloat_point {whole fraction exponent : Text} (hwhole : ∀ c ∈ whole, c.isDigit = true)
    (hfraction : Digits fraction) (hexponent : exponent = [] ∨ ExponentShape exponent) :
    isFloat (whole ++ '.' :: (fraction ++ exponent)) = true := by
  have hpoint : (('.' :: (fraction ++ exponent)).head?.any Decimal.isDigit) = false := rfl
  obtain ⟨hdigits, hrest⟩ := Decimal.span_digits hfraction.2 (head_of_exponent hexponent)
  simp only [isFloat, (Decimal.span_digits hwhole hpoint).2, hdigits, hrest,
    List.isEmpty_eq_false_iff.mpr hfraction.1, Bool.not_false, Bool.true_and, Bool.or_eq_true,
    List.isEmpty_iff, isExponent_iff]
  exact hexponent

/-- Floats are recognized. -/
theorem isFloat_iff {text : Text} : isFloat text = true ↔ FloatShape text := by
  constructor
  · intro h
    have htext := text.takeWhile_append_dropWhile (p := Decimal.isDigit)
    simp only [isFloat] at h
    split at h
    · next rest hrest =>
        simp only [Bool.and_eq_true, Bool.or_eq_true, Bool.not_eq_true', List.isEmpty_iff,
          isExponent_iff] at h
        have hfraction := digits_takeWhile h.1
        rw [← htext, hrest, ← rest.takeWhile_append_dropWhile (p := Decimal.isDigit)]
        by_cases hwhole : text.takeWhile Decimal.isDigit = []
        · rw [hwhole]
          exact .fraction hfraction h.2
        · exact .decimal (digits_takeWhile (List.isEmpty_eq_false_iff.mpr hwhole)) hfraction h.2
    · rw [Bool.and_eq_true, Bool.not_eq_true', isExponent_iff] at h
      rw [← htext]
      exact .scientific (digits_takeWhile h.1) h.2
  · intro h
    cases h with
    | decimal hwhole hfraction hexponent => exact isFloat_point hwhole.2 hfraction hexponent
    | fraction hfraction hexponent =>
        exact isFloat_point (List.forall_mem_nil _) hfraction hexponent
    | @scientific whole exponent hwhole hexponent =>
        obtain ⟨hdigits, hrest⟩ := Decimal.span_digits hwhole.2 (head_of_exponent (.inr hexponent))
        have hnonempty := List.isEmpty_eq_false_iff.mpr hwhole.1
        simp only [isFloat, hdigits, hrest, hnonempty]
        split
        · next heq =>
            cases hexponent with
            | mk hletter =>
                rcases hletter with h | h <;> exact absurd h (by decide)
        · exact isExponent_iff.mpr hexponent

/-- Bytes are recognized. -/
theorem hexDigits_eq_some_iff {word digits : Text} :
    hexDigits? word = some digits ↔ HexShape digits word := by
  have hall (digits : Text) : digits.all Hex.isDigit = true ↔ ∀ c ∈ digits, Hex.HexDigit c := by
    rw [List.all_eq_true]
    exact forall₂_congr fun c _ => Hex.isDigit_iff
  constructor
  · intro h
    unfold hexDigits? at h
    split at h
    · obtain ⟨hdigits, heq⟩ := Option.ite_none_right_eq_some.mp h
      cases heq
      exact ⟨.inl rfl, (hall _).mp hdigits⟩
    · obtain ⟨hdigits, heq⟩ := Option.ite_none_right_eq_some.mp h
      cases heq
      exact ⟨.inr rfl, (hall _).mp hdigits⟩
    · cases h
  · rintro ⟨rfl | rfl, hdigits⟩
    · exact if_pos ((hall _).mpr hdigits)
    · exact if_pos ((hall _).mpr hdigits)

/-- Names are recognized. -/
theorem isName_iff {word : Text} : isName word = true ↔ NameShape word := by
  have hstart (c : Char) : isNameStart c = true ↔ Unicode.isLetter c = true ∨ c = '_' := by
    rw [isNameStart, Bool.or_eq_true, beq_iff_eq]
  have hpart (c : Char) : isNamePart c = true ↔
      Unicode.isLetter c = true ∨ Unicode.isNumber c = true ∨ c = '_' := by
    rw [isNamePart, Bool.or_eq_true, Bool.or_eq_true, beq_iff_eq, or_assoc]
  cases word with
  | nil => exact iff_of_false Bool.false_ne_true (by rintro ⟨first, rest, heq, -⟩; cases heq)
  | cons first rest =>
      rw [isName, Bool.and_eq_true, List.all_eq_true, hstart, forall₂_congr fun c _ => hpart c]
      constructor
      · rintro ⟨hfirst, hrest⟩
        exact ⟨first, rest, rfl, hfirst, hrest⟩
      · rintro ⟨first, rest, heq, hfirst, hrest⟩
        cases heq
        exact ⟨hfirst, hrest⟩

/-- An exponent has a value. -/
theorem exists_readExponent {exponent : Text} (h : exponent = [] ∨ ExponentShape exponent) :
    ∃ e, Decimal.readExponent? exponent = some e := by
  rcases h with rfl | h
  · exact ⟨0, rfl⟩
  · cases h with
    | @mk letter sign digits hletter hsign hdigits =>
        have hrest : Decimal.isDigits (Decimal.splitSign (sign ++ digits)).2 = true := by
          have hdigits := isDigits_iff.mpr hdigits
          rcases hsign with rfl | rfl | rfl
          · rwa [List.nil_append, Decimal.splitSign_of_isDigits hdigits]
          · exact hdigits
          · exact hdigits
        exact ⟨_, if_pos ⟨hletter, hrest⟩⟩

/-- Digits or none, a point and digits have a value. -/
theorem exists_readUnsigned_point {whole fraction exponent : Text}
    (hwhole : ∀ c ∈ whole, c.isDigit = true) (hfraction : Digits fraction)
    (hexponent : exponent = [] ∨ ExponentShape exponent) :
    ∃ x, Decimal.readUnsigned? false (whole ++ '.' :: (fraction ++ exponent)) = some x := by
  have hpoint : (('.' :: (fraction ++ exponent)).head?.any Decimal.isDigit) = false := rfl
  obtain ⟨hdigits, hrest⟩ := Decimal.span_digits hfraction.2 (head_of_exponent hexponent)
  obtain ⟨e, he⟩ := exists_readExponent hexponent
  simp [Decimal.readUnsigned?, Decimal.span_digits hwhole hpoint, hdigits, hrest, hfraction.1, he]

/-- A float has a value. -/
theorem exists_readFloat {word : Text} (h : FloatShape word) :
    ∃ x, Decimal.readFloat? word = some x := by
  have hsigned {word : Text} (hsign : Decimal.splitSign word = (false, word))
      (hvalue : ∃ x, Decimal.readUnsigned? false word = some x) :
      ∃ x, Decimal.readFloat? word = some x := by
    obtain ⟨x, hx⟩ := hvalue
    refine ⟨x, ?_⟩
    rw [Decimal.readFloat?, hsign]
    show (Decimal.readUnsigned? false word).orElse _ = _
    rw [hx, Option.orElse_some]
  have hhead {whole : Text} (hwhole : Digits whole) (rest : Text) :
      Decimal.splitSign (whole ++ rest) = (false, whole ++ rest) := by
    refine Decimal.splitSign_of_head ?_
    rw [List.head?_append_of_ne_nil _ hwhole.1]
    exact Decimal.head_of_isDigits (isDigits_iff.mpr hwhole)
  cases h with
  | decimal hwhole hfraction hexponent =>
      exact hsigned (hhead hwhole _) (exists_readUnsigned_point hwhole.2 hfraction hexponent)
  | fraction hfraction hexponent =>
      exact hsigned rfl (exists_readUnsigned_point (List.forall_mem_nil _) hfraction hexponent)
  | @scientific whole exponent hwhole hexponent =>
      refine hsigned (hhead hwhole _) ?_
      obtain ⟨hdigits, hrest⟩ := Decimal.span_digits hwhole.2 (head_of_exponent (.inr hexponent))
      obtain ⟨e, he⟩ := exists_readExponent (.inr hexponent)
      cases hexponent with
      | mk hletter =>
          rcases hletter with rfl | rfl <;>
            simp [Decimal.readUnsigned?, hdigits, hrest, hwhole.1, he]

theorem isDigits_of_hexShape {digits word : Text} (h : HexShape digits word) :
    Decimal.isDigits word = false := by
  rcases h.1 with rfl | rfl <;> rw [Decimal.isDigits, List.all_cons, List.all_cons] <;> rfl

/-- Floats are no digits, and no bytes. -/
theorem not_isDigits_of_isFloat {word : Text} (h : isFloat word = true) :
    Decimal.isDigits word = false ∧ hexDigits? word = none := by
  constructor
  · cases hdigits : Decimal.isDigits word with
    | false => rfl
    | true =>
        have hrest : word.dropWhile Decimal.isDigit = [] :=
          List.dropWhile_eq_nil_iff.mpr (isDigits_iff.mp hdigits).2
        simp [isFloat, hrest, isExponent] at h
  · cases hhex : hexDigits? word with
    | none => rfl
    | some digits =>
        rcases (hexDigits_eq_some_iff.mp hhex).1 with rfl | rfl <;>
          exact absurd h Bool.false_ne_true

/-- Every word is read as something: it has one of the shapes, or none. -/
theorem exists_reads (word : Text) : ∃ outcome, Reads word outcome := by
  by_cases hdigits : Digits word
  · by_cases hrange : Decimal.ofDigits word ≤ 2 ^ 63 - 1
    · exact ⟨_, .integer hdigits hrange⟩
    · exact ⟨_, .outOfRange hdigits (Nat.lt_of_not_le hrange)⟩
  by_cases hhex : ∃ digits, HexShape digits word
  · obtain ⟨digits, hshape⟩ := hhex
    rcases Nat.mod_two_eq_zero_or_one digits.length with heven | hodd
    · exact ⟨_, .bytes hshape heven⟩
    · exact ⟨_, .oddDigits hshape hodd⟩
  by_cases hfloat : FloatShape word
  · obtain ⟨x, hx⟩ := exists_readFloat hfloat
    exact ⟨_, .float hfloat hx⟩
  by_cases hname : NameShape word
  · by_cases hkeyword : ∃ b, word = keyword b
    · obtain ⟨b, h⟩ := hkeyword
      exact ⟨_, .boolean b h⟩
    · exact ⟨_, .name hname (not_exists.mp hkeyword)⟩
  · exact ⟨_, .nothing hdigits (not_exists.mp hhex) hfloat hname⟩

/-- A word that is read as something is classified so. -/
theorem ofWord_of_reads {word : Text} {outcome : Except SyntaxFault (Option Literal)}
    (h : Reads word outcome) : ofWord word = outcome := by
  cases h with
  | integer h hrange =>
      obtain ⟨i, hi, -⟩ := fit_of_fits (Decimal.fits_iff.mpr hrange)
      rw [ofWord, if_pos (isDigits_iff.mpr h), Decimal.readInt64_digits h, hi]
  | outOfRange h hrange =>
      have hnot := Decimal.fits_iff.not.mpr (Nat.not_le_of_lt hrange)
      rw [ofWord, if_pos (isDigits_iff.mpr h), Decimal.readInt64_digits h, fit_eq_none hnot]
  | bytes h heven =>
      rw [ofWord, isDigits_of_hexShape h, hexDigits_eq_some_iff.mpr h]
      exact if_pos heven
  | oddDigits h hodd =>
      rw [ofWord, isDigits_of_hexShape h, hexDigits_eq_some_iff.mpr h]
      exact if_neg (Nat.mod_two_ne_zero.mpr hodd)
  | float h hx =>
      have hfloat := isFloat_iff.mpr h
      obtain ⟨hdigits, hhex⟩ := not_isDigits_of_isFloat hfloat
      rw [ofWord, hdigits, hhex, hfloat, hx]
      rfl
  | boolean b h =>
      rw [h]
      cases b <;> rfl
  | name h hkeyword => exact ofWord_name (isName_iff.mpr h) (hkeyword true) (hkeyword false)
  | nothing hdigits hbytes hfloat hname =>
      refine ofWord_of_not_isToken ?_
      have hhex : hexDigits? word = none :=
        Option.eq_none_iff_forall_ne_some.mpr fun digits h =>
          hbytes digits (hexDigits_eq_some_iff.mp h)
      rw [isToken, Bool.eq_false_iff.mpr (isDigits_iff.not.mpr hdigits), hhex,
        Bool.eq_false_iff.mpr (isFloat_iff.not.mpr hfloat),
        Bool.eq_false_iff.mpr (isName_iff.not.mpr hname)]
      rfl

/-- A word is what it is read as. -/
theorem ofWord_iff {word : Text} {outcome : Except SyntaxFault (Option Literal)} :
    ofWord word = outcome ↔ Reads word outcome := by
  constructor
  · rintro rfl
    obtain ⟨outcome, h⟩ := exists_reads word
    rwa [ofWord_of_reads h]
  · exact ofWord_of_reads

/-- A literal has the value that it stands for. -/
theorem denotes_of_reads {word : Text} {literal : Literal}
    (h : Reads word (.ok (some literal))) : literal.Denotes literal.value? := by
  cases h with
  | integer h hrange =>
      obtain ⟨i, hi, hvalue⟩ := fit_of_fits (Decimal.fits_iff.mpr hrange)
      rw [value?, Decimal.readInt64_digits h, hi]
      exact .integer hvalue
  | bytes h heven =>
      obtain ⟨bytes, hdecode, hencode⟩ := Hex.exists_decode h.2 heven
      rw [value?, hdecode]
      exact .bytes hencode
  | float => exact .float _
  | boolean b => exact .boolean b
  | name => exact .name word

/-- The blanks that may surround a literal. -/
def blanks : List Char :=
  [' ', '\t', '\r', '\n', '\x0c']

/-- The text is the word with blanks around it, and the word neither starts nor ends with one. -/
def Surrounds (text word : Text) : Prop :=
  ∃ before after, text = before ++ word ++ after ∧ (∀ c ∈ before ++ after, c ∈ blanks) ∧
    (∀ c ∈ word.head?, c ∉ blanks) ∧ ∀ c ∈ word.getLast?, c ∉ blanks

/-- A text is its trimmed word with blanks around it. -/
theorem surrounds_trimWhile (text : Text) : Surrounds text (Text.trimWhile isBlank text) := by
  have hblank (c : Char) : isBlank c = true ↔ c ∈ blanks := by
    simp [isBlank, blanks, or_assoc]
  have hedge {edge : Option Char} (h : edge.any isBlank = false) : ∀ c ∈ edge, c ∉ blanks := by
    rintro c rfl hmem
    rw [Option.any_some, (hblank c).mpr hmem] at h
    cases h
  obtain ⟨before, after, htext, hbefore, hafter⟩ := Text.exists_trimWhile isBlank text
  refine ⟨before, after, htext, ?_, hedge (Text.head_trimWhile isBlank text),
    hedge (Text.getLast_trimWhile isBlank text)⟩
  refine List.forall_mem_append.mpr ⟨?_, ?_⟩
  · exact fun c hc => (hblank c).mp (hbefore c hc)
  · exact fun c hc => (hblank c).mp (hafter c hc)

/-- A text is classified as the word that is left of it without the blanks around it: by the shape
of the whole word, with an error for a number out of range and for half a byte, and as nothing if
it has no shape. Every literal that is found has the value that it stands for, floats included. -/
theorem ofText_iff (text : Text) :
    ∃ word, Surrounds text word ∧ (∀ outcome, ofText text = outcome ↔ Reads word outcome) ∧
      (∀ literal, ofText text = .ok (some literal) → literal.Denotes literal.value?) ∧
      ((∃ x, ofText text = .ok (some (.float x))) ↔ FloatShape word) := by
  refine ⟨Text.trimWhile isBlank text, surrounds_trimWhile text, ?_⟩
  rw [ofText_eq_ofWord]
  generalize Text.trimWhile isBlank text = word
  refine ⟨fun outcome => ofWord_iff, fun literal h => denotes_of_reads (ofWord_iff.mp h), ?_, ?_⟩
  · rintro ⟨x, hx⟩
    cases ofWord_iff.mp hx with
    | float h => exact h
  · intro h
    obtain ⟨x, hx⟩ := exists_readFloat h
    exact ⟨x, ofWord_iff.mpr (.float h hx)⟩

end Literal

end Reckon
