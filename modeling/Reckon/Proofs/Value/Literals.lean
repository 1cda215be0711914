import Reckon.Proofs.Source.Operands
import Reckon.Proofs.Source.Names
import Reckon.Value.Basic

/-!
# Values as literals

The text of a value is a literal of that value: decimal digits of an integer that is not negative,
hex digits of bytes, and the names of the two truth values. A name is no literal, unless it is one
of those two.
-/

namespace Reckon

namespace Decimal

theorem isDigits_toDigits (n : Nat) : isDigits (Nat.toDigits 10 n) = true := by
  rw [isDigits, Bool.and_eq_true, Bool.not_eq_true', List.isEmpty_eq_false_iff, List.all_eq_true]
  refine ⟨?_, fun c hc => Nat.isDigit_of_mem_toDigits (by decide) (by decide) hc⟩
  exact List.ne_nil_of_length_pos Nat.length_toDigits_pos

theorem isWord_of_isDigits {text : Text} (h : isDigits text = true) : Text.isWord text = true := by
  rw [isDigits, Bool.and_eq_true, List.all_eq_true] at h
  rw [Text.isWord, Bool.and_eq_true, List.all_eq_true]
  exact ⟨h.1, fun c hc => isWordChar_of_isDigit (h.2 c hc)⟩

theorem head_of_isDigits {text : Text} (h : isDigits text = true) :
    text.head?.any isDigit = true := by
  cases text with
  | nil => cases h
  | cons c rest =>
      rw [isDigits, List.all_cons, Bool.and_eq_true, Bool.and_eq_true] at h
      exact h.2.1

/-- What starts with a digit has no sign. -/
theorem splitSign_of_head {text : Text} (h : text.head?.any isDigit = true) :
    splitSign text = (false, text) := by
  cases text with
  | nil => rfl
  | cons c rest =>
      rw [List.head?_cons, Option.any_some] at h
      unfold splitSign
      split
      · next heq =>
          cases heq
          exact absurd h (by decide)
      · next heq =>
          cases heq
          exact absurd h (by decide)
      · rfl

theorem splitSign_of_isDigits {text : Text} (h : isDigits text = true) :
    splitSign text = (false, text) :=
  splitSign_of_head (head_of_isDigits h)

/-- The digits of an integer behind its sign are read as that integer. -/
theorem readInt64_of_splitSign {i : Int64} {text : Text} {negative : Bool}
    (htext : splitSign text = (negative, Nat.toDigits 10 i.toInt.natAbs))
    (hsign : Exact.signed negative i.toInt.natAbs = i.toInt) : readInt64? text = some i := by
  have hvalue : readInt? text = some i.toInt := by
    rw [readInt?, htext]
    simp only [isDigits_toDigits, if_true, ofDigits, Nat.ofDigitChars_ten_toDigits, hsign]
  have hrange : -0x8000000000000000 ≤ i.toInt ∧ i.toInt < 0x8000000000000000 :=
    ⟨i.le_toInt, i.toInt_lt⟩
  rw [readInt64?, hvalue, Option.bind_some, fit?, if_pos hrange, Int64.ofInt_toInt]

theorem readInt64_toDigits {i : Int64} (h : 0 ≤ i.toInt) :
    readInt64? (Nat.toDigits 10 i.toInt.natAbs) = some i := by
  refine readInt64_of_splitSign (splitSign_of_isDigits (isDigits_toDigits _)) ?_
  rw [Exact.signed, if_neg Bool.false_ne_true, Int.natAbs_of_nonneg h]

end Decimal

namespace Hex

theorem digitValue_digitChar {n : Nat} (h : n < 16) :
    digitValue? (Nat.digitChar n) = some n ∧ Nat.digitChar n ≠ '+' := by
  have hall : ∀ n < 16, digitValue? (Nat.digitChar n) = some n ∧ Nat.digitChar n ≠ '+' := by decide
  exact hall n h

theorem lt_of_byte (byte : UInt8) : byte.toNat / 16 < 16 ∧ byte.toNat % 16 < 16 := by
  have hbyte := byte.toNat_lt
  omega

/-- The digits of bytes are those of numbers below sixteen. -/
theorem digit_of_mem_encode {bytes : List UInt8} {c : Char} (h : c ∈ encode bytes) :
    ∃ n < 16, c = Nat.digitChar n := by
  obtain ⟨byte, -, hc⟩ := List.mem_flatMap.mp h
  obtain ⟨hhigh, hlow⟩ := lt_of_byte byte
  simp only [encodeByte, List.mem_cons, List.not_mem_nil, or_false] at hc
  rcases hc with rfl | rfl
  · exact ⟨_, hhigh, rfl⟩
  · exact ⟨_, hlow, rfl⟩

theorem isDigit_encode (bytes : List UInt8) : (encode bytes).all isDigit = true := by
  rw [List.all_eq_true]
  intro c hc
  obtain ⟨n, hn, rfl⟩ := digit_of_mem_encode hc
  rw [isDigit, (digitValue_digitChar hn).1]
  rfl

/-- The digits of bytes behind `0x` are a word. -/
theorem isWord_encode (bytes : List UInt8) : Text.isWord ('0' :: 'x' :: encode bytes) = true := by
  have hall : ∀ n < 16, Text.isWordChar (Nat.digitChar n) = true := by decide
  have hmark : Text.isWordChar '0' = true ∧ Text.isWordChar 'x' = true := by decide
  have hrest : (encode bytes).all Text.isWordChar = true := by
    rw [List.all_eq_true]
    intro c hc
    obtain ⟨n, hn, rfl⟩ := digit_of_mem_encode hc
    exact hall n hn
  rw [Text.isWord, List.all_cons, List.all_cons, hmark.1, hmark.2, hrest]
  rfl

/-- Bytes have an even number of digits. -/
theorem length_encode (bytes : List UInt8) : (encode bytes).length = 2 * bytes.length := by
  induction bytes with
  | nil => rfl
  | cons byte bytes ih =>
      rw [encode, List.flatMap_cons, List.length_append, ← encode, ih, List.length_cons]
      show 2 + _ = _
      omega

/-- The digits of bytes are read as those bytes. -/
theorem decode_encode (bytes : List UInt8) : decode (encode bytes) = some bytes := by
  induction bytes with
  | nil => rfl
  | cons byte bytes ih =>
      obtain ⟨hhigh, hlow⟩ := lt_of_byte byte
      obtain ⟨hhighValue, hsign⟩ := digitValue_digitChar hhigh
      obtain ⟨hlowValue, -⟩ := digitValue_digitChar hlow
      have hbyte : UInt8.ofNat (16 * (byte.toNat / 16) + byte.toNat % 16) = byte := by
        rw [Nat.div_add_mod, UInt8.ofNat_toNat]
      show decode (Nat.digitChar (byte.toNat / 16) :: Nat.digitChar (byte.toNat % 16) ::
        encode bytes) = _
      rw [decode, byte?, if_neg hsign, hhighValue, hlowValue, ih]
      show some (UInt8.ofNat (16 * (byte.toNat / 16) + byte.toNat % 16) :: bytes) = _
      rw [hbyte]

end Hex

namespace Literal

/-- A word is read without a look at blanks. -/
theorem ofText_of_word {word : Text} (h : ∀ c ∈ word, Text.isWordChar c = true) :
    ofText word = ofWord word := by
  have htrim : Text.trimWhile isBlank word = word := by
    refine Text.trimWhile_of_forall ?_
    intro c hc
    rw [← Bool.not_eq_true]
    intro hblank
    have hword := isBlank_of_isWordChar (h c hc)
    rw [isBlank_of_isBlank hblank] at hword
    cases hword
  rw [ofText_eq_ofWord, htrim]

/-- The digits of an integer that is not negative are a literal of it. -/
theorem ofWord_integer {i : Int64} (h : 0 ≤ i.toInt) :
    ofWord (Nat.toDigits 10 i.toInt.natAbs) =
      .ok (some (.integer (Nat.toDigits 10 i.toInt.natAbs))) := by
  rw [ofWord, if_pos (Decimal.isDigits_toDigits _), Decimal.readInt64_toDigits h]

/-- Hex digits behind `0x` are a literal of the bytes. -/
theorem ofWord_bytes (bytes : List UInt8) :
    ofWord ('0' :: 'x' :: Hex.encode bytes) = .ok (some (.bytes (Hex.encode bytes))) := by
  have hdigits : Decimal.isDigits ('0' :: 'x' :: Hex.encode bytes) = false := by
    rw [Decimal.isDigits, List.all_cons, List.all_cons]
    rfl
  have heven : (Hex.encode bytes).length % 2 = 0 := by
    rw [Hex.length_encode]
    omega
  simp [ofWord, hdigits, hexDigits?, Hex.isDigit_encode, heven]

theorem ofWord_boolean (b : Bool) :
    ofWord (Value.boolean b).write = .ok (some (.boolean b)) := by
  cases b <;> rfl

/-- A name does not start with a digit. -/
theorem isDigit_of_isNameStart {c : Char} (h : isNameStart c = true) :
    Decimal.isDigit c = false := by
  rw [← Bool.not_eq_true]
  intro hdigit
  have hnot := Unicode.forall_ascii
    (P := fun c => Decimal.isDigit c = true → isNameStart c = false)
    (by decide) (toNat_lt_of_isDigit hdigit) hdigit
  rw [h] at hnot
  cases hnot

/-- A name is a literal of nothing, unless it is that of a truth value. -/
theorem ofWord_name {word : Text} (h : isName word = true) (htrue : word ≠ "true".toList)
    (hfalse : word ≠ "false".toList) : ofWord word = .ok (some (.name word)) := by
  cases word with
  | nil => cases h
  | cons c rest =>
      have hstart : isNameStart c = true := by
        rw [isName, Bool.and_eq_true] at h
        exact h.1
      have hdigit := isDigit_of_isNameStart hstart
      have hpoint : c ≠ '.' := by
        rintro rfl
        exact absurd hstart (by decide)
      have hdigits : Decimal.isDigits (c :: rest) = false := by
        simp [Decimal.isDigits, hdigit]
      have hhex : hexDigits? (c :: rest) = none := by
        have hzero : c ≠ '0' := by
          rintro rfl
          cases hdigit
        unfold hexDigits?
        split
        · next heq =>
            cases heq
            exact absurd rfl hzero
        · next heq =>
            cases heq
            exact absurd rfl hzero
        · rfl
      have hfloat : isFloat (c :: rest) = false := by
        simp only [isFloat, List.takeWhile_cons, List.dropWhile_cons, hdigit, Bool.false_eq_true,
          if_false]
        split
        · next heq =>
            cases heq
            exact absurd rfl hpoint
        · rfl
      rw [ofWord, hdigits, hhex, hfloat]
      simp only [Bool.false_eq_true, if_false, if_neg htrue, if_neg hfalse, h, if_true]

end Literal

end Reckon
