import Reckon.Source.Literal

/-!
# Classes of characters

A blank is never part of a word, a number or a token. There are few blanks, so such facts are
checked on each of them: `forall_blank` reduces a property of blanks to the list of their code
points.
-/

namespace Reckon

namespace Unicode

/-- The code points of some ranges, one by one. -/
def points (ranges : List (Nat × Nat)) : List Nat :=
  ranges.flatMap fun range => List.range' range.1 (range.2 + 1 - range.1)

theorem toNat_mem_points {ranges : List (Nat × Nat)} {c : Char} (h : inRanges ranges c = true) :
    c.toNat ∈ points ranges := by
  obtain ⟨range, hrange, hc⟩ := List.any_eq_true.mp h
  simp only [Bool.and_eq_true, decide_eq_true_eq] at hc
  refine List.mem_flatMap.mpr ⟨range, hrange, List.mem_range'_1.mpr ?_⟩
  omega

/-- A character that no range reaches is in none of them. -/
theorem inRanges_of_apart {ranges : List (Nat × Nat)} {low high : Nat}
    (h : ∀ range ∈ ranges, range.2 < low ∨ high < range.1) {c : Char} (hlow : low ≤ c.toNat)
    (hhigh : c.toNat ≤ high) : inRanges ranges c = false := by
  rw [inRanges, List.any_eq_false]
  intro range hrange hin
  rw [Bool.and_eq_true, decide_eq_true_eq, decide_eq_true_eq] at hin
  have hapart := h range hrange
  omega

/-- What holds of every blank code point holds of every blank. -/
theorem forall_blank {P : Char → Prop} (h : ∀ n ∈ points blankRanges, P (Char.ofNat n)) {c : Char}
    (hc : isBlank c = true) : P c := by
  have hpoint := h c.toNat (toNat_mem_points hc)
  rwa [Char.ofNat_toNat] at hpoint

end Unicode

theorem isWordChar_of_blank {c : Char} (h : Unicode.isBlank c = true) :
    Text.isWordChar c = false :=
  Unicode.forall_blank (P := fun c => Text.isWordChar c = false) (by decide +kernel) h

theorem isBlank_of_isWordChar {c : Char} (h : Text.isWordChar c = true) :
    Unicode.isBlank c = false := by
  rw [← Bool.not_eq_true]
  intro hblank
  rw [isWordChar_of_blank hblank] at h
  cases h

theorem Literal.isNamePart_of_isNameStart {c : Char} (h : isNameStart c = true) :
    isNamePart c = true := by
  rw [isNameStart, Bool.or_eq_true] at h
  rcases h with h | h <;> simp [isNamePart, h]

theorem Literal.isWordChar_of_isNamePart {c : Char} (h : isNamePart c = true) :
    Text.isWordChar c = true := by
  rw [isNamePart, Bool.or_eq_true, Bool.or_eq_true] at h
  rcases h with (h | h) | h <;>
    simp [Text.isWordChar, Unicode.isAlphanumeric, Unicode.isAlphabetic, h]

theorem Unicode.forall_ascii {P : Char → Prop} (h : ∀ n < 128, P (Char.ofNat n)) {c : Char}
    (hc : c.toNat < 128) : P c := by
  have hpoint := h c.toNat hc
  rwa [Char.ofNat_toNat] at hpoint

theorem toNat_lt_of_isDigit {c : Char} (h : Decimal.isDigit c = true) : c.toNat < 128 := by
  simp only [Decimal.isDigit, Bool.and_eq_true, decide_eq_true_eq] at h
  have hhigh : c.toNat ≤ '9'.toNat := UInt32.le_iff_toNat_le.mp h.2
  exact Nat.lt_of_le_of_lt hhigh (by decide)

theorem isWordChar_of_isDigit {c : Char} (h : Decimal.isDigit c = true) :
    Text.isWordChar c = true :=
  Unicode.forall_ascii (P := fun c => Decimal.isDigit c = true → Text.isWordChar c = true)
    (by decide) (toNat_lt_of_isDigit h) h

end Reckon
