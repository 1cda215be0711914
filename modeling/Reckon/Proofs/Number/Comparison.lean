import Reckon.Proofs.Number.Truncation

/-!
# Integers and floats

Integers and floats are compared as the numbers they are (`compareInt64_eq`), and a float is turned
into an integer exactly if it stands for one (`toInt64_eq_some_iff`). No rounding comes in between:
the greatest integer widens to a float that is too large for every integer, below it the whole part
of a float is an integer, and where that is the integer it is compared with, what is left over
decides.
-/

namespace Reckon.Binary64

open Float.Model
open Float.Model.UnpackedFloat

variable {x : Float} {p : Extended} {q : ℚ}

theorem number_maxValue : number? (ofInt64 Int64.maxValue) = some (.ofRat (2 ^ 63)) := by
  have hexact : Exact.ofFloat (ofInt64 Int64.maxValue) = .finite false 0x10000000000000 11 := rfl
  rw [number?, hexact, Exact.number?, Exact.cast_signed]
  norm_num

theorem number_minValue : number? (ofInt64 Int64.minValue) = some (.ofRat (-2 ^ 63)) := by
  have hexact : Exact.ofFloat (ofInt64 Int64.minValue) = .finite true 0x10000000000000 11 := rfl
  rw [number?, hexact, Exact.number?, Exact.cast_signed]
  norm_num

/-- What lies between two rational numbers is one. -/
theorem exists_ofRat {low high : ℚ} (hlow : Extended.ofRat low ≤ p) (hhigh : p < .ofRat high) :
    ∃ q, p = .ofRat q ∧ low ≤ q ∧ q < high := by
  induction p using WithBot.recBotCoe with
  | bot => exact absurd hlow (Extended.bot_lt_ofRat low).not_ge
  | coe p =>
      induction p using WithTop.recTopCoe with
      | top => exact absurd hhigh (Extended.ofRat_lt_top high).not_gt
      | coe q =>
          exact ⟨q, rfl, Extended.ofRat_strictMono.le_iff_le.mp hlow,
            Extended.ofRat_strictMono.lt_iff_lt.mp hhigh⟩

/-- A float stands for nothing exactly if it is no number. -/
theorem number_eq_none_iff : number? x = none ↔ x.isNaN = true := by
  rw [unpack_of_number_eq_none, ← UnpackedFloat.isNaN_iff]
  exact Iff.rfl

/-- A float is finite exactly if it stands for a rational number. -/
theorem isFinite_iff : x.isFinite = true ↔ ∃ q, number? x = some (.ofRat q) := by
  have hunpacks := unpacks x
  show x.toModel.unpack.isFinite = true ↔ _
  constructor
  · intro h
    rw [number?]
    generalize x.toModel.unpack = u at hunpacks h
    generalize Exact.ofFloat x = number at hunpacks ⊢
    cases hunpacks with
    | nan => cases h
    | infinite => cases h
    | zero => exact ⟨_, rfl⟩
    | finite => exact ⟨_, rfl⟩
  · rintro ⟨q, h⟩
    obtain ⟨negative, m, e, hx, -⟩ := exists_finite h
    rw [hx] at hunpacks
    rcases hunpacks.finite_cases with ⟨-, sign, hu⟩ | ⟨sign, hpos, hu, -⟩
    · rw [hu]
      rfl
    · rw [hu]
      rfl

/-- A number is less than one away from its whole part. -/
theorem whole_close (h : number? x = some (.ofRat q)) :
    (whole x : ℚ) - 1 < q ∧ q < whole x + 1 := by
  obtain ⟨hpositive, hnegative⟩ := whole_near h
  rcases le_total 0 q with hq | hq
  · obtain ⟨hlow, hhigh⟩ := hpositive hq
    exact ⟨by linarith, hhigh⟩
  · obtain ⟨hlow, hhigh⟩ := hnegative hq
    exact ⟨hlow, by linarith⟩

/-- The whole part of a number is not below an integer that the number is not below, unless that is
positive. -/
theorem le_whole {low : Int} (h : number? x = some (.ofRat q)) (hlow : (low : ℚ) ≤ q)
    (hle : low ≤ 0) : low ≤ whole x := by
  rcases le_total 0 q with hq | hq
  · have hclose : (0 : ℚ) < whole x + 1 := lt_of_le_of_lt hq (whole_close h).2
    have hclose : 0 < whole x + 1 := by exact_mod_cast hclose
    omega
  · exact Int.cast_le.mp (le_trans hlow ((whole_near h).2 hq).2)

/-- The whole part of a number is below a positive integer that the number is below. -/
theorem whole_lt {high : Int} (h : number? x = some (.ofRat q)) (hhigh : q < high)
    (hlt : 0 < high) : whole x < high := by
  rcases le_total 0 q with hq | hq
  · exact Int.cast_lt.mp (lt_of_le_of_lt ((whole_near h).1 hq).1 hhigh)
  · have hclose : (whole x : ℚ) - 1 < 0 := lt_of_lt_of_le (whole_close h).1 hq
    have hclose : whole x - 1 < 0 := by exact_mod_cast hclose
    omega

theorem int64_range (i : Int64) : (-2 ^ 63 : ℚ) ≤ i.toInt ∧ (i.toInt : ℚ) < 2 ^ 63 := by
  have hlow := i.le_toInt
  have hhigh := i.toInt_lt
  exact ⟨by exact_mod_cast hlow, by exact_mod_cast hhigh⟩

/-- The whole part of a float in range is the integer that it is converted to. -/
theorem toInt_truncate (h : number? x = some (.ofRat q)) (hlow : -2 ^ 63 ≤ q) (hhigh : q < 2 ^ 63) :
    (truncate x).toModel.toInt64.toInt = whole x := by
  have htruncate := number_truncate h
  have hwhole := whole_of_number htruncate
  have hleast : -2 ^ 63 ≤ whole x := le_whole h (by push_cast; exact hlow) (by norm_num)
  have hbound : whole x < 2 ^ 63 := whole_lt h (by push_cast; exact hhigh) (by norm_num)
  rw [toInt_toInt64 htruncate (by rwa [hwhole]) (by rwa [hwhole]), hwhole]

theorem compare_int64 (a b : Int64) : compare a b = cmp a.toInt b.toInt := by
  rw [cmp_eq_compare]
  simp only [compare, compareOfLessAndEq, Int64.lt_iff_toInt_lt, ← Int64.toInt_inj]

/-- An integer compares with a number as with a whole one that is less than one away, unless it is
that whole one. -/
theorem cmp_of_close {i w : Int} (hbelow : (w : ℚ) - 1 < q) (habove : q < w + 1) :
    cmp (i : ℚ) q = (cmp i w).then (cmp (w : ℚ) q) := by
  rcases lt_trichotomy i w with hlt | rfl | hgt
  · have hle : (i : ℚ) ≤ w - 1 := by exact_mod_cast Int.le_sub_one_of_lt hlt
    rw [(cmp_eq_lt_iff _ _).mpr hlt, (cmp_eq_lt_iff _ _).mpr (lt_of_le_of_lt hle hbelow)]
    rfl
  · rw [cmp_self_eq_eq]
    rfl
  · have hle : (w : ℚ) + 1 ≤ i := by exact_mod_cast hgt
    rw [(cmp_eq_gt_iff _ _).mpr hgt, (cmp_eq_gt_iff _ _).mpr (lt_of_lt_of_le habove hle)]
    rfl

/-- An integer and a float are compared as the numbers they are; nothing orders a float that is no
number. -/
theorem compareInt64_eq (i : Int64) (x : Float) :
    compareInt64? i x = (number? x).map (cmp (.ofRat i.toInt)) := by
  obtain ⟨hleast, hbound⟩ := int64_range i
  unfold compareInt64?
  cases hx : number? x with
  | none => exact if_pos (number_eq_none_iff.mp hx)
  | some p =>
      have hnan : ¬x.isNaN = true := by
        rw [← number_eq_none_iff, hx]
        nofun
      rw [if_neg hnan, Option.map_some]
      -- The bounds widen to `-2 ^ 63` and `2 ^ 63`; what lies between has its whole part in range.
      by_cases hlarge : ofInt64 Int64.maxValue ≤ x
      · have hle := (le_iff number_maxValue hx).mp hlarge
        have hlt := lt_of_lt_of_le (Extended.ofRat_strictMono hbound) hle
        rw [if_pos hlarge, (cmp_eq_lt_iff _ _).mpr hlt]
      by_cases hsmall : x < ofInt64 Int64.minValue
      · have hlt := (lt_iff hx number_minValue).mp hsmall
        have hgt := lt_of_lt_of_le hlt (Extended.ofRat_strictMono.monotone hleast)
        rw [if_neg hlarge, if_pos hsmall, (cmp_eq_gt_iff _ _).mpr hgt]
      rw [if_neg hlarge, if_neg hsmall]
      rw [le_iff number_maxValue hx, not_le] at hlarge
      rw [lt_iff hx number_minValue, not_lt] at hsmall
      obtain ⟨q, rfl, hlow, hhigh⟩ := exists_ofRat hsmall hlarge
      rw [Extended.ofRat_strictMono.cmp_map_eq, compare_int64, toInt_truncate hx hlow hhigh]
      obtain ⟨hbelow, habove⟩ := whole_close hx
      rw [cmp_of_close hbelow habove, compare_fraction hx]
      cases cmp i.toInt (whole x) <;> rfl

/-- Nothing is left over of a number that is its whole part, and of no other one. -/
theorem fraction_eq_zero_iff (h : number? x = some (.ofRat q)) :
    (fraction x == 0) = true ↔ (whole x : ℚ) = q := by
  have hcompare := compare_fraction h
  rw [compare_eq, number_zero, Option.bind_some] at hcompare
  obtain ⟨f, hf, hsign⟩ := Option.map_eq_some_iff.mp hcompare
  rw [beq_iff hf number_zero, ← cmp_eq_eq_iff (whole x : ℚ) q, ← hsign, cmp_eq_eq_iff, eq_comm]

/-- A whole number is out of range if it is less than the least integer as a float, or not less than
the greatest one. -/
theorem out_of_range_iff {t : Int} (h : number? x = some (.ofRat t)) :
    (x < ofInt64 Int64.minValue || ofInt64 Int64.maxValue ≤ x) = true ↔
      ¬(-2 ^ 63 ≤ t ∧ t < 2 ^ 63) := by
  have hlow : (t : ℚ) < -2 ^ 63 ↔ t < -2 ^ 63 := by norm_cast
  have hhigh : (2 : ℚ) ^ 63 ≤ t ↔ 2 ^ 63 ≤ t := by norm_cast
  rw [Bool.or_eq_true, decide_eq_true_iff, decide_eq_true_iff, lt_iff h number_minValue,
    le_iff number_maxValue h, Extended.ofRat_strictMono.lt_iff_lt,
    Extended.ofRat_strictMono.le_iff_le, hlow, hhigh]
  omega

/-- A float is turned into an integer exactly if it stands for one. -/
theorem toInt64_eq_some_iff {i : Int64} :
    toInt64? x = some i ↔ number? x = some (.ofRat i.toInt) := by
  unfold toInt64?
  by_cases hfinite : x.isFinite = true
  · obtain ⟨q, hx⟩ := isFinite_iff.mp hfinite
    by_cases hwhole : (whole x : ℚ) = q
    · subst hwhole
      have hleft : (!x.isFinite || fraction x != 0) = false := by
        rw [hfinite, bne, (fraction_eq_zero_iff hx).mpr rfl]
        rfl
      rw [hleft, if_neg Bool.false_ne_true, hx, Option.some.injEq,
        Extended.ofRat_strictMono.injective.eq_iff, Int.cast_inj]
      have hrange := out_of_range_iff hx
      by_cases hfits : -2 ^ 63 ≤ whole x ∧ whole x < 2 ^ 63
      · rw [if_neg (hrange.not.mpr (not_not_intro hfits)), Option.some.injEq, ← Int64.toInt_inj,
          toInt_toInt64 hx hfits.1 hfits.2]
      · rw [if_pos (hrange.mpr hfits)]
        refine iff_of_false nofun fun heq => hfits ?_
        rw [heq]
        exact ⟨i.le_toInt, i.toInt_lt⟩
    · have hleft : (!x.isFinite || fraction x != 0) = true := by
        rw [bne, Bool.eq_false_iff.mpr ((fraction_eq_zero_iff hx).not.mpr hwhole)]
        exact Bool.or_true _
      rw [if_pos hleft]
      refine iff_of_false nofun fun heq => hwhole ?_
      have hq := Extended.ofRat_strictMono.injective (Option.some.inj (hx.symm.trans heq))
      rw [whole_of_number heq, hq]
  · rw [if_pos (by simp [hfinite])]
    exact iff_of_false nofun fun h => hfinite (isFinite_iff.mpr ⟨_, h⟩)

end Reckon.Binary64
