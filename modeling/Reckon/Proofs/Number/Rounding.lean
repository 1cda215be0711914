import Mathlib
import Reckon.Number.Exact

/-!
# Rounding to floats

An exact number is rounded to 53 bits, or to fewer where its exponent would become too small. A
number of an exponent that floats have is not rounded away (`exists_round`), and packing it into
the bits of a float keeps its sign (`unpack_pack`).
-/

namespace Reckon.Binary64

open Float.Model
open Float.Model.UnpackedFloat

theorem mantissaBits_eq : Format.binary64.mantissaBits = 53 := rfl

theorem minExponent_eq : Format.binary64.minExponent = -1074 := by decide

theorem exponentBias_eq : Format.binary64.exponentBias = 1023 := rfl

/-- Shifting drops bits at the end of the mantissa. -/
theorem mantissa_shiftRight (extended : ExtendedMantissa) (count : Nat) :
    (extended >>> count).mantissa = extended.mantissa / 2 ^ count := by
  show (count.repeat ExtendedMantissa.shiftRightOne extended).mantissa = _
  induction count with
  | zero => simp [Nat.repeat]
  | succ count ih =>
      show (count.repeat ExtendedMantissa.shiftRightOne extended).mantissa / 2 = _
      rw [ih, Nat.div_div_eq_div_mul, Nat.pow_succ]

theorem mantissa_ofMantissaAndAccuracy (mantissa : Nat) (accuracy : Accuracy) :
    (ExtendedMantissa.ofMantissaAndAccuracy mantissa accuracy).mantissa = mantissa := by
  unfold ExtendedMantissa.ofMantissaAndAccuracy
  split <;> rfl

theorem le_roundedMantissa (extended : ExtendedMantissa) :
    extended.mantissa ≤ extended.roundedMantissa := by
  obtain ⟨mantissa, roundBit, stickyBit⟩ := extended
  cases roundBit <;> cases stickyBit <;>
    simp [ExtendedMantissa.roundedMantissa, ExtendedMantissa.accuracy, Accuracy.roundToNearestEven]

/-- A number that has an exponent of floats is shifted to 53 bits at most, and not away. -/
theorem shiftToTargetExponent_bounds {mantissa : Nat} {exponent : Int} (accuracy : Accuracy)
    (hmantissa : 0 < mantissa) (hexponent : -1074 ≤ exponent) :
    0 < (shiftToTargetExponent Format.binary64 mantissa exponent accuracy).1.mantissa ∧
      (shiftToTargetExponent Format.binary64 mantissa exponent accuracy).1.mantissa < 2 ^ 53 ∧
      exponent ≤ (shiftToTargetExponent Format.binary64 mantissa exponent accuracy).2 := by
  have hcount : (Format.binary64.targetExponent (totalExponent mantissa exponent) -
      exponent).toNat = mantissa.log2 - 52 := by
    rw [Format.targetExponent, totalExponent, mantissaBits_eq, minExponent_eq]
    omega
  simp only [shiftToTargetExponent, shiftToExponent, mantissa_shiftRight,
    mantissa_ofMantissaAndAccuracy, hcount]
  refine ⟨?_, ?_, by omega⟩
  · refine Nat.div_pos ?_ (Nat.two_pow_pos _)
    calc 2 ^ (mantissa.log2 - 52) ≤ 2 ^ mantissa.log2 := Nat.pow_le_pow_right (by decide) (by omega)
      _ ≤ mantissa := Nat.log2_self_le (Nat.ne_of_gt hmantissa)
  · rw [Nat.div_lt_iff_lt_mul (Nat.two_pow_pos _), ← Nat.pow_add]
    calc mantissa < 2 ^ (mantissa.log2 + 1) := Nat.lt_log2_self
      _ ≤ 2 ^ (53 + (mantissa.log2 - 52)) := Nat.pow_le_pow_right (by decide) (by omega)

/-- A number that has an exponent of floats is rounded to 53 bits at most, and not away. -/
theorem exists_roundWithAccuracy (sign : Sign) {mantissa : Nat} {exponent : Int}
    (accuracy : Accuracy) (hmantissa : 0 < mantissa) (hexponent : -1074 ≤ exponent) :
    ∃ rounded final, ∃ hrounded : 0 < rounded,
      roundWithAccuracy Format.binary64 sign mantissa exponent accuracy =
          .finite sign rounded final hrounded ∧
        rounded < 2 ^ 53 ∧ exponent ≤ final := by
  obtain ⟨hfirst, -, hmiddle⟩ := shiftToTargetExponent_bounds accuracy hmantissa hexponent
  unfold roundWithAccuracy
  generalize shiftToTargetExponent Format.binary64 mantissa exponent accuracy = first
    at hfirst hmiddle
  -- Rounding up may carry into a further bit, so the result is shifted once more.
  have hcarried := Nat.lt_of_lt_of_le hfirst (le_roundedMantissa first.1)
  obtain ⟨hlow, hhigh, hlast⟩ :=
    shiftToTargetExponent_bounds .exact hcarried (Int.le_trans hexponent hmiddle)
  simp only
  rw [dif_neg (Nat.ne_of_gt hlow)]
  exact ⟨_, _, hlow, rfl, hhigh, Int.le_trans hmiddle hlast⟩

/-- A number that has an exponent of floats is rounded to one of 53 bits at most. -/
theorem exists_round (sign : Sign) {mantissa : Nat} {exponent : Int} (hmantissa : 0 < mantissa)
    (hexponent : -1074 ≤ exponent) :
    ∃ rounded final, ∃ hrounded : 0 < rounded,
      UnpackedFloat.round Format.binary64 sign mantissa exponent =
          .finite sign rounded final hrounded ∧
        rounded < 2 ^ 53 ∧ -1074 ≤ final := by
  unfold UnpackedFloat.round
  simp only [decreaseExponent, Format.targetExponent, minExponent_eq]
  generalize totalExponent mantissa exponent - (Format.binary64.mantissaBits : Int) = target
  have hshifted : 0 < mantissa <<< (exponent - max target (-1074)).toNat := by
    rw [Nat.shiftLeft_eq]
    exact Nat.mul_pos hmantissa (Nat.two_pow_pos _)
  have hlow : -1074 ≤ exponent - (exponent - max target (-1074)).toNat := by omega
  obtain ⟨rounded, final, hrounded, heq, hlt, hle⟩ :=
    exists_roundWithAccuracy sign .exact hshifted hlow
  exact ⟨rounded, final, hrounded, heq, hlt, Int.le_trans hlow hle⟩

/-- The parts of a float whose exponent is not the greatest one, and that are not all zero, are
those of a finite number. -/
theorem exists_unpack_packComponents (sign : Sign) {exponent : BitVec 11} {mantissa : BitVec 52}
    (hexponent : exponent ≠ -1#11) (hne : exponent ≠ 0#11 ∨ mantissa ≠ 0#52) :
    ∃ unpacked final, ∃ hunpacked : 0 < unpacked,
      UnpackedFloat.unpack Format.binary64
          (packComponents Format.binary64 sign exponent mantissa) =
        .finite sign unpacked final hunpacked := by
  simp only [UnpackedFloat.unpack, unpackExponent_packComponents, unpackMantissa_packComponents,
    unpackSign_packComponents, Sign.ofBitVec_toBitVec]
  rw [if_neg hexponent]
  split
  · next hzero =>
      have hmantissa := hne.resolve_left (not_not_intro hzero)
      rw [dif_neg hmantissa]
      refine ⟨_, _, Nat.pos_of_ne_zero fun hempty => hmantissa (BitVec.eq_of_toNat_eq ?_), rfl⟩
      rw [hempty]
      rfl
  · refine ⟨_, _, ?_, rfl⟩
    rw [BitVec.toNat_append]
    exact Nat.lt_of_lt_of_le (by decide) Nat.left_le_or

/-- How a finite number is packed: an exponent that is too large makes it infinite, and only a
number of 53 bits keeps its exponent. -/
theorem pack_finite (sign : Sign) {mantissa : Nat} (exponent : Int) (hpos : 0 < mantissa) :
    UnpackedFloat.pack Format.binary64 (.finite sign mantissa exponent hpos) =
      if 2 ^ 11 ≤ (exponent + 1023 + 52).toNat + 1 then
        packedInfinity Format.binary64 sign
      else if mantissa.log2 + 1 = 53 then
        packComponents Format.binary64 sign (BitVec.ofNat 11 (exponent + 1023 + 52).toNat)
          (BitVec.ofNat 52 mantissa)
      else
        packComponents Format.binary64 sign 0#11 (BitVec.ofNat 52 mantissa) :=
  rfl

/-- A finite number of at most 53 bits is packed to a float of its sign that is no zero, unless its
exponent is too small. -/
theorem unpack_pack {sign : Sign} {mantissa : Nat} {exponent : Int} (hpos : 0 < mantissa)
    (hmantissa : mantissa < 2 ^ 53) (hexponent : -1074 ≤ exponent) :
    (Float.Model.pack (.finite sign mantissa exponent hpos)).unpack = .infinity sign ∨
      ∃ packed final, ∃ hpacked : 0 < packed,
        (Float.Model.pack (.finite sign mantissa exponent hpos)).unpack =
          .finite sign packed final hpacked := by
  show UnpackedFloat.unpack Format.binary64 (UnpackedFloat.pack Format.binary64 _) = _ ∨
    ∃ packed final hpacked,
      UnpackedFloat.unpack Format.binary64 (UnpackedFloat.pack Format.binary64 _) = _
  rw [pack_finite]
  by_cases hinfinite : 2 ^ 11 ≤ (exponent + 1023 + 52).toNat + 1
  · left
    rw [if_pos hinfinite]
    cases sign <;> rfl
  · right
    rw [if_neg hinfinite]
    by_cases hnormal : mantissa.log2 + 1 = 53
    · -- A normal number has a biased exponent between its two extremes.
      rw [if_pos hnormal]
      refine exists_unpack_packComponents sign ?_ (.inl ?_)
      · intro h
        have hbiased := congrArg BitVec.toNat h
        rw [BitVec.toNat_ofNat, show (-1#11).toNat = 2047 from rfl] at hbiased
        omega
      · intro h
        have hbiased := congrArg BitVec.toNat h
        rw [BitVec.toNat_ofNat, BitVec.toNat_ofNat] at hbiased
        omega
    · -- A subnormal one has fewer bits, and none of them is cut off.
      rw [if_neg hnormal]
      refine exists_unpack_packComponents sign (by decide) (.inr ?_)
      intro h
      have hcut := congrArg BitVec.toNat h
      rw [BitVec.toNat_ofNat, BitVec.toNat_ofNat] at hcut
      have hlog : mantissa.log2 < 53 := (Nat.log2_lt (by omega)).mpr hmantissa
      have hsmall : mantissa < 2 ^ 52 := (Nat.log2_lt (by omega)).mp (by omega)
      omega

end Reckon.Binary64
