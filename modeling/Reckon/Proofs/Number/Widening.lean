import Reckon.Proofs.Number.Rounding

/-!
# Integers as floats

Widening an integer rounds it to 53 bits, which never rounds it away: `not_beq_zero_ofInt64`. A
division of integers therefore meets a zero divisor only if the integer is zero.
-/

namespace Reckon.Binary64

open Float.Model
open Float.Model.UnpackedFloat

/-- A float equals zero only if it is packed from a zero. -/
theorem exists_unpack_of_beq_zero {x : Float} (h : (x == 0) = true) :
    ∃ sign, x.toModel.unpack = .zero sign := by
  have hzero : (0 : Float).toModel.unpack = .zero .positive := rfl
  have hequal : (x.toModel.unpack.compare (0 : Float).toModel.unpack == some .eq) = true := h
  rw [hzero, beq_iff_eq] at hequal
  generalize x.toModel.unpack = number at hequal ⊢
  cases number with
  | zero sign => exact ⟨sign, rfl⟩
  | notANumber => cases hequal
  | infinity sign => cases sign <;> cases hequal
  | finite sign => cases sign <;> cases hequal

/-- An integer that is not zero is not rounded to zero. -/
theorem not_beq_zero_ofInt64 {i : Int64} (h : i ≠ 0) : (ofInt64 i == 0) = false := by
  rw [← Bool.not_eq_true]
  intro hzero
  obtain ⟨other, hother⟩ := exists_unpack_of_beq_zero hzero
  have hne : i.toInt ≠ 0 := fun heq => h (Int64.toInt_inj.mp heq)
  obtain ⟨sign, n, hn, hround⟩ : ∃ sign n, 0 < n ∧
      UnpackedFloat.ofInt64 Format.binary64 i = UnpackedFloat.round Format.binary64 sign n 0 := by
    unfold UnpackedFloat.ofInt64 UnpackedFloat.ofInt UnpackedFloat.normalize
    rcases Int.lt_or_gt_of_ne hne with hlt | hgt
    · refine ⟨.negative, (-i.toInt).toNat, by omega, ?_⟩
      rw [Int.compare_eq_lt.mpr hlt]
    · refine ⟨.positive, i.toInt.toNat, by omega, ?_⟩
      rw [Int.compare_eq_gt.mpr hgt]
  obtain ⟨mantissa, exponent, hpos, hfinite, hmantissa, hexponent⟩ :=
    exists_round sign hn (show -1074 ≤ (0 : Int) by decide)
  rw [ofInt64, Float.Model.ofInt64, hround, hfinite] at hother
  rcases unpack_pack hpos hmantissa hexponent with hinfinite | ⟨_, _, _, hpacked⟩
  · cases hinfinite.symm.trans hother
  · cases hpacked.symm.trans hother

end Reckon.Binary64
