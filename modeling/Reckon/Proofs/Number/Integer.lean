import Mathlib.Algebra.Order.Ring.Int
import Mathlib.Algebra.Ring.Int.Parity
import Reckon.Number.Integer

/-!
# Checked integers

When a checked operation has a result: `fit?` keeps exactly the integers of 64 bits, the quotient of
two such integers fits unless it is the opposite of the least one (`tdiv_fits`), and a power is
computed exactly if it fits, whatever its exponent (`pow_eq_fit`).
-/

namespace Reckon

/-- The integer is one of 64 bits. -/
def Fits (n : Int) : Prop :=
  -2 ^ 63 ≤ n ∧ n < 2 ^ 63

instance (n : Int) : Decidable (Fits n) :=
  inferInstanceAs (Decidable (_ ∧ _))

theorem fits_toInt (i : Int64) : Fits i.toInt :=
  ⟨i.le_toInt, i.toInt_lt⟩

theorem fit_of_fits {n : Int} (h : Fits n) : ∃ i : Int64, fit? n = some i ∧ i.toInt = n :=
  ⟨Int64.ofInt n, if_pos h, Int64.toInt_ofInt_of_le h.1 h.2⟩

theorem fit_eq_none {n : Int} (h : ¬Fits n) : fit? n = none :=
  if_neg h

theorem fit_toInt (i : Int64) : fit? i.toInt = some i := by
  obtain ⟨j, hj, heq⟩ := fit_of_fits (fits_toInt i)
  rwa [Int64.toInt_inj.mp heq] at hj

namespace Integer

theorem eq_minValue {a : Int64} : a = Int64.minValue ↔ a.toInt = -2 ^ 63 := by
  rw [← Int64.toInt_inj, Int64.toInt_minValue]

theorem eq_neg_one {b : Int64} : b = -1 ↔ b.toInt = -1 := by
  rw [← Int64.toInt_inj]
  rfl

/-- The quotient of integers that fit fits too, unless it is the opposite of the least one. -/
theorem tdiv_fits {a b : Int} (ha : Fits a) (h : ¬(a = -2 ^ 63 ∧ b = -1)) : Fits (a.tdiv b) := by
  have hle := Int.natAbs_tdiv_le_natAbs a b
  have habs : a.natAbs ≤ 2 ^ 63 := by
    unfold Fits at ha
    omega
  by_cases hfull : (a.tdiv b).natAbs = 2 ^ 63
  · -- Only the least integer is so far from zero, and only a divisor of one keeps it there.
    have ha : a = -2 ^ 63 := by
      unfold Fits at ha
      omega
    subst ha
    have hdiv := Int.natAbs_tdiv (-2 ^ 63) b
    rw [hfull] at hdiv
    have hone : b.natAbs = 1 := by
      by_contra hne
      have hsmall : (2 ^ 63 : Nat) / b.natAbs < 2 ^ 63 := by
        rcases Nat.eq_zero_or_pos b.natAbs with hzero | hpos
        · rw [hzero]
          decide
        · exact Nat.div_lt_self (by decide) (by omega)
      have hcases : (2 ^ 63 : Nat) = (2 ^ 63 : Nat) / b.natAbs := hdiv
      omega
    have hb : b = 1 := by omega
    rw [hb]
    decide
  · unfold Fits
    omega

theorem not_fits_tdiv : ¬Fits ((-2 ^ 63 : Int).tdiv (-1)) := by
  decide

/-- A remainder fits. -/
theorem tmod_fits {a b : Int} (ha : Fits a) : Fits (a.tmod b) := by
  have habs := Int.natAbs_tmod a b
  have hle : a.natAbs % b.natAbs ≤ a.natAbs := Nat.mod_le _ _
  unfold Fits at *
  rcases Int.le_total 0 a with hpos | hneg
  · have hsign := Int.tmod_nonneg b hpos
    omega
  · have hsign := Int.tmod_nonneg b (Int.neg_nonneg_of_nonpos hneg)
    rw [Int.neg_tmod] at hsign
    omega

/-- A power with 64 or more factors other than 0, 1 and -1 does not fit. -/
theorem not_fits_pow {base : Int} (hbase : 2 ≤ base.natAbs) {exponent : Nat}
    (hexponent : 64 ≤ exponent) : ¬Fits (base ^ exponent) := by
  have hlarge : 2 ^ 64 ≤ (base ^ exponent).natAbs := by
    rw [Int.natAbs_pow]
    calc 2 ^ 64 ≤ 2 ^ exponent := Nat.pow_le_pow_right (by decide) hexponent
      _ ≤ base.natAbs ^ exponent := Nat.pow_le_pow_left hbase exponent
  unfold Fits
  omega

/-- What does not fit does not fit again when it is multiplied by factors other than 0, 1 and -1. -/
theorem not_fits_mul_pow {base n : Int} (hbase : 2 ≤ base.natAbs) (h : ¬Fits n) (exponent : Nat) :
    ¬Fits (n * base ^ exponent) := by
  cases exponent with
  | zero => rwa [Int.pow_zero, Int.mul_one]
  | succ exponent =>
      have hpower : 2 ≤ (base ^ (exponent + 1)).natAbs := by
        rw [Int.natAbs_pow]
        exact hbase.trans (Nat.le_self_pow (Nat.succ_ne_zero _) _)
      have hlarge : 2 ^ 63 ≤ n.natAbs := by
        unfold Fits at h
        omega
      have hproduct : 2 ^ 63 * 2 ≤ (n * base ^ (exponent + 1)).natAbs := by
        rw [Int.natAbs_mul]
        exact Nat.mul_le_mul hlarge hpower
      unfold Fits
      omega

/-- Multiplying by one factor after another gives the exact product, if it fits. -/
theorem mulPow_eq_fit {base : Int64} (hbase : 2 ≤ base.toInt.natAbs) (exponent : Nat)
    (product : Int64) :
    mulPow? base exponent product = fit? (product.toInt * base.toInt ^ exponent) := by
  induction exponent generalizing product with
  | zero => rw [mulPow?, Int.pow_zero, Int.mul_one, fit_toInt]
  | succ exponent ih =>
      have hassoc : product.toInt * base.toInt ^ (exponent + 1) =
          product.toInt * base.toInt * base.toInt ^ exponent := by
        rw [Int.pow_succ, Int.mul_comm (base.toInt ^ exponent), Int.mul_assoc]
      rw [mulPow?, mul?, hassoc]
      by_cases hfits : Fits (product.toInt * base.toInt)
      · obtain ⟨next, hnext, hvalue⟩ := fit_of_fits hfits
        rw [hnext, Option.bind_some, ih next, hvalue]
      · rw [fit_eq_none hfits, fit_eq_none (not_fits_mul_pow hbase hfits exponent)]
        rfl

/-- The power is the exact one, if it fits. -/
theorem pow_eq_fit (base : Int64) (exponent : Nat) :
    pow? base exponent = fit? (base.toInt ^ exponent) := by
  unfold pow?
  split
  · next hzero =>
      subst hzero
      split
      · next hexponent =>
          subst hexponent
          rfl
      · next hexponent =>
          rw [Int64.toInt_zero, Int.zero_pow hexponent]
          rfl
  · split
    · next hzero hone =>
        subst hone
        rw [Int64.toInt_one, Int.one_pow]
        rfl
    · split
      · next hneg =>
          rw [eq_neg_one.mp hneg]
          by_cases heven : exponent % 2 = 0
          · rw [if_pos heven, (Nat.even_iff.mpr heven).neg_one_pow]
            rfl
          · have hodd : Odd exponent := Nat.odd_iff.mpr (by omega)
            rw [if_neg heven, hodd.neg_one_pow]
            rfl
      · next hzero hone hneg =>
          have hbase : 2 ≤ base.toInt.natAbs := by
            rw [eq_neg_one] at hneg
            rw [← Int64.toInt_inj, Int64.toInt_zero] at hzero
            rw [← Int64.toInt_inj, Int64.toInt_one] at hone
            omega
          by_cases hexponent : exponent < 2 ^ 32
          · have hunsigned : unsigned? 32 exponent = some exponent :=
              if_pos ⟨Int.natCast_nonneg _, Int.ofNat_lt.mpr hexponent⟩
            rw [hunsigned, Option.bind_some, mulPow_eq_fit hbase, Int64.toInt_one, Int.one_mul]
          · have hunsigned : unsigned? 32 exponent = none :=
              if_neg fun h => hexponent (Int.ofNat_lt.mp h.2)
            rw [hunsigned, fit_eq_none (not_fits_pow hbase (by omega))]
            rfl

end Integer

end Reckon
