import Reckon.Operator.Apply
import Reckon.Proofs.Number.Integer
import Reckon.Proofs.Number.Widening

/-!
# Operators on integers

On two integers the arithmetic operators compute the exact number, or fail because it does not fit
or because they would divide by zero. `apply_integers` says so for each of them; the number is that
of mathematics and not of 64 bits.
-/

namespace Reckon

/-- The outcome of an exact computation: the integer if it fits, and otherwise an overflow. -/
def IsExact (n : Int) (outcome : Except EvalError Value) : Prop :=
  if Fits n then ∃ i : Int64, i.toInt = n ∧ outcome = .ok (.integer i)
  else outcome = .error .overflow

/-- The outcome of a division of integers: their quotient if it is whole, and otherwise the quotient
of the floats nearest to them. Division by zero has none, and one quotient does not fit. -/
structure IsQuotient (a b : Int64) (outcome : Except EvalError Value) : Prop where
  byZero : b = 0 → outcome = .error .divisionByZero
  overflow : a = Int64.minValue ∧ b = -1 → outcome = .error .overflow
  whole : b ≠ 0 → ¬(a = Int64.minValue ∧ b = -1) → b.toInt ∣ a.toInt →
    ∃ q : Int64, q.toInt * b.toInt = a.toInt ∧ outcome = .ok (.integer q)
  broken : b ≠ 0 → ¬b.toInt ∣ a.toInt →
    outcome = .ok (.float (Binary64.ofInt64 a / Binary64.ofInt64 b))

/-- The outcome of taking a remainder: zero or a number with the sign of the dividend, closer to
zero than the divisor, that differs from the dividend by a multiple of the divisor. It is refused
where the quotient is. -/
structure IsRemainder (a b : Int64) (outcome : Except EvalError Value) : Prop where
  byZero : b = 0 → outcome = .error .divisionByZero
  overflow : a = Int64.minValue ∧ b = -1 → outcome = .error .overflow
  rest : b ≠ 0 → ¬(a = Int64.minValue ∧ b = -1) →
    ∃ r : Int64, outcome = .ok (.integer r) ∧ (r.toInt = 0 ∨ r.toInt.sign = a.toInt.sign) ∧
      r.toInt.natAbs < b.toInt.natAbs ∧ b.toInt ∣ a.toInt - r.toInt

/-- A checked result is exact. -/
theorem isExact_fit (n : Int) : IsExact n (integerOrOverflow (fit? n)) := by
  unfold IsExact
  split
  · next h =>
      obtain ⟨i, hi, hvalue⟩ := fit_of_fits h
      rw [hi]
      exact ⟨i, hvalue, rfl⟩
  · next h =>
      rw [fit_eq_none h]
      rfl

namespace Integer

variable {a b : Int64}

theorem quotient_eq_none (h : a = Int64.minValue ∧ b = -1) : quotient? a b = none := by
  obtain ⟨rfl, rfl⟩ := h
  exact fit_eq_none not_fits_tdiv

theorem exists_quotient (h : ¬(a = Int64.minValue ∧ b = -1)) :
    ∃ q : Int64, quotient? a b = some q ∧ q.toInt = a.toInt.tdiv b.toInt := by
  rw [eq_minValue, eq_neg_one] at h
  exact fit_of_fits (tdiv_fits (fits_toInt a) h)

/-- Where the quotient is found, so is the remainder. -/
theorem exists_remainder (h : ¬(a = Int64.minValue ∧ b = -1)) :
    ∃ r : Int64, remainder? a b = some r ∧ r.toInt = a.toInt.tmod b.toInt := by
  obtain ⟨q, hq, -⟩ := exists_quotient h
  obtain ⟨r, hr, hvalue⟩ := fit_of_fits (tmod_fits (b := b.toInt) (fits_toInt a))
  refine ⟨r, ?_, hvalue⟩
  rw [remainder?, hq]
  exact hr

end Integer

namespace BinaryOperator

open Integer

variable (a b : Int64)

/-- Division of integers. -/
theorem isQuotient_divide : IsQuotient a b (divide (.integer a) (.integer b)) where
  byZero h := by
    rw [divide, if_pos h]
  overflow h := by
    have hne : b ≠ 0 := by
      rw [h.2]
      decide
    rw [divide, if_neg hne, remainder?, quotient_eq_none h]
    rfl
  whole hne h hdvd := by
    obtain ⟨q, hq, hquotient⟩ := exists_quotient h
    obtain ⟨r, hr, hrest⟩ := exists_remainder h
    have hzero : r = 0 := by
      rw [← Int64.toInt_inj, hrest]
      exact Int.tmod_eq_zero_of_dvd hdvd
    refine ⟨q, ?_, ?_⟩
    · rw [hquotient]
      exact Int.tdiv_mul_cancel hdvd
    · simp only [divide, if_neg hne, hr, if_pos hzero, hq]
      rfl
  broken hne hdvd := by
    have h : ¬(a = Int64.minValue ∧ b = -1) := by
      rintro ⟨-, rfl⟩
      exact hdvd (Int.neg_dvd.mpr (Int.one_dvd _))
    obtain ⟨r, hr, hrest⟩ := exists_remainder h
    have hzero : r ≠ 0 := by
      rintro rfl
      exact hdvd (Int.dvd_of_tmod_eq_zero hrest.symm)
    simp only [divide, if_neg hne, hr, if_neg hzero]
    simp only [divideFloats, Value.expectFloat, bind, Except.bind,
      Binary64.not_beq_zero_ofInt64 hne]
    rfl

/-- The remainder of integers. -/
theorem isRemainder_remainder : IsRemainder a b (remainder (.integer a) (.integer b)) where
  byZero h := by
    rw [remainder, if_pos h]
  overflow h := by
    have hne : b ≠ 0 := by
      rw [h.2]
      decide
    rw [remainder, if_neg hne, remainder?, quotient_eq_none h]
    rfl
  rest hne h := by
    obtain ⟨r, hr, hrest⟩ := exists_remainder h
    have hpos : 0 < b.toInt.natAbs := by
      have hne : b.toInt ≠ 0 := fun hzero => hne (Int64.toInt_inj.mp hzero)
      omega
    refine ⟨r, ?_, ?_, ?_, ?_⟩
    · rw [remainder, if_neg hne, hr]
      rfl
    · have hsign := Int.sign_tmod a.toInt b.toInt
      rw [← hrest] at hsign
      split at hsign
      · exact .inl (Int.sign_eq_zero_iff_zero.mp hsign)
      · exact .inr hsign
    · rw [hrest, Int.natAbs_tmod]
      exact Nat.mod_lt _ hpos
    · rw [hrest]
      exact Int.dvd_self_sub_tmod

/-- Arithmetic on integers is exact. Sums, differences, products, opposites and powers are the exact
integer, or an overflow if that does not fit; whole quotients are integers and others floats; the
remainder is that of the division toward zero; and nothing is divided by zero. -/
theorem apply_integers :
    IsExact (a.toInt + b.toInt) (add.apply (.integer a) (.integer b)) ∧
      IsExact (a.toInt - b.toInt) (sub.apply (.integer a) (.integer b)) ∧
      IsExact (a.toInt * b.toInt) (mul.apply (.integer a) (.integer b)) ∧
      IsExact (-a.toInt) (UnaryOperator.negate.apply (.integer a)) ∧
      (0 ≤ b.toInt →
        IsExact (a.toInt ^ b.toInt.toNat) (pow.apply (.integer a) (.integer b))) ∧
      IsQuotient a b (div.apply (.integer a) (.integer b)) ∧
      IsRemainder a b (mod.apply (.integer a) (.integer b)) := by
  refine ⟨isExact_fit _, isExact_fit _, isExact_fit _, isExact_fit _, fun hexponent => ?_,
    isQuotient_divide a b, isRemainder_remainder a b⟩
  show IsExact _ (power (.integer a) (.integer b))
  rw [power, if_pos hexponent, pow_eq_fit]
  exact isExact_fit _

end BinaryOperator

end Reckon
