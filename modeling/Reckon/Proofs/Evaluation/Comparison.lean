import Reckon.Operator.Apply
import Reckon.Proofs.Number.Comparison

/-!
# Comparing numbers

The comparisons of integers and floats, in any mix, are those of the numbers that they stand for:
`BinaryOperator.comparison_exact`. A linear order is behind them, so exactly one of less, equal and
greater holds of two numbers, and the order is transitive whatever the kinds are.
-/

namespace Reckon

/-- The number that a value is. Only integers are one, and floats that are a number. -/
def Value.number? : Value → Option Extended
  | .integer i => some (.ofRat i.toInt)
  | .float x => Binary64.number? x
  | _ => none

/-- Integers are numbers, and floats are but those that say to be none. -/
inductive Value.IsNumber : Value → Prop where
  | integer (i : Int64) : IsNumber (.integer i)
  | float (x : Float) (h : x.isNaN = false) : IsNumber (.float x)

/-- Every number stands for something. -/
theorem Value.IsNumber.exists_number {value : Value} (h : value.IsNumber) :
    ∃ p, value.number? = some p := by
  cases h with
  | integer i => exact ⟨_, rfl⟩
  | float x h =>
      refine Option.ne_none_iff_exists'.mp ?_
      rw [Value.number?, ne_eq, Binary64.number_eq_none_iff, h]
      exact Bool.false_ne_true

namespace BinaryOperator

variable {left right : Value} {p q : Extended}

/-- Two numbers are in the order of what they stand for. -/
theorem compareValues_of_number (hleft : left.number? = some p) (hright : right.number? = some q) :
    compareValues left right = .ok (some (cmp p q)) := by
  cases left with
  | integer a =>
      cases hleft
      cases right with
      | integer b =>
          cases hright
          rw [compareValues, Binary64.compare_int64, Extended.ofRat_strictMono.cmp_map_eq,
            Int.cast_strictMono.cmp_map_eq]
      | float y =>
          rw [Value.number?] at hright
          rw [compareValues, Binary64.compareInt64_eq, hright, Option.map_some]
      | string | boolean | byteArray => cases hright
  | float x =>
      rw [Value.number?] at hleft
      cases right with
      | integer b =>
          cases hright
          rw [compareValues, Binary64.compareInt64_eq, hleft, Option.map_some, Option.map_some,
            cmp_swap]
      | float y =>
          rw [Value.number?] at hright
          rw [← Binary64.compare_of_number hleft hright]
          rfl
      | string | boolean | byteArray => cases hright
  | string | boolean | byteArray => cases hleft

/-- Two numbers are equal if they stand for the same. -/
theorem equalValues_of_number (hleft : left.number? = some p) (hright : right.number? = some q) :
    equalValues left right = decide (p = q) := by
  rw [Bool.eq_iff_iff, decide_eq_true_iff]
  cases left with
  | integer a =>
      cases hleft
      cases right with
      | integer b =>
          cases hright
          rw [equalValues, beq_iff_eq, Extended.ofRat_strictMono.injective.eq_iff, Int.cast_inj,
            Int64.toInt_inj]
      | float y =>
          rw [Value.number?] at hright
          rw [equalValues, Binary64.compareInt64_eq, hright, Option.map_some, beq_iff_eq,
            Option.some.injEq, cmp_eq_eq_iff]
      | string | boolean | byteArray => cases hright
  | float x =>
      rw [Value.number?] at hleft
      cases right with
      | integer b =>
          cases hright
          rw [equalValues, Binary64.compareInt64_eq, hleft, Option.map_some, beq_iff_eq,
            Option.some.injEq, cmp_eq_eq_iff, eq_comm]
      | float y =>
          rw [Value.number?] at hright
          rw [equalValues, Binary64.beq_iff hleft hright]
      | string | boolean | byteArray => cases hright
  | string | boolean | byteArray => cases hleft

theorem ordered_of_number (test : Ordering → Bool) (hleft : left.number? = some p)
    (hright : right.number? = some q) :
    ordered test left right = .ok (.boolean (test (cmp p q))) := by
  rw [ordered, compareValues_of_number hleft hright]
  rfl

/-- What the comparisons of two values find, if these stand for two numbers. -/
structure Compared (left right : Value) (p q : Extended) : Prop where
  less : apply .less left right = .ok (.boolean (decide (p < q)))
  equal : apply .equal left right = .ok (.boolean (decide (p = q)))
  greater : apply .greater left right = .ok (.boolean (decide (q < p)))
  lessEqual : apply .lessEqual left right = .ok (.boolean (decide (p ≤ q)))
  greaterEqual : apply .greaterEqual left right = .ok (.boolean (decide (q ≤ p)))
  notEqual : apply .notEqual left right = .ok (.boolean (decide (p ≠ q)))

/-- Two numbers are compared as what they stand for. -/
theorem compared_of_number (hleft : left.number? = some p) (hright : right.number? = some q) :
    Compared left right p q := by
  have hordered (test : Ordering → Bool) (holds : Prop) [Decidable holds]
      (h : test (cmp p q) = true ↔ holds) :
      ordered test left right = .ok (.boolean (decide holds)) := by
    rw [ordered_of_number test hleft hright, Bool.eq_iff_iff.mpr (h.trans decide_eq_true_iff.symm)]
  have hequal := equalValues_of_number hleft hright
  refine ⟨hordered _ _ ?_, ?_, hordered _ _ ?_, hordered _ _ ?_, hordered _ _ ?_, ?_⟩
  · rw [Ordering.isLT_iff_eq_lt, cmp_eq_lt_iff]
  · rw [apply, hequal]
  · rw [Ordering.isGT_iff_eq_gt, cmp_eq_gt_iff]
  · rw [Ordering.isLE_iff_ne_gt, cmp_eq_gt_iff, not_lt]
  · rw [Ordering.isGE_iff_ne_lt, cmp_eq_lt_iff, not_lt]
  · rw [apply, hequal, decide_not]

/-- A comparison holds of two values. -/
def Holds (operator : BinaryOperator) (left right : Value) : Prop :=
  apply operator left right = .ok (.boolean true)

theorem holds_iff {operator : BinaryOperator} {holds : Prop} [Decidable holds]
    (h : apply operator left right = .ok (.boolean (decide holds))) :
    Holds operator left right ↔ holds := by
  rw [Holds, h, Except.ok.injEq, Value.boolean.injEq, decide_eq_true_iff]

/-- Exactly one of less, equal and greater holds of two values, and the other comparisons are made
of these. -/
structure Trichotomous (left right : Value) : Prop where
  unique : ∃! operator, operator ∈ [.less, .equal, .greater] ∧ Holds operator left right
  lessEqual : Holds .lessEqual left right ↔ Holds .less left right ∨ Holds .equal left right
  greaterEqual :
    Holds .greaterEqual left right ↔ Holds .greater left right ∨ Holds .equal left right
  notEqual : Holds .notEqual left right ↔ ¬Holds .equal left right

/-- What is compared as two numbers is less than, equal to or greater than the other one. -/
theorem Compared.trichotomous (h : Compared left right p q) : Trichotomous left right := by
  have hless := holds_iff h.less
  have hequal := holds_iff h.equal
  have hgreater := holds_iff h.greater
  refine ⟨?_, ?_, ?_, ?_⟩
  · simp only [List.mem_cons, List.not_mem_nil, or_false]
    rcases lt_trichotomy p q with hlt | heq | hgt
    · refine ⟨.less, ⟨.inl rfl, hless.mpr hlt⟩, ?_⟩
      rintro _ ⟨rfl | rfl | rfl, hholds⟩
      · rfl
      · exact absurd (hequal.mp hholds) hlt.ne
      · exact absurd (hgreater.mp hholds) hlt.not_gt
    · refine ⟨.equal, ⟨.inr (.inl rfl), hequal.mpr heq⟩, ?_⟩
      rintro _ ⟨rfl | rfl | rfl, hholds⟩
      · exact absurd heq (hless.mp hholds).ne
      · rfl
      · exact absurd heq (hgreater.mp hholds).ne'
    · refine ⟨.greater, ⟨.inr (.inr rfl), hgreater.mpr hgt⟩, ?_⟩
      rintro _ ⟨rfl | rfl | rfl, hholds⟩
      · exact absurd (hless.mp hholds) hgt.not_gt
      · exact absurd (hequal.mp hholds) hgt.ne'
      · rfl
  · rw [holds_iff h.lessEqual, hless, hequal, le_iff_lt_or_eq]
  · rw [holds_iff h.greaterEqual, hgreater, hequal, le_iff_lt_or_eq, eq_comm]
  · rw [holds_iff h.notEqual, hequal]

/-- The comparisons pass from one number to the next. -/
structure Transitive (first second third : Value) : Prop where
  less : Holds .less first second → Holds .less second third → Holds .less first third
  equal : Holds .equal first second → Holds .equal second third → Holds .equal first third
  lessEqual : Holds .lessEqual first second → Holds .lessEqual second third →
    Holds .lessEqual first third
  less_lessEqual : Holds .less first second → Holds .lessEqual second third →
    Holds .less first third
  lessEqual_less : Holds .lessEqual first second → Holds .less second third →
    Holds .less first third

/-- What is compared as numbers has their order. -/
theorem Compared.transitive {first second third : Value} {p q r : Extended}
    (h₁₂ : Compared first second p q) (h₂₃ : Compared second third q r)
    (h₁₃ : Compared first third p r) : Transitive first second third := by
  refine ⟨?_, ?_, ?_, ?_, ?_⟩
  · rw [holds_iff h₁₂.less, holds_iff h₂₃.less, holds_iff h₁₃.less]
    exact lt_trans
  · rw [holds_iff h₁₂.equal, holds_iff h₂₃.equal, holds_iff h₁₃.equal]
    exact Eq.trans
  · rw [holds_iff h₁₂.lessEqual, holds_iff h₂₃.lessEqual, holds_iff h₁₃.lessEqual]
    exact le_trans
  · rw [holds_iff h₁₂.less, holds_iff h₂₃.lessEqual, holds_iff h₁₃.less]
    exact lt_of_lt_of_le
  · rw [holds_iff h₁₂.lessEqual, holds_iff h₂₃.less, holds_iff h₁₃.less]
    exact lt_of_le_of_lt

/-- Comparing integers and floats is exact. An integer and a float are in the order of the numbers
they are, and only a float that is no number is in none; a float is turned into an integer exactly
if it is one. So integers and floats, in any mix, are compared as their numbers: one of less, equal
and greater holds of any two, and they pass from one kind to the other. -/
theorem comparison_exact :
    (∀ i x, Binary64.compareInt64? i x = (Binary64.number? x).map (cmp (.ofRat i.toInt))) ∧
      (∀ x, Binary64.number? x = none ↔ x.isNaN = true) ∧
      (∀ x i, Binary64.toInt64? x = some i ↔ Binary64.number? x = some (.ofRat i.toInt)) ∧
      (∀ left right, left.IsNumber → right.IsNumber →
        (∃ p q, left.number? = some p ∧ right.number? = some q ∧ Compared left right p q) ∧
          Trichotomous left right) ∧
      ∀ first second third, first.IsNumber → second.IsNumber → third.IsNumber →
        Transitive first second third := by
  refine ⟨Binary64.compareInt64_eq, fun _ => Binary64.number_eq_none_iff,
    fun _ _ => Binary64.toInt64_eq_some_iff, ?_, ?_⟩
  · intro left right hleft hright
    obtain ⟨p, hp⟩ := hleft.exists_number
    obtain ⟨q, hq⟩ := hright.exists_number
    have hcompared := compared_of_number hp hq
    exact ⟨⟨p, q, hp, hq, hcompared⟩, hcompared.trichotomous⟩
  · intro first second third hfirst hsecond hthird
    obtain ⟨p, hp⟩ := hfirst.exists_number
    obtain ⟨q, hq⟩ := hsecond.exists_number
    obtain ⟨r, hr⟩ := hthird.exists_number
    exact (compared_of_number hp hq).transitive (compared_of_number hq hr)
      (compared_of_number hp hr)

/-- Two neighbours among the integers, one of which is no float, and the float next to both. -/
theorem comparison_exact_neighbours :
    Value.IsNumber (.integer 0x20000000000001) ∧
      Value.IsNumber (.float (Binary64.ofInt64 0x20000000000000)) ∧
      Value.IsNumber (.integer 0x1FFFFFFFFFFFFF) ∧
      Transitive (.integer 0x1FFFFFFFFFFFFF) (.float (Binary64.ofInt64 0x20000000000000))
        (.integer 0x20000000000001) ∧
      Holds .less (.float (Binary64.ofInt64 0x20000000000000)) (.integer 0x20000000000001) := by
  have hfirst := Value.IsNumber.integer 0x1FFFFFFFFFFFFF
  have hsecond := Value.IsNumber.float (Binary64.ofInt64 0x20000000000000) rfl
  have hthird := Value.IsNumber.integer 0x20000000000001
  exact ⟨hthird, hsecond, hfirst, comparison_exact.2.2.2.2 _ _ _ hfirst hsecond hthird, rfl⟩

end BinaryOperator

end Reckon
