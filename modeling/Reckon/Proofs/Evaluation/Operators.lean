import Reckon.Operation
import Reckon.Proofs.Evaluation.Outcome
import Reckon.Proofs.Signature.Acceptance

/-!
# Operators keep the promises of their signatures

On operands of the classes that its signature asks for, every operator computes a value that the
signature promises, or fails for a reason that lies in the values. The main statements are
`UnaryOperator.yields_apply` and `BinaryOperator.yields_apply`; the arithmetic operators share one
argument, `Arithmetic`, that says how integers and floats mix.
-/

namespace Reckon

/-- A checked integer result is an integer, or it overflows. -/
theorem yields_integerOrOverflow (result : Option Int64) :
    Yields (·.kind = .integer) (integerOrOverflow result) := by
  cases result with
  | none => exact .error trivial
  | some i => exact .ok rfl

/-- An arithmetic result of numbers: a number, and an integer where all of them are. -/
def Arithmetic (operands : List Value) (result : Value) : Prop :=
  result.kind.toClass = .numeric ∧
    ((∀ operand ∈ operands, operand.kind = .integer) → result.kind = .integer)

/-- An arithmetic result is what a numeric group promises. -/
theorem promises_of_arithmetic {signature : Signature} {groupClass : Option KindClass}
    {operands : List Value} {result : Value} (hreturns : signature.returns = .group)
    (hmembers : Requirement.members signature.arguments operands = operands)
    (hgroup : groupClass = some .numeric) (h : Arithmetic operands result) :
    signature.Promises groupClass operands result := by
  unfold Signature.Promises
  rw [hreturns, hmembers]
  exact ⟨hgroup.trans (congrArg some h.1.symm), fun hinteger _ => h.2 hinteger⟩

section Arithmetic

variable {left right result : Value}

theorem arithmetic_of_integer {operands : List Value} (h : result.kind = .integer) :
    Arithmetic operands result :=
  ⟨congrArg Kind.toClass h, fun _ => h⟩

theorem integer_of_kind {value : Value} (h : value.kind = .integer) : ∃ i, value = .integer i := by
  cases value <;> cases h
  exact ⟨_, rfl⟩

theorem arithmetic_of_float {operands : List Value} {x : Float}
    (h : ¬∀ operand ∈ operands, operand.kind = .integer) : Arithmetic operands (.float x) :=
  ⟨rfl, fun hall => (h hall).elim⟩

/-- Two values that are not two integers. -/
theorem not_all_integer (h : ∀ a b, left = .integer a → right = .integer b → False) :
    ¬∀ operand ∈ [left, right], operand.kind = .integer := by
  intro hall
  obtain ⟨a, rfl⟩ := integer_of_kind (hall left (by simp))
  obtain ⟨b, rfl⟩ := integer_of_kind (hall right (by simp))
  exact h a b rfl rfl

/-- Two numbers as floats, and a float computed from them. -/
theorem yields_floats {P : Value → Prop} (hleft : left.kind.toClass = .numeric)
    (hright : right.kind.toClass = .numeric) (compute : Float → Float → Float)
    (h : ∀ x, P (.float x)) :
    Yields P (do
      let a ← left.expectFloat
      let b ← right.expectFloat
      return Value.float (compute a b)) :=
  (Value.yields_expectFloat hleft).bind fun _ _ =>
    (Value.yields_expectFloat hright).bind fun _ _ => .ok (h _)

end Arithmetic

namespace BinaryOperator

variable {left right : Value}

/-- Sums, differences and products are arithmetic results. -/
theorem yields_exactOrRounded (exact : Int64 → Int64 → Option Int64)
    (rounded : Float → Float → Float) (hleft : left.kind.toClass = .numeric)
    (hright : right.kind.toClass = .numeric) :
    Yields (Arithmetic [left, right]) (exactOrRounded exact rounded left right) := by
  unfold exactOrRounded
  split
  · exact (yields_integerOrOverflow _).mono fun _ => arithmetic_of_integer
  · next h =>
      exact yields_floats hleft hright rounded fun _ => arithmetic_of_float (not_all_integer h)

/-- Division on floats is a float, or a division by zero. -/
theorem yields_divideFloats {P : Value → Prop} (rounded : Float → Float → Float)
    (hleft : left.kind.toClass = .numeric) (hright : right.kind.toClass = .numeric)
    (h : ∀ x, P (.float x)) : Yields P (divideFloats rounded left right) := by
  unfold divideFloats
  refine (Value.yields_expectFloat hright).bind ?_
  intro divisor _
  refine yields_guard trivial ?_
  intro _
  exact (Value.yields_expectFloat hleft).bind fun _ _ => .ok (h _)

/-- A quotient is a number. -/
theorem yields_divide (hleft : left.kind.toClass = .numeric)
    (hright : right.kind.toClass = .numeric) :
    Yields (·.kind.toClass = .numeric) (divide left right) := by
  unfold divide
  split
  · refine yields_ite (fun _ => .error trivial) ?_
    intro _
    split
    · exact .error trivial
    · refine yields_ite (fun _ => ?_) fun _ => yields_divideFloats _ hleft hright fun _ => rfl
      exact (yields_integerOrOverflow _).mono fun _ => congrArg Kind.toClass
  · exact yields_divideFloats _ hleft hright fun _ => rfl

/-- A remainder is an arithmetic result. -/
theorem yields_remainder (hleft : left.kind.toClass = .numeric)
    (hright : right.kind.toClass = .numeric) :
    Yields (Arithmetic [left, right]) (remainder left right) := by
  unfold remainder
  split
  · refine yields_ite (fun _ => .error trivial) ?_
    intro _
    exact (yields_integerOrOverflow _).mono fun _ => arithmetic_of_integer
  · next h =>
      exact yields_divideFloats _ hleft hright fun _ => arithmetic_of_float (not_all_integer h)

/-- A power is a number. -/
theorem yields_power (hleft : left.kind.toClass = .numeric)
    (hright : right.kind.toClass = .numeric) :
    Yields (·.kind.toClass = .numeric) (power left right) := by
  unfold power
  split
  · refine yields_ite (fun _ => ?_) fun _ => yields_floats hleft hright _ fun _ => rfl
    exact (yields_integerOrOverflow _).mono fun _ => congrArg Kind.toClass
  · exact yields_floats hleft hright _ fun _ => rfl

/-- Two numbers, and two strings, can be asked for their order. -/
theorem yields_compareValues (hclass : left.kind.toClass = right.kind.toClass)
    (h : left.kind.toClass = .numeric ∨ left.kind.toClass = .string) :
    Yields (fun _ => True) (compareValues left right) := by
  unfold compareValues
  split
  · exact .ok trivial
  · exact .ok trivial
  · exact .ok trivial
  · exact .ok trivial
  · next hstring =>
      rcases h with hleft | hleft
      · refine (Value.yields_expectFloat hleft).bind ?_
        intro _ _
        exact (Value.yields_expectFloat (hclass ▸ hleft)).bind fun _ _ => .ok trivial
      · obtain ⟨s, rfl⟩ := Value.string_cases hleft
        obtain ⟨t, rfl⟩ := Value.string_cases (hclass ▸ hleft)
        exact (hstring s t rfl rfl).elim

theorem yields_ordered (test : Ordering → Bool) (hclass : left.kind.toClass = right.kind.toClass)
    (h : left.kind.toClass = .numeric ∨ left.kind.toClass = .string) :
    Yields (·.HasKind .boolean) (ordered test left right) :=
  (yields_compareValues hclass h).bind fun _ _ => .ok (.boolean _)

/-- An operator without a decision in it computes a truth value from two truth values. -/
theorem yields_connective (decide : Bool → Bool → Bool) (hleft : left.kind.toClass = .boolean)
    (hright : right.kind.toClass = .boolean) :
    Yields (·.HasKind .boolean) (do
      let a ← left.expectBool
      let b ← right.expectBool
      return Value.boolean (decide a b)) :=
  (Value.yields_expectBool hleft).bind fun _ _ =>
    (Value.yields_expectBool hright).bind fun _ _ => .ok (.boolean _)

/-- The operands of a pair have the class of the group, which is one of the allowed ones. -/
theorem takes_paired {group : List KindClass} {returns : ResultRule}
    {groupClass : Option KindClass} (h : (paired group returns).Takes groupClass [left, right]) :
    groupClass = some left.kind.toClass ∧ left.kind.toClass = right.kind.toClass ∧
      (group = [] ∨ left.kind.toClass ∈ group) := by
  obtain ⟨hoperands, hallowed⟩ := h
  cases hoperands with
  | cons hleft hrest =>
      cases hrest with
      | cons hright _ =>
          have hgroup : groupClass = some left.kind.toClass := hleft
          refine ⟨hgroup, Option.some.inj (hgroup.symm.trans hright), ?_⟩
          simpa [Signature.allows, paired] using hallowed _ hgroup

/-- The sum of two numbers is arithmetic; two strings, and two byte arrays, are joined. -/
theorem yields_add {groupClass : Option KindClass} (hgroup : groupClass = some left.kind.toClass)
    (hclass : left.kind.toClass = right.kind.toClass)
    (h : left.kind.toClass = .numeric ∨ left.kind.toClass = .string ∨
      left.kind.toClass = .byteArray) :
    Yields (add.signature.Promises groupClass [left, right]) (apply .add left right) := by
  rcases h with hleft | hleft | hleft
  · have hsum : apply .add left right = exactOrRounded Integer.add? (· + ·) left right := by
      obtain ⟨i, rfl⟩ | ⟨x, rfl⟩ := Value.numeric_cases hleft <;> rfl
    rw [hsum]
    exact (yields_exactOrRounded _ _ hleft (hclass ▸ hleft)).mono fun _ =>
      promises_of_arithmetic rfl rfl (hleft ▸ hgroup)
  · obtain ⟨s, rfl⟩ := Value.string_cases hleft
    obtain ⟨t, rfl⟩ := Value.string_cases (hclass ▸ hleft)
    exact Yields.ok ⟨hgroup, fun _ h => nomatch h⟩
  · obtain ⟨a, rfl⟩ := Value.byteArray_cases hleft
    obtain ⟨b, rfl⟩ := Value.byteArray_cases (hclass ▸ hleft)
    exact Yields.ok ⟨hgroup, fun _ h => nomatch h⟩

/-- The operands of a connective are truth values. -/
theorem takes_booleans {groupClass : Option KindClass}
    (h : (Signature.fixed [.boolean, .boolean] .boolean).Takes groupClass [left, right]) :
    left.kind.toClass = .boolean ∧ right.kind.toClass = .boolean := by
  obtain ⟨hoperands, -⟩ := h
  cases hoperands with
  | cons hleft hrest =>
      cases hrest with
      | cons hright _ => exact ⟨hleft, hright⟩

/-- A binary operator keeps the promise of its signature. -/
theorem yields_apply (operator : BinaryOperator) {groupClass : Option KindClass}
    (h : operator.signature.Takes groupClass [left, right]) :
    Yields (operator.signature.Promises groupClass [left, right])
      (operator.apply left right) := by
  cases operator with
  | add =>
      obtain ⟨hgroup, hclass, hallowed⟩ := takes_paired h
      exact yields_add hgroup hclass (by simpa using hallowed)
  | sub | mul =>
      obtain ⟨hgroup, hclass, hallowed⟩ := takes_paired h
      have hleft : left.kind.toClass = .numeric := by simpa using hallowed
      exact (yields_exactOrRounded _ _ hleft (hclass ▸ hleft)).mono fun _ =>
        promises_of_arithmetic rfl rfl (hleft ▸ hgroup)
  | mod =>
      obtain ⟨hgroup, hclass, hallowed⟩ := takes_paired h
      have hleft : left.kind.toClass = .numeric := by simpa using hallowed
      exact (yields_remainder hleft (hclass ▸ hleft)).mono fun _ =>
        promises_of_arithmetic rfl rfl (hleft ▸ hgroup)
  | div =>
      obtain ⟨-, hclass, hallowed⟩ := takes_paired h
      have hleft : left.kind.toClass = .numeric := by simpa using hallowed
      exact yields_divide hleft (hclass ▸ hleft)
  | pow =>
      obtain ⟨-, hclass, hallowed⟩ := takes_paired h
      have hleft : left.kind.toClass = .numeric := by simpa using hallowed
      exact yields_power hleft (hclass ▸ hleft)
  | less | lessEqual | greater | greaterEqual =>
      obtain ⟨-, hclass, hallowed⟩ := takes_paired h
      exact yields_ordered _ hclass (by simpa using hallowed)
  | equal | notEqual => exact .ok (.boolean _)
  | and | or =>
      obtain ⟨hleft, hright⟩ := takes_booleans h
      refine (Value.yields_expectBool hleft).bind ?_
      intro a _
      cases a <;> first
        | exact .ok (.boolean _)
        | exact (Value.yields_expectBool hright).bind fun _ _ => .ok (.boolean _)
  | xor =>
      obtain ⟨hleft, hright⟩ := takes_booleans h
      exact yields_connective _ hleft hright

end BinaryOperator

namespace UnaryOperator

/-- A prefix operator keeps the promise of its signature. -/
theorem yields_apply (operator : UnaryOperator) {groupClass : Option KindClass} {operand : Value}
    (h : operator.signature.Takes groupClass [operand]) :
    Yields (operator.signature.Promises groupClass [operand]) (operator.apply operand) := by
  obtain ⟨hoperands, hallowed⟩ := h
  cases operator with
  | negate | plus =>
      cases hoperands with
      | cons hoperand _ =>
          have hgroup : groupClass = some operand.kind.toClass := hoperand
          have hclass : operand.kind.toClass = .numeric := by
            simpa [Signature.allows, signature] using hallowed _ hgroup
          refine Yields.mono (P := Arithmetic [operand]) ?_ fun _ =>
            promises_of_arithmetic rfl rfl (hclass ▸ hgroup)
          obtain ⟨i, rfl⟩ | ⟨x, rfl⟩ := Value.numeric_cases hclass
          · first
              | exact (yields_integerOrOverflow _).mono fun _ => arithmetic_of_integer
              | exact .ok (arithmetic_of_integer rfl)
          · exact Yields.ok (arithmetic_of_float (by simp [Value.kind]))
  | not =>
      cases hoperands with
      | cons hoperand _ =>
          refine (Value.yields_expectBool ?_).bind fun _ _ => .ok (.boolean _)
          cases operand <;> first | rfl | cases hoperand

end UnaryOperator

end Reckon
