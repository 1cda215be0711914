import Reckon.Proofs.Value.Kinds
import Reckon.Proofs.Value.Literals
import Reckon.Value.Reading

/-!
# Printed values read back

The text of a value that is no float, read as a value of a kind of its class, is that value in the
form that the kind asks for (`Value.read_write`). So it makes no difference for a parameter whether
it is given the value or the value that its text spells: what was adjusted to a kind once stays as
it is (`Value.adjust_adjust`).
-/

namespace Reckon

/-- The text of an integer is read as that integer. -/
theorem Decimal.readInt64_writeInteger (i : Int64) :
    readInt64? (Value.writeInteger i) = some i := by
  unfold Value.writeInteger
  split
  · next hnegative =>
      have htext : splitSign ('-' :: Nat.toDigits 10 i.toInt.natAbs) =
          (true, Nat.toDigits 10 i.toInt.natAbs) := rfl
      refine readInt64_of_splitSign htext ?_
      rw [Exact.signed, if_pos rfl]
      omega
  · next hnonneg => exact readInt64_toDigits (Int.not_lt.mp hnonneg)

namespace Value

variable {value adjusted : Value} {kind : Kind}

/-- The text of a value that is no float is read in every kind of its class as the value in the form
that the kind asks for. -/
theorem read_write (hfloat : value.kind ≠ .float) (hclass : value.kind.toClass = kind.toClass) :
    read? kind value.write = value.adjust? kind := by
  cases value with
  | integer i =>
      cases kind with
      | numeric mode =>
          show (readNumber? (writeInteger i)).bind (·.adjust? (.numeric mode)) = _
          rw [readNumber?, Decimal.readInt64_writeInteger]
          rfl
      | string | boolean | byteArray => cases hclass
  | float x => exact absurd rfl hfloat
  | string s =>
      cases kind with
      | string =>
          show some (Value.string (String.ofList s.toList)) = some (.string s)
          rw [String.ofList_toList]
      | numeric | boolean | byteArray => cases hclass
  | boolean b =>
      cases kind with
      | boolean => cases b <;> rfl
      | numeric | string | byteArray => cases hclass
  | byteArray bytes =>
      cases kind with
      | byteArray =>
          show (Hex.decode (Hex.encode bytes)).map Value.byteArray = some (.byteArray bytes)
          rw [Hex.decode_encode, Option.map_some]
      | numeric | string | boolean => cases hclass

/-- A value that is no float can be adjusted to every kind of its class. -/
theorem exists_adjust (hfloat : value.kind ≠ .float) (hclass : value.kind.toClass = kind.toClass) :
    ∃ adjusted, value.adjust? kind = some adjusted := by
  unfold adjust?
  split
  · exact ⟨_, rfl⟩
  · exact absurd rfl hfloat
  · exact ⟨_, if_pos hclass⟩

theorem adjust_of_hasKind (h : value.HasKind kind) : value.adjust? kind = some value := by
  cases h <;> rfl

/-- A value that was adjusted to a kind is in the form that the kind asks for. -/
theorem adjust_adjust (h : value.adjust? kind = some adjusted) :
    adjusted.adjust? kind = some adjusted :=
  adjust_of_hasKind (hasKind_of_adjust h)

end Value

end Reckon
