import Reckon.Text.Basic

/-!
# Generated names

Pieces that are cut out of a source are referred to by generated names: a stem and a counter. A name
that occurs anywhere in the source is passed over, so a generated name is never something that the
source says. Only finitely many names occur in a source, so there is always a next one.
-/

namespace Reckon

/-- A supply of names that do not occur in a source. -/
structure NameSupply where
  stem : Text
  source : Text
  next : Nat

namespace NameSupply

/-- The name with a number. -/
def nameOf (stem : Text) (n : Nat) : Text :=
  stem ++ Nat.toDigits 10 n

/-- A pattern that occurs in a text is not longer than the text. -/
theorem length_le_of_contains {pattern text : Text} (h : Text.contains pattern text = true) :
    pattern.length ≤ text.length := by
  induction text with
  | nil =>
      cases pattern with
      | nil => simp
      | cons c rest => simp [Text.contains, Text.splitFirst] at h
  | cons c rest ih =>
      rw [Text.contains, Text.splitFirst] at h
      split at h
      · next found => exact (List.isPrefixOf_iff_prefix.mp found).length_le
      · have := ih (by simpa [Text.contains] using h)
        exact Nat.le_succ_of_le this

/-- A number whose name occurs in a text has fewer digits than the text has characters, so it is
bounded. -/
theorem lt_of_contains {stem source : Text} {n : Nat}
    (h : Text.contains (nameOf stem n) source = true) : n < Nat.pow 10 (source.length + 1) := by
  have bound := length_le_of_contains h
  rw [nameOf, List.length_append] at bound
  exact (Nat.length_toDigits_le_iff (by decide) (Nat.succ_pos _)).mp (by omega)

/-- The first number from `n` on whose name does not occur in the source. -/
def freshFrom (stem source : Text) (n : Nat) : Nat :=
  if Text.contains (nameOf stem n) source then freshFrom stem source (n + 1) else n
termination_by Nat.pow 10 (source.length + 1) - n
decreasing_by
  have := lt_of_contains (by assumption)
  omega

/-- The next name, and the supply of the names after it. -/
def take (names : NameSupply) : Text × NameSupply :=
  let n := freshFrom names.stem names.source names.next
  (nameOf names.stem n, { names with next := n + 1 })

end NameSupply

end Reckon
