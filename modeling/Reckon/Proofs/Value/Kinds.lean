import Reckon.Node.Evaluate

/-!
# Values of a kind

`Value.HasKind v k` says that the value `v` belongs to the static kind `k`: any number belongs to
`number`, and otherwise the kinds are the same. `Kind.Refines k l` is the matching order of kinds,
by which a subtree may become more specific than it was when the tree above it was checked.
Adjusting a value to a kind and widening a result to the kind of its node both end in that kind, and
agree whenever the node's kind was right.
-/

namespace Reckon

/-- The value belongs to the kind: an integer or a float to its own kind and to `number`, any other
value to its own kind only. -/
inductive Value.HasKind : Value → Kind → Prop where
  | integer (i : Int64) : HasKind (.integer i) .integer
  | float (x : Float) : HasKind (.float x) .float
  | wholeNumber (i : Int64) : HasKind (.integer i) .number
  | realNumber (x : Float) : HasKind (.float x) .number
  | string (s : String) : HasKind (.string s) .string
  | boolean (b : Bool) : HasKind (.boolean b) .boolean
  | byteArray (bytes : List UInt8) : HasKind (.byteArray bytes) .byteArray

/-- The kind says the same as another one, or it says more about a number. -/
inductive Kind.Refines : Kind → Kind → Prop where
  | refl (kind : Kind) : Refines kind kind
  | number (mode : Mode) : Refines (.numeric mode) .number

namespace Kind

theorem Refines.trans {a b c : Kind} (hab : a.Refines b) (hbc : b.Refines c) : a.Refines c := by
  cases hbc with
  | refl => exact hab
  | number mode =>
      cases hab with
      | refl => exact .number mode
      | number mode => exact .number mode

theorem Refines.toClass_eq {a b : Kind} (h : a.Refines b) : a.toClass = b.toClass := by
  cases h <;> rfl

/-- Where a kind may stand for another, their classes agree. -/
theorem toClass_eq_of_standsFor {kind required : Kind} (h : kind.standsFor required = true) :
    kind.toClass = required.toClass := by
  unfold standsFor at h
  split at h
  · exact absurd h (by simp)
  · simpa using h

/-- Every kind has a value. -/
theorem exists_hasKind (kind : Kind) : ∃ value : Value, value.HasKind kind := by
  cases kind with
  | numeric mode =>
      cases mode with
      | any => exact ⟨_, .wholeNumber 0⟩
      | integer => exact ⟨_, .integer 0⟩
      | float => exact ⟨_, .float 0⟩
  | string => exact ⟨_, .string ""⟩
  | boolean => exact ⟨_, .boolean false⟩
  | byteArray => exact ⟨_, .byteArray []⟩

end Kind

namespace Value

theorem hasKind_kind (value : Value) : value.HasKind value.kind := by
  cases value <;> constructor

/-- A value belongs to the kinds that its exact kind refines. -/
theorem hasKind_iff_refines {value : Value} {kind : Kind} :
    value.HasKind kind ↔ value.kind.Refines kind := by
  constructor
  · intro h
    cases h <;> constructor
  · intro h
    cases value <;> cases h <;> constructor

theorem HasKind.weaken {value : Value} {kind other : Kind} (h : value.HasKind kind)
    (hrefines : kind.Refines other) : value.HasKind other :=
  hasKind_iff_refines.mpr ((hasKind_iff_refines.mp h).trans hrefines)

theorem HasKind.toClass_eq {value : Value} {kind : Kind} (h : value.HasKind kind) :
    value.kind.toClass = kind.toClass :=
  (hasKind_iff_refines.mp h).toClass_eq

theorem hasKind_widest (value : Value) : value.HasKind value.kind.toClass.widest := by
  cases value <;> constructor

theorem hasKind_number {value : Value} (h : value.kind.toClass = .numeric) :
    value.HasKind .number := by
  cases value with
  | integer i => exact .wholeNumber i
  | float x => exact .realNumber x
  | string | boolean | byteArray => cases h

theorem numeric_cases {value : Value} (h : value.kind.toClass = .numeric) :
    (∃ i, value = .integer i) ∨ ∃ x, value = .float x := by
  cases value with
  | integer i => exact .inl ⟨i, rfl⟩
  | float x => exact .inr ⟨x, rfl⟩
  | string | boolean | byteArray => cases h

theorem string_cases {value : Value} (h : value.kind.toClass = .string) :
    ∃ s, value = .string s := by
  cases value with
  | string s => exact ⟨s, rfl⟩
  | integer | float | boolean | byteArray => cases h

theorem boolean_cases {value : Value} (h : value.kind.toClass = .boolean) :
    ∃ b, value = .boolean b := by
  cases value with
  | boolean b => exact ⟨b, rfl⟩
  | integer | float | string | byteArray => cases h

theorem byteArray_cases {value : Value} (h : value.kind.toClass = .byteArray) :
    ∃ bytes, value = .byteArray bytes := by
  cases value with
  | byteArray bytes => exact ⟨bytes, rfl⟩
  | integer | float | string | boolean => cases h

/-- A value that was adjusted to a kind belongs to it. -/
theorem hasKind_of_adjust {value adjusted : Value} {kind : Kind}
    (h : value.adjust? kind = some adjusted) : adjusted.HasKind kind := by
  unfold adjust? at h
  split at h
  · cases h
    exact .float _
  · obtain ⟨i, -, rfl⟩ := Option.map_eq_some_iff.mp h
    exact .integer i
  · next hinteger hfloat =>
      obtain ⟨hclass, hvalue⟩ := Option.ite_none_right_eq_some.mp h
      cases hvalue
      cases value with
      | integer i =>
          cases kind with
          | numeric mode =>
              cases mode with
              | float => exact absurd rfl (hinteger i rfl)
              | any => exact .wholeNumber i
              | integer => exact .integer i
          | string | boolean | byteArray => cases hclass
      | float x =>
          cases kind with
          | numeric mode =>
              cases mode with
              | integer => exact absurd rfl (hfloat x rfl)
              | any => exact .realNumber x
              | float => exact .float x
          | string | boolean | byteArray => cases hclass
      | string | boolean | byteArray =>
          cases kind <;> first | constructor | cases hclass

end Value

namespace Node

theorem widen_of_hasKind {value : Value} {kind : Kind} (h : value.HasKind kind) :
    widen kind value = value := by
  cases h <;> rfl

theorem widen_widen (kind : Kind) (value : Value) :
    widen kind (widen kind value) = widen kind value := by
  cases kind with
  | numeric mode => cases mode <;> cases value <;> rfl
  | string | boolean | byteArray => rfl

/-- A truth value is never widened. -/
@[simp] theorem widen_boolean (kind : Kind) (b : Bool) :
    widen kind (.boolean b) = .boolean b := by
  unfold widen
  split
  · next h => cases h
  · rfl

theorem hasKind_widen_float {value : Value} (h : value.kind.toClass = .numeric) :
    (widen .float value).HasKind .float := by
  obtain ⟨i, rfl⟩ | ⟨x, rfl⟩ := Value.numeric_cases h
  · exact .float _
  · exact .float x

/-- Where widening ends in the node's kind, the value can be adjusted to that kind, and widening
does the same. -/
theorem adjust_eq_widen {value : Value} {kind : Kind} (h : (widen kind value).HasKind kind) :
    value.adjust? kind = some (widen kind value) := by
  unfold Value.adjust?
  split
  · rfl
  · cases h
  · next hinteger _ =>
      have hwiden : widen kind value = value := by
        unfold widen
        split
        · exact absurd rfl (hinteger _ rfl)
        · rfl
      rw [hwiden] at h ⊢
      exact if_pos h.toClass_eq

end Node

end Reckon
