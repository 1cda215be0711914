import Reckon.Formula
import Reckon.Proofs.Fallible
import Reckon.Proofs.Value.Kinds

/-!
# What specialization puts in place of parameters

Bindings take the parameters of a formula one after another. `Specialization.Places` says what
stands in place of one of them afterwards: the adjusted value if it is bound, and otherwise the
parameter at the slot where the remaining ones have it. `ofParameters_eq_ok` says this of all
parameters, and `ofParameters_eq` says when there is no result.
-/

namespace Reckon

namespace Bindings

/-- The bindings have no value for the parameter. -/
def leaves (bindings : Bindings) (parameter : TypedParameter) : Bool :=
  (bindings.get? parameter.name).isNone

/-- The bindings have a value for the parameter that cannot take its kind. -/
def refuses (bindings : Bindings) (parameter : TypedParameter) : Bool :=
  (bindings.get? parameter.name).any fun value => (value.adjust? parameter.kind).isNone

/-- The value of a parameter is the one that is bound to its name, adjusted to its kind. -/
theorem valueOf_eq_ok {bindings : Bindings} {parameter : TypedParameter} {adjusted : Value} :
    bindings.valueOf parameter = .ok adjusted ↔
      ∃ value, bindings.get? parameter.name = some value ∧
        value.adjust? parameter.kind = some adjusted := by
  unfold valueOf
  cases bindings.get? parameter.name with
  | none => simp
  | some value =>
      cases hadjust : value.adjust? parameter.kind with
      | none => simp [hadjust]
      | some adjusted => simp [hadjust]

theorem hasKind_of_valueOf {bindings : Bindings} {parameter : TypedParameter} {value : Value}
    (h : bindings.valueOf parameter = .ok value) : value.HasKind parameter.kind := by
  obtain ⟨_, -, hadjust⟩ := valueOf_eq_ok.mp h
  exact Value.hasKind_of_adjust hadjust

end Bindings

namespace Specialization

variable {bindings : Bindings} {before after : Specialization} {parameter : TypedParameter}

/-- What stands in place of a parameter: its adjusted value, or itself in another slot. -/
inductive Places (bindings : Bindings) (specialization : Specialization)
    (parameter : TypedParameter) : Prop where
  | bound {value adjusted : Value} (hget : bindings.get? parameter.name = some value)
      (hadjust : value.adjust? parameter.kind = some adjusted)
      (hlookup : specialization.substitution.lookup parameter.name =
        some (.constant (.computed adjusted)))
  | moved {slot : Nat} (hget : bindings.get? parameter.name = none)
      (hlookup : specialization.substitution.lookup parameter.name =
        some (.parameter ⟨parameter.name, some parameter.kind, slot⟩))
      (hslot : specialization.remaining[slot]? = some parameter)

/-- A further entry of the substitution and further slots leave a parameter of another name in
place. -/
theorem Places.extend {other : TypedParameter} {name : String} {node : Node}
    {more : List TypedParameter} (h : before.Places bindings other) (hname : other.name ≠ name) :
    Places bindings ⟨(name, node) :: before.substitution, before.remaining ++ more⟩ other := by
  have hlookup : ((name, node) :: before.substitution).lookup other.name =
      before.substitution.lookup other.name := by
    rw [List.lookup_cons, beq_false_of_ne hname]
  cases h with
  | bound hget hadjust h => exact .bound hget hadjust (hlookup.trans h)
  | moved hget h hslot =>
      refine .moved hget (hlookup.trans h) ?_
      rw [List.getElem?_append_left (List.getElem?_eq_some_iff.mp hslot).1]
      exact hslot

/-- Taking one more parameter places it, keeps it if it is not bound, and moves no other. -/
theorem add_eq_ok (h : add bindings before parameter = .ok after) :
    after.remaining = before.remaining ++ [parameter].filter bindings.leaves ∧
      after.Places bindings parameter ∧
      ∀ other : TypedParameter, other.name ≠ parameter.name → before.Places bindings other →
        after.Places bindings other := by
  unfold add at h
  split at h
  · obtain ⟨adjusted, hvalue, h⟩ := bind_eq_ok.mp h
    cases h
    obtain ⟨value, hget, hadjust⟩ := Bindings.valueOf_eq_ok.mp hvalue
    refine ⟨by simp [Bindings.leaves, hget], .bound hget hadjust ?_, fun other hname hother => ?_⟩
    · exact List.lookup_cons_self
    · have hkept : Places bindings ⟨(parameter.name, .constant (.computed adjusted)) ::
          before.substitution, before.remaining ++ []⟩ other := hother.extend hname
      rw [List.append_nil] at hkept
      exact hkept
  · next hunbound =>
      cases h
      have hget : bindings.get? parameter.name = none := by simpa using hunbound
      refine ⟨by simp [Bindings.leaves, hget], .moved hget List.lookup_cons_self ?_,
        fun other hname hother => hother.extend hname⟩
      rw [List.getElem?_append_right (Nat.le_refl _), Nat.sub_self]
      rfl

/-- A parameter that is taken has been bound to a value of its kind, or has not been bound. -/
theorem exists_add (before : Specialization) (h : bindings.refuses parameter = false) :
    ∃ after, add bindings before parameter = .ok after := by
  unfold add
  split
  · next hbound =>
      obtain ⟨value, hget⟩ := Option.isSome_iff_exists.mp hbound
      have hadjust : (value.adjust? parameter.kind).isSome := by
        simpa [Bindings.refuses, hget] using h
      obtain ⟨adjusted, hadjust⟩ := Option.isSome_iff_exists.mp hadjust
      rw [Bindings.valueOf_eq_ok.mpr ⟨value, hget, hadjust⟩]
      exact ⟨_, rfl⟩
  · exact ⟨_, rfl⟩

/-- A parameter that is refused is the end. -/
theorem add_of_refuses (h : bindings.refuses parameter = true) :
    ∃ value, bindings.get? parameter.name = some value ∧ add bindings before parameter =
      .error (.parameterKind parameter.name parameter.kind value.kind) := by
  unfold Bindings.refuses at h
  cases hget : bindings.get? parameter.name with
  | none => simp [hget] at h
  | some value =>
      have hadjust : value.adjust? parameter.kind = none := by simpa [hget] using h
      refine ⟨value, rfl, ?_⟩
      unfold add Bindings.valueOf
      rw [hget]
      simp only [hadjust]
      rfl

variable {parameters : List TypedParameter}

/-- Taking several parameters, each of its own name, places all of them, and keeps those that are
not bound in their order. -/
theorem foldlM_eq_ok (hdistinct : (parameters.map (·.name)).Nodup)
    (h : parameters.foldlM (add bindings) before = .ok after) :
    after.remaining = before.remaining ++ parameters.filter bindings.leaves ∧
      (∀ parameter ∈ parameters, after.Places bindings parameter) ∧
      ∀ other : TypedParameter, other.name ∉ parameters.map (·.name) →
        before.Places bindings other → after.Places bindings other := by
  induction parameters generalizing before with
  | nil =>
      cases h
      exact ⟨by simp, nofun, fun _ _ h => h⟩
  | cons parameter parameters ih =>
      obtain ⟨hnew, hdistinct⟩ := List.nodup_cons.mp hdistinct
      obtain ⟨next, hnext, h⟩ := bind_eq_ok.mp h
      obtain ⟨hremaining, hplaced, hkept⟩ := add_eq_ok hnext
      -- The names differ, so what is placed first stays in place while the others are taken.
      obtain ⟨hremainings, hplaceds, hkepts⟩ := ih hdistinct h
      refine ⟨?_, ?_, fun other hname hother => ?_⟩
      · rw [hremainings, hremaining, List.append_assoc, ← List.filter_append]
        rfl
      · exact List.forall_mem_cons.mpr ⟨hkepts parameter hnew hplaced, hplaceds⟩
      · rw [List.map_cons, List.mem_cons, not_or] at hname
        exact hkepts other hname.2 (hkept other hname.1 hother)

/-- A specialization places all parameters, and keeps those that are not bound in their order. -/
theorem ofParameters_eq_ok {specialization : Specialization}
    (hdistinct : (parameters.map (·.name)).Nodup)
    (h : ofParameters bindings parameters = .ok specialization) :
    specialization.remaining = parameters.filter bindings.leaves ∧
      ∀ parameter ∈ parameters, specialization.Places bindings parameter := by
  obtain ⟨hremaining, hplaced, -⟩ := foldlM_eq_ok hdistinct h
  exact ⟨hremaining, hplaced⟩

/-- Parameters are taken until one of them is refused, and the first one is reported. -/
theorem foldlM_eq (bindings : Bindings) (parameters : List TypedParameter)
    (before : Specialization) :
    match parameters.find? bindings.refuses with
    | some refused => ∃ value, bindings.get? refused.name = some value ∧
        parameters.foldlM (add bindings) before =
          .error (.parameterKind refused.name refused.kind value.kind)
    | none => ∃ after, parameters.foldlM (add bindings) before = .ok after := by
  induction parameters generalizing before with
  | nil => exact ⟨before, rfl⟩
  | cons parameter parameters ih =>
      rw [List.foldlM_cons]
      cases hrefused : bindings.refuses parameter with
      | true =>
          rw [List.find?_cons_of_pos hrefused]
          obtain ⟨value, hget, hadd⟩ := add_of_refuses hrefused
          exact ⟨value, hget, by rw [hadd]; rfl⟩
      | false =>
          rw [List.find?_cons_of_neg (by simp [hrefused])]
          obtain ⟨next, hnext⟩ := exists_add before hrefused
          rw [hnext]
          exact ih next

/-- There is no specialization exactly when a parameter is refused, and the first one is
reported. -/
theorem ofParameters_eq (bindings : Bindings) (parameters : List TypedParameter) :
    match parameters.find? bindings.refuses with
    | some refused => ∃ value, bindings.get? refused.name = some value ∧
        ofParameters bindings parameters =
          .error (.parameterKind refused.name refused.kind value.kind)
    | none => ∃ specialization, ofParameters bindings parameters = .ok specialization :=
  foldlM_eq bindings parameters start

/-- Where there is a specialization, no parameter is refused. -/
theorem refuses_of_ofParameters {specialization : Specialization}
    (h : ofParameters bindings parameters = .ok specialization) :
    ∀ parameter ∈ parameters, bindings.refuses parameter = false := by
  have hparameters := ofParameters_eq bindings parameters
  cases hfind : parameters.find? bindings.refuses with
  | none => simpa using hfind
  | some refused =>
      rw [hfind] at hparameters
      obtain ⟨value, -, herror⟩ := hparameters
      rw [herror] at h
      cases h

end Specialization

end Reckon
