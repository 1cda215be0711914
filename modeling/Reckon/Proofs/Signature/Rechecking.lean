import Reckon.Proofs.Signature.Resolution

/-!
# Checking an accepted signature again

A signature is checked on the kinds that operands have when their operation is built. Later an
operand may turn out to be more specific: a number becomes an integer, or a float. What
`returnKind_of_refines` says of a second check is that it fails in one way only, at the first
operand that is asked for an integer and has become a float (`misfit?`), and that it otherwise
returns the kind that it returned before, or a more specific one.
-/

namespace Reckon

open List (Forall₂)

/-- Where a kind may stand for another one, so may a kind that refines it, unless it is a float and
an integer is asked for. -/
theorem Kind.standsFor_of_wider {narrow wide required : Kind} (h : narrow.Refines wide)
    (hstands : wide.standsFor required = true) :
    narrow.standsFor required = true ∨ narrow = .float ∧ required = .integer := by
  cases h with
  | refl => exact .inl hstands
  | number mode =>
      cases required with
      | numeric asked => cases mode <;> cases asked <;> simp [standsFor, toClass]
      | string | boolean | byteArray => cases hstands

namespace Signature

/-- An operand that is asked for an integer and is known to be a float. -/
def isMisfit : Requirement × Kind → Bool
  | (.kind .integer, .float) => true
  | _ => false

/-- The index of the first operand that is asked for an integer and is known to be a float. -/
def misfit? (signature : Signature) (kinds : List Kind) : Option Nat :=
  (signature.arguments.zip kinds).findIdx? isMisfit

/-- A misfit is asked for an integer, and is a float. -/
theorem misfit?_eq_some {signature : Signature} {kinds : List Kind} {i : Nat}
    (h : signature.misfit? kinds = some i) :
    signature.arguments[i]? = some (.kind .integer) ∧ kinds[i]? = some .float := by
  obtain ⟨hi, hmisfit, -⟩ := List.findIdx?_eq_some_iff_getElem.mp h
  rw [List.getElem_zip] at hmisfit
  rw [List.length_zip, Nat.lt_min] at hi
  unfold isMisfit at hmisfit
  split at hmisfit
  · next heq =>
      obtain ⟨hrequirement, hkind⟩ := Prod.mk.inj heq
      exact ⟨List.getElem?_eq_some_iff.mpr ⟨hi.1, hrequirement⟩,
        List.getElem?_eq_some_iff.mpr ⟨hi.2, hkind⟩⟩
  · cases hmisfit

/-- An operand whose kind stands for what is asked of it is no misfit. -/
theorem isMisfit_kind {required kind : Kind} (h : kind.standsFor required = true) :
    isMisfit (.kind required, kind) = false := by
  cases required with
  | numeric asked =>
      cases kind with
      | numeric mode => cases asked <;> cases mode <;> first | rfl | cases h
      | string | boolean | byteArray => cases asked <;> rfl
  | string | boolean | byteArray => rfl

variable {narrow wide : List Kind} (hrefines : Forall₂ Kind.Refines narrow wide)
include hrefines

/-- A scan that succeeds finds the same class for more specific kinds, unless one of them is a
misfit; then it stops there. -/
theorem scan_of_refines {requirements : List Requirement} {position : Nat}
    {start found : Option KindClass}
    (h : scan position start requirements (wide.map some) = .ok found) :
    scan position start requirements (narrow.map some) =
      match (requirements.zip narrow).findIdx? isMisfit with
      | none => .ok found
      | some i => .error (.operand (position + i) .integer .float) := by
  induction hrefines generalizing requirements position start with
  | nil =>
      rw [List.map_nil] at h ⊢
      simp [h]
  | @cons kind other narrow wide hfirst hrest ih =>
      cases requirements with
      | nil => simpa [scan] using h
      | cons requirement requirements =>
          -- Behind an operand that fits, the index of the misfit is counted from the next one.
          have hstep (hfit : isMisfit (requirement, kind) = false) (next : Option KindClass)
              (h : scan (position + 1) next requirements (wide.map some) = .ok found) :
              scan (position + 1) next requirements (narrow.map some) =
                match ((requirement :: requirements).zip (kind :: narrow)).findIdx? isMisfit with
                | none => .ok found
                | some i => .error (.operand (position + i) .integer .float) := by
            rw [ih h, List.zip_cons_cons, List.findIdx?_cons, hfit]
            cases (requirements.zip narrow).findIdx? isMisfit with
            | none => rfl
            | some i => simp [Nat.add_assoc, Nat.add_comm 1]
          cases requirement with
          | kind required =>
              by_cases hwide : other.standsFor required = true
              · simp only [List.map_cons, scan, hwide, if_true] at h
                rcases Kind.standsFor_of_wider hfirst hwide with hstands | ⟨rfl, rfl⟩
                · simp only [List.map_cons, scan, hstands, if_true]
                  exact hstep (isMisfit_kind hstands) start h
                · rfl
              · simp [scan, hwide] at h
          | group =>
              have hclass := hfirst.toClass_eq
              cases start with
              | none =>
                  simp only [List.map_cons, scan] at h ⊢
                  rw [hclass]
                  exact hstep rfl _ h
              | some expected =>
                  by_cases hexpected : expected = other.toClass
                  · simp only [List.map_cons, scan, hclass, hexpected, if_true] at h ⊢
                    exact hstep rfl _ h
                  · simp [scan, hexpected] at h

/-- More specific kinds give the group the same class. -/
theorem groupClass_of_refines (signature : Signature) :
    signature.groupClass (narrow.map some) = signature.groupClass (wide.map some) := by
  unfold groupClass
  refine congrArg signature.onlyClass?.or ?_
  generalize signature.arguments = requirements
  induction hrefines generalizing requirements with
  | nil => rfl
  | @cons kind other narrow wide hfirst hrest ih =>
      cases requirements with
      | nil => rfl
      | cons requirement requirements =>
          have hrest := ih requirements
          unfold knownClass at hrest ⊢
          simp only [List.map_cons, List.zip_cons_cons, List.findSome?_cons, hrest]
          cases requirement with
          | kind required => rfl
          | group => simp [memberClass, hfirst.toClass_eq]

/-- Where more specific kinds resolve too, the kind of their result is as specific or more. -/
theorem refines_resolve {signature : Signature} {resolution answer : Resolution}
    (hnarrow : signature.resolve (narrow.map some) = .ok resolution)
    (hwide : signature.resolve (wide.map some) = .ok answer) :
    (resolution.returns.getD .number).Refines (answer.returns.getD .number) := by
  have hwider : Forall₂ Kind.Wider (wide.map some) (narrow.map some) := by
    rw [List.forall₂_map_left_iff, List.forall₂_map_right_iff]
    exact hrefines.flip.imp fun _ _ h => .known h
  obtain ⟨-, hfits, -, rfl⟩ := resolve_iff.mp hnarrow
  obtain ⟨-, -, -, rfl⟩ := resolve_iff.mp hwide
  have hresult := result_of_wider hwider hfits
  rw [groupClass_of_refines hrefines] at hresult ⊢
  cases hreturns : signature.returns with
  | kind fixed =>
      simp only [result, hreturns]
      exact .refl fixed
  | group | widened =>
      simp only [result, hreturns] at hresult ⊢
      cases hclass : signature.groupClass (wide.map some) with
      | none => exact .refl .number
      | some found =>
          rw [hclass] at hresult
          cases hresult with
          | known h => exact h

/-- A second check, on kinds that refine those of the first, fails at the first misfit; without one
it returns the kind of the first check or a more specific one. -/
theorem returnKind_of_refines {signature : Signature} {kind : Kind}
    (h : signature.returnKind wide = .ok kind) :
    match signature.misfit? narrow with
    | none => ∃ found, signature.returnKind narrow = .ok found ∧ found.Refines kind
    | some i => signature.returnKind narrow = .error (.operand (i + 1) .integer .float) := by
  cases hwide : signature.resolve (wide.map some) with
  | error fault => simp [returnKind, hwide, Except.map] at h
  | ok answer =>
      obtain ⟨hlength, groupClass, hscan, hallowed, -⟩ := resolve_eq_ok hwide
      obtain rfl : answer.returns.getD .number = kind := by
        simpa [returnKind, hwide, Except.map] using h
      have hlength : (narrow.map some).length = signature.arity := by
        simpa [hrefines.length_eq] using hlength
      have hscan := scan_of_refines hrefines hscan
      unfold misfit?
      cases hmisfit : (signature.arguments.zip narrow).findIdx? isMisfit with
      | some i =>
          rw [hmisfit] at hscan
          simp [returnKind, resolve, hlength, hscan, Except.map, bind, Except.bind, Nat.add_comm]
      | none =>
          rw [hmisfit] at hscan
          obtain ⟨rfl, hfits⟩ := (scan_iff hlength).mp hscan
          have hnarrow := resolve_iff.mpr ⟨hlength, hfits, hallowed, rfl⟩
          refine ⟨_, ?_, refines_resolve hrefines hnarrow hwide⟩
          rw [returnKind, hnarrow]
          rfl

end Signature

end Reckon
