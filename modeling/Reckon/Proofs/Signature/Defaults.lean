import Reckon.Proofs.Signature.Resolution

/-!
# Numbers by default

What stays unknown in the end counts as a number. `returnKind_defaults` says when operand kinds that
were resolved with some of them unknown are still accepted after that, and that the kind of the
result is then the one that was known, or a number.
-/

namespace Reckon

open List (Forall₂)

namespace Signature

/-- An operand fits, and nothing more would be demanded of it if its kind were known. -/
def Quiet (groupClass : Option KindClass) (requirement : Requirement) (known : Option Kind) :
    Prop :=
  requirement.Fits groupClass known ∧ (known = none → demand groupClass requirement none = none)

/-- The kinds with a number for each that is unknown. -/
def defaults (kinds : List (Option Kind)) : List Kind :=
  kinds.map fun known => known.getD .number

variable {signature : Signature} {kinds : List (Option Kind)}

/-- Resolution fails for operands that fit if the class of their group is not allowed. -/
theorem resolve_unsupported {found : KindClass} (hlength : kinds.length = signature.arity)
    (hfits : Forall₂ (Requirement.Fits (signature.groupClass kinds)) signature.arguments kinds)
    (hclass : signature.groupClass kinds = some found) (hallows : signature.allows found = false) :
    signature.resolve kinds = .error (.unsupported found) := by
  have hscan : scan 1 signature.onlyClass? signature.arguments kinds = .ok (some found) :=
    (scan_iff hlength).mpr ⟨hclass.symm, hclass ▸ hfits⟩
  rw [resolve, if_neg (not_not.mpr hlength)]
  simp only [hscan, bind, Except.bind, hallows]
  rfl

/-- What is unknown counts as a number in the modes of the group already. -/
theorem groupModes_defaults (signature : Signature) (kinds : List (Option Kind)) :
    signature.groupModes ((defaults kinds).map some) = signature.groupModes kinds := by
  unfold groupModes defaults
  generalize signature.arguments = requirements
  induction kinds generalizing requirements with
  | nil => rfl
  | cons known kinds ih =>
      cases requirements with
      | nil => rfl
      | cons requirement requirements =>
          simp only [List.map_cons, List.zip_cons_cons, List.filterMap_cons, ih requirements]
          cases known with
          | none => rfl
          | some kind => rfl

/-- Where something would be demanded of every unknown kind, and nothing is, every kind is known. -/
theorem defaults_of_demand {groupClass : Option KindClass} {requirements : List Requirement}
    (h : Forall₂ (Quiet groupClass) requirements kinds)
    (hdemand : ∀ requirement ∈ requirements, demand groupClass requirement none ≠ none) :
    (defaults kinds).map some = kinds := by
  induction h with
  | nil => rfl
  | @cons requirement known requirements kinds hfirst hrest ih =>
      rw [List.forall_mem_cons] at hdemand
      have hknown : some (known.getD .number) = known := by
        cases known with
        | some kind => rfl
        | none => exact absurd (hfirst.2 rfl) hdemand.1
      have hrest := ih hdemand.2
      simp only [defaults, List.map_cons] at hrest ⊢
      rw [hrest, hknown]

/-- Where the group has no class and nothing more would be demanded, its members become numbers. -/
theorem fits_defaults {requirements : List Requirement}
    (h : Forall₂ (Quiet none) requirements kinds) :
    Forall₂ (Requirement.Fits (some .numeric)) requirements ((defaults kinds).map some) := by
  induction h with
  | nil => exact .nil
  | @cons requirement known requirements kinds hfirst hrest ih =>
      refine .cons ?_ ih
      cases requirement with
      | kind required =>
          cases known with
          | none => cases hfirst.2 rfl
          | some kind => exact hfirst.1
      | group =>
          cases known with
          | none => rfl
          | some kind => cases hfirst.1

/-- Where all members of a group are numbers, and there is one, its class is known as that of
numbers. -/
theorem knownClass_of_fits {requirements : List Requirement} {kinds : List Kind}
    (h : Forall₂ (Requirement.Fits (some .numeric)) requirements (kinds.map some))
    (hgroup : .group ∈ requirements) :
    knownClass requirements (kinds.map some) = some .numeric := by
  obtain ⟨hlength, hzip⟩ := List.forall₂_iff_zip.mp h
  cases hclass : knownClass requirements (kinds.map some) with
  | some found =>
      obtain ⟨kind, hmem, rfl⟩ := exists_of_knownClass hclass
      exact (hzip hmem).symm
  | none =>
      obtain ⟨place, hplace⟩ := List.mem_iff_getElem?.mp hgroup
      obtain ⟨hlt, -⟩ := List.getElem?_eq_some_iff.mp hplace
      rw [List.length_map] at hlength
      have hmem : (.group, some kinds[place]) ∈ requirements.zip (kinds.map some) := by
        refine List.mem_of_getElem? (List.getElem?_zip_eq_some.mpr ⟨hplace, ?_⟩)
        rw [List.getElem?_map, List.getElem?_eq_getElem (hlength ▸ hlt)]
        rfl
      exact absurd hmem (not_mem_of_knownClass hclass _)

/-- A signature without a class for its group returns a number by default when the members of the
group are numbers by default. -/
theorem result_defaults (hcoherent : signature.isCoherent = true)
    (hquiet : Forall₂ (Quiet none) signature.arguments kinds)
    (hclass : signature.groupClass kinds = none) :
    (signature.result (some .numeric) ((defaults kinds).map some)).getD .number =
      (signature.result none kinds).getD .number := by
  unfold isCoherent at hcoherent
  cases hreturns : signature.returns with
  | kind fixed => simp [result, hreturns]
  | widened =>
      -- A result that may be widened comes from numbers, so the class would be known.
      simp only [hreturns, Bool.and_eq_true, decide_eq_true_eq] at hcoherent
      rw [groupClass, onlyClass?, hcoherent.2] at hclass
      cases hclass
  | group =>
      have hmodes : ∀ mode ∈ signature.groupModes kinds, mode = .any := by
        intro mode hmode
        obtain ⟨⟨requirement, known⟩, hmem, hmode⟩ := List.mem_filterMap.mp hmode
        simp only [Option.ite_none_right_eq_some] at hmode
        obtain ⟨rfl, hmode⟩ := hmode
        cases known with
        | none => exact (Option.some.inj hmode).symm
        | some kind => cases ((List.forall₂_iff_zip.mp hquiet).2 hmem).1
      have hany : Mode.ofOperands (signature.groupModes kinds) = .any := by
        unfold Mode.ofOperands
        generalize signature.groupModes kinds = modes at hmodes
        cases modes with
        | nil => rfl
        | cons mode modes =>
            obtain ⟨rfl, -⟩ := List.forall_mem_cons.mp hmodes
            have hfloat : Mode.float ∉ Mode.any :: modes := fun hmem => by cases hmodes _ hmem
            simp [List.mem_cons] at hfloat ⊢
            exact hfloat
      simp [result, hreturns, groupModes_defaults, hany]

/-- Operand kinds of which nothing more would be demanded are accepted once those that are unknown
count as numbers, and the kind of the result is then the one that was known, or a number. The only
exception is a group that has members but no class and admits no numbers. -/
theorem returnKind_defaults (hcoherent : signature.isCoherent = true)
    (hlength : kinds.length = signature.arity)
    (hquiet : Forall₂ (Quiet (signature.groupClass kinds)) signature.arguments kinds)
    (hallowed : ∀ found, signature.groupClass kinds = some found → signature.allows found = true) :
    signature.returnKind (defaults kinds) =
        .ok ((signature.result (signature.groupClass kinds) kinds).getD .number) ∨
      signature.groupClass kinds = none ∧ .group ∈ signature.arguments ∧
        signature.allows .numeric = false ∧
        signature.returnKind (defaults kinds) = .error (.unsupported .numeric) := by
  have hsame (h : (defaults kinds).map some = kinds) : signature.returnKind (defaults kinds) =
      .ok ((signature.result (signature.groupClass kinds) kinds).getD .number) := by
    have hresolve := resolve_iff.mpr
      ⟨hlength, hquiet.imp fun _ _ h => h.1, hallowed, rfl⟩
    rw [returnKind, h, hresolve]
    rfl
  cases hclass : signature.groupClass kinds with
  | some found =>
      rw [hclass] at hquiet
      rw [← hclass]
      refine .inl (hsame (defaults_of_demand hquiet ?_))
      intro requirement _
      cases requirement <;> simp [demand]
  | none =>
      rw [hclass] at hquiet
      by_cases hgroup : .group ∈ signature.arguments
      · have hfits := fits_defaults hquiet
        have hcount : ((defaults kinds).map some).length = signature.arity := by
          simpa [defaults] using hlength
        have hnumeric : signature.groupClass ((defaults kinds).map some) = some .numeric := by
          rw [groupClass, Option.or_eq_none_iff] at hclass
          rw [groupClass, hclass.1, Option.none_or, knownClass_of_fits hfits hgroup]
        cases hallows : signature.allows .numeric with
        | true =>
            have hresolve := resolve_iff.mpr ⟨hcount, hnumeric ▸ hfits, by simp [hnumeric, hallows],
              rfl⟩
            rw [returnKind, hresolve, ← result_defaults hcoherent hquiet hclass, hnumeric]
            exact .inl rfl
        | false =>
            have hresolve := resolve_unsupported hcount (hnumeric ▸ hfits) hnumeric hallows
            rw [returnKind, hresolve]
            exact .inr ⟨rfl, hgroup, rfl, rfl⟩
      · rw [← hclass]
        refine .inl (hsame (defaults_of_demand hquiet ?_))
        intro requirement hmem
        cases requirement with
        | kind required => simp [demand]
        | group => exact absurd hmem hgroup

end Signature

end Reckon
