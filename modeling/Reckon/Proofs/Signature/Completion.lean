import Reckon.Operator.Basic
import Reckon.Proofs.Signature.Resolution

/-!
# Completing operand kinds

Inference resolves a signature while some operand kinds are unknown, and the check runs later, when
all of them are known. `resolve_of_completion` says that the early answer holds whatever the unknown
kinds turn out to be: nothing is refused that some completion would make valid, no kind is promised
that the check does not keep, and every demand is one that the completed operand meets. Nor is the
early answer too generous: what is resolved has a completion that the check accepts
(`exists_completion`).
-/

namespace Reckon

open List (Forall₂)

namespace Kind

theorem standsFor_self (kind : Kind) : kind.standsFor kind = true := by
  cases kind with
  | numeric mode => cases mode <;> rfl
  | string | boolean | byteArray => rfl

end Kind

theorem KindClass.toClass_widest (found : KindClass) : found.widest.toClass = found := by
  cases found <;> rfl

namespace Signature

/-- The kinds agree with what is known, and fill in the rest. -/
def Completes (kinds : List Kind) (known : List (Option Kind)) : Prop :=
  Forall₂ (fun given kind => ∀ found, given = some found → kind = found) known kinds

/-- What is known is wider than any completion of it. -/
theorem Completes.wider {kinds : List Kind} {known : List (Option Kind)}
    (h : Completes kinds known) : Forall₂ Kind.Wider known (kinds.map some) := by
  rw [List.forall₂_map_right_iff]
  refine h.imp ?_
  intro given kind hgiven
  cases given with
  | none => exact .unknown _
  | some found =>
      rw [hgiven found rfl]
      exact .refl _

variable {signature : Signature} {known : List (Option Kind)}

/-- Known kinds that fit stand for whatever the signature demands of them. -/
theorem demands_of_fits {groupClass : Option KindClass} {requirements : List Requirement}
    {kinds : List Kind} (h : Forall₂ (Requirement.Fits groupClass) requirements (kinds.map some)) :
    Forall₂ (fun kind demand => ∀ required, demand = some required →
      kind.standsFor required = true) kinds
      (List.zipWith (demand groupClass) requirements (kinds.map some)) := by
  induction kinds generalizing requirements with
  | nil =>
      cases h
      exact .nil
  | cons kind kinds ih =>
      cases h with
      | @cons requirement _ requirements _ hfit hfits =>
          refine .cons ?_ (ih hfits)
          intro required hrequired
          cases requirement with
          | kind asked =>
              cases hrequired
              exact hfit
          | group => cases hrequired

/-- If the check accepts some completion of partly known kinds, then they resolve. The kind of the
result is unknown, or one that the kind of the check refines, and each demand is met by the
completed kind of its operand. -/
theorem resolve_of_completion {kinds : List Kind} {kind : Kind} (hkinds : Completes kinds known)
    (h : signature.returnKind kinds = .ok kind) :
    ∃ resolution, signature.resolve known = .ok resolution ∧
      (∀ found, resolution.returns = some found → kind.Refines found) ∧
      Forall₂ (fun kind demand => ∀ required, demand = some required →
        kind.standsFor required = true) kinds resolution.demands := by
  obtain ⟨full, hfull, rfl⟩ := map_eq_ok.mp h
  obtain ⟨-, hfits, -, rfl⟩ := resolve_iff.mp hfull
  obtain ⟨resolution, hresolution, hreturns, hdemands⟩ := resolve_of_wider hkinds.wider hfull
  refine ⟨resolution, hresolution, ?_, ?_⟩
  · intro found hfound
    rw [hfound] at hreturns
    obtain ⟨narrower, hnarrower, hrefines⟩ := hreturns.exists_refines
    rw [hnarrower]
    exact hrefines
  · refine hdemands (demands_of_fits hfits) ?_
    rw [List.forall₂_map_right_iff, List.forall₂_same]
    rintro kind - _ ⟨⟩
    exact kind.standsFor_widest

/-- In a sum with an integer and an operand that is not known yet, that operand has to be a number,
whichever it turns out to be. -/
theorem resolve_of_completion_sum :
    Completes [.integer, .float] [some .integer, none] ∧
      BinaryOperator.add.signature.returnKind [.integer, .float] = .ok .float ∧
      ∃ resolution, BinaryOperator.add.signature.resolve [some .integer, none] = .ok resolution ∧
        resolution = ⟨some .number, [none, some .number]⟩ ∧
        (∀ found, resolution.returns = some found → Kind.Refines .float found) ∧
        Forall₂ (fun kind demand => ∀ required, demand = some required →
          Kind.standsFor kind required = true) [.integer, .float] resolution.demands := by
  have hkinds : Completes [.integer, .float] [some .integer, none] :=
    .cons (fun _ h => Option.some.inj h) (.cons nofun .nil)
  have hcheck : BinaryOperator.add.signature.returnKind [.integer, .float] = .ok .float := by
    decide
  obtain ⟨resolution, hresolution, hreturns, hdemands⟩ := resolve_of_completion hkinds hcheck
  have hanswer : BinaryOperator.add.signature.resolve [some .integer, none] =
      .ok ⟨some .number, [none, some .number]⟩ := by
    decide
  exact ⟨hkinds, hcheck, resolution, hresolution,
    Except.ok.inj (hresolution.symm.trans hanswer), hreturns, hdemands⟩

/-- The class that the group takes when the unknown kinds are filled in: the one it has, or else
the first one allowed. -/
def settledClass (signature : Signature) (known : List (Option Kind)) : KindClass :=
  (signature.groupClass known).getD (signature.group.head?.getD .numeric)

/-- The kind of an operand, filled in where it is unknown: what is asked of it, or the widest kind
of the class of the group. -/
def settle (settled : KindClass) : Requirement → Option Kind → Kind
  | _, some kind => kind
  | .kind required, none => required
  | .group, none => settled.widest

/-- Filling in keeps the kinds that are known. -/
theorem completes_settle (settled : KindClass) {requirements : List Requirement}
    (h : known.length = requirements.length) :
    Completes (List.zipWith (settle settled) requirements known) known := by
  induction known generalizing requirements with
  | nil =>
      rw [List.zipWith_nil_right]
      exact .nil
  | cons given known ih =>
      cases requirements with
      | nil => simp at h
      | cons requirement requirements =>
          refine .cons ?_ (ih (by simpa using h))
          rintro found rfl
          rfl

/-- The class that the group takes is allowed if the class that it has is. -/
theorem allows_settledClass
    (h : ∀ found, signature.groupClass known = some found → signature.allows found = true) :
    signature.allows (signature.settledClass known) = true := by
  unfold settledClass
  cases hclass : signature.groupClass known with
  | some found => exact h found hclass
  | none =>
      unfold allows
      cases signature.group with
      | nil => rfl
      | cons first rest => simp

/-- Operands that fit still fit once the unknown ones are filled in. -/
theorem fits_settle
    (h : Forall₂ (Requirement.Fits (signature.groupClass known)) signature.arguments known) :
    Forall₂ (Requirement.Fits (some (signature.settledClass known))) signature.arguments
      ((List.zipWith (settle (signature.settledClass known)) signature.arguments known).map
        some) := by
  have hmember : ∀ kind, (.group, some kind) ∈ signature.arguments.zip known →
      signature.settledClass known = kind.toClass := by
    intro kind hmem
    have hclass : signature.groupClass known = some kind.toClass :=
      (List.forall₂_iff_zip.mp h).2 hmem
    rw [settledClass, hclass, Option.getD_some]
  generalize signature.settledClass known = settled at hmember ⊢
  generalize signature.groupClass known = groupClass at h
  generalize signature.arguments = requirements at h hmember ⊢
  induction h with
  | nil => exact .nil
  | @cons requirement given requirements known hfit hfits ih =>
      refine .cons ?_ (ih fun kind hmem => hmember kind (.tail _ hmem))
      cases given with
      | some kind =>
          cases requirement with
          | kind required => exact hfit
          | group => exact congrArg some (hmember kind (.head _))
      | none =>
          cases requirement with
          | kind required => exact required.standsFor_self
          | group => exact congrArg some settled.toClass_widest.symm

/-- Operands that fit some class of the group fit the class that they give it. -/
theorem fits_groupClass {kinds : List (Option Kind)} {settled : KindClass}
    (h : Forall₂ (Requirement.Fits (some settled)) signature.arguments kinds)
    (honly : ∀ only, signature.onlyClass? = some only → settled = only) :
    Forall₂ (Requirement.Fits (signature.groupClass kinds)) signature.arguments kinds ∧
      ∀ found, signature.groupClass kinds = some found → settled = found := by
  have hfound (found : KindClass) (hclass : signature.groupClass kinds = some found) :
      settled = found := by
    rcases Option.or_eq_some_iff.mp hclass with hclass | ⟨-, hclass⟩
    · exact honly found hclass
    · obtain ⟨kind, hmem, rfl⟩ := exists_of_knownClass hclass
      exact Option.some.inj ((List.forall₂_iff_zip.mp h).2 hmem)
  refine ⟨?_, hfound⟩
  cases hclass : signature.groupClass kinds with
  | some found =>
      obtain rfl := hfound found hclass
      exact h
  | none =>
      -- Without a class no member of the group is known, and the others fit as they did.
      have hknown := (Option.or_eq_none_iff.mp hclass).2
      refine List.forall₂_iff_zip.mpr ⟨h.length_eq, ?_⟩
      intro requirement given hmem
      have hfit := (List.forall₂_iff_zip.mp h).2 hmem
      cases requirement with
      | kind required => cases given <;> exact hfit
      | group =>
          cases given with
          | none => trivial
          | some kind => exact absurd hmem (not_mem_of_knownClass hknown kind)

/-- Partly known kinds that resolve have a completion that the check accepts. -/
theorem exists_completion {resolution : Resolution}
    (h : signature.resolve known = .ok resolution) :
    ∃ kinds kind, Completes kinds known ∧ signature.returnKind kinds = .ok kind := by
  obtain ⟨hlength, hfits, hallowed, -⟩ := resolve_iff.mp h
  have honly (only : KindClass) (honly : signature.onlyClass? = some only) :
      signature.settledClass known = only := by
    rw [settledClass, groupClass, honly, Option.some_or, Option.getD_some]
  obtain ⟨hsettled, hclass⟩ := fits_groupClass (fits_settle hfits) honly
  have hresolve := resolve_iff.mpr ⟨hsettled.length_eq.symm, hsettled, fun found hfound =>
    hclass found hfound ▸ allows_settledClass hallowed, rfl⟩
  exact ⟨_, _, completes_settle _ hlength, map_eq_ok.mpr ⟨_, hresolve, rfl⟩⟩

end Signature

end Reckon
