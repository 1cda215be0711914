import Reckon.Proofs.Fallible
import Reckon.Proofs.Signature.Acceptance
import Reckon.Proofs.Tree.Combine

/-!
# Resolving signatures on partly known kinds

`Signature.resolve` looks at kinds of which some are not known yet. `resolve_iff` says when it
succeeds and with which answer, without its scan over the operands. From that follows how its answer
changes as less is known: the class of the group may be lost, the kind of the result becomes wider,
and no demand is made that the narrower kinds do not meet already (`resolve_of_wider`).
-/

namespace Reckon

open List (Forall₂)

/-- The first says no more about a kind than the second: it says nothing, or a kind that the other
refines. -/
inductive Kind.Wider : Option Kind → Option Kind → Prop where
  | unknown (known : Option Kind) : Wider none known
  | known {kind other : Kind} (h : other.Refines kind) : Wider (some kind) (some other)

namespace Kind

theorem Wider.refl (known : Option Kind) : Wider known known := by
  cases known with
  | none => exact .unknown none
  | some kind => exact .known (.refl kind)

/-- What says no more than a part of something says no more than it. -/
theorem Wider.trans {known other last : Option Kind} (h : Wider known other)
    (hlast : Wider other last) : Wider known last := by
  cases h with
  | unknown => exact .unknown last
  | known h =>
      cases hlast with
      | known hlast => exact .known (hlast.trans h)

/-- Two ways of saying no more than each other are the same. -/
theorem Wider.antisymm {known other : Option Kind} (h : Wider known other)
    (hother : Wider other known) : known = other := by
  cases h with
  | unknown =>
      cases hother
      rfl
  | known h =>
      cases hother with
      | known hother => cases h <;> cases hother <;> rfl

theorem Wider.exists_refines {kind : Kind} {other : Option Kind} (h : Wider (some kind) other) :
    ∃ narrower, other = some narrower ∧ narrower.Refines kind := by
  cases h with
  | known h => exact ⟨_, rfl, h⟩

/-- Where a kind may stand for another one, so may any kind that it refines. -/
theorem standsFor_of_refines {narrow wide required : Kind} (h : narrow.Refines wide)
    (hstands : narrow.standsFor required = true) : wide.standsFor required = true := by
  cases h with
  | refl => exact hstands
  | number mode =>
      have hclass : required.toClass = .numeric := (toClass_eq_of_standsFor hstands).symm
      show Kind.number.standsFor required = true
      cases required with
      | numeric mode => rfl
      | string | boolean | byteArray => cases hclass

theorem standsFor_widest (kind : Kind) : kind.standsFor kind.toClass.widest = true := by
  cases kind with
  | numeric mode => cases mode <;> rfl
  | string | boolean | byteArray => rfl

end Kind

/-- An operand of a partly known kind fits when the group has a class, or when it has none yet. -/
def Requirement.Fits (groupClass : Option KindClass) : Requirement → Option Kind → Prop
  | .kind required, some actual => actual.standsFor required = true
  | .group, some actual => groupClass = some actual.toClass
  | _, none => True

namespace Signature

/-- The class that a member of the group has, if its kind is known. -/
def memberClass : Requirement × Option Kind → Option KindClass
  | (.group, kind) => kind.map (·.toClass)
  | (.kind _, _) => none

/-- The class of the first member of the group whose kind is known. -/
def knownClass (requirements : List Requirement) (kinds : List (Option Kind)) : Option KindClass :=
  (requirements.zip kinds).findSome? memberClass

/-- The class that the group has by its signature, or else by the kinds that are known. -/
def groupClass (signature : Signature) (kinds : List (Option Kind)) : Option KindClass :=
  signature.onlyClass?.or (knownClass signature.arguments kinds)

/-- A scan succeeds exactly if the operands fit the class that the group starts with or, failing
that, the class of its first known member. -/
theorem scan_iff {requirements : List Requirement} {kinds : List (Option Kind)} {position : Nat}
    {start found : Option KindClass} (hlength : kinds.length = requirements.length) :
    scan position start requirements kinds = .ok found ↔
      found = start.or (knownClass requirements kinds) ∧
        Forall₂ (Requirement.Fits found) requirements kinds := by
  induction requirements generalizing kinds position start with
  | nil =>
      obtain rfl : kinds = [] := by simpa using hlength
      simp [scan, knownClass, eq_comm]
  | cons requirement requirements ih =>
      cases kinds with
      | nil => simp at hlength
      | cons kind kinds =>
          have hrest : kinds.length = requirements.length := by simpa using hlength
          rw [List.forall₂_cons]
          cases kind with
          | none =>
              have hscan : scan position start (requirement :: requirements) (none :: kinds) =
                  scan (position + 1) start requirements kinds := by
                cases requirement <;> rfl
              have hknown : knownClass (requirement :: requirements) (none :: kinds) =
                  knownClass requirements kinds := by
                cases requirement <;> rfl
              have hfits : requirement.Fits found none := by
                cases requirement <;> trivial
              rw [hscan, hknown, ih hrest]
              simp [hfits]
          | some kind =>
              cases requirement with
              | kind required =>
                  by_cases hstands : kind.standsFor required = true
                  · have hknown : knownClass (.kind required :: requirements) (some kind :: kinds) =
                        knownClass requirements kinds := rfl
                    simp [scan, hstands, ih hrest, hknown, Requirement.Fits]
                  · simp [scan, hstands, Requirement.Fits]
              | group =>
                  cases start with
                  | none =>
                      simp only [scan, ih hrest, knownClass, Requirement.Fits, Option.none_or,
                        Option.some_or]
                      exact and_congr_right fun hfound => (and_iff_right hfound).symm
                  | some expected =>
                      by_cases hclass : expected = kind.toClass
                      · simp only [scan, hclass, if_true, ih hrest, Requirement.Fits,
                          Option.some_or]
                        exact and_congr_right fun hfound => (and_iff_right hfound).symm
                      · simp only [scan, hclass, if_false, Requirement.Fits, Option.some_or,
                          reduceCtorEq, false_iff]
                        rintro ⟨hfound, hgroup, -⟩
                        exact hclass (Option.some.inj (hfound.symm.trans hgroup))

/-- A signature resolves partly known kinds exactly if there are as many as it has operands, each
fits, and the class of the group is allowed. It answers with the kind of the result and with its
demands for that class. -/
theorem resolve_iff {signature : Signature} {kinds : List (Option Kind)}
    {resolution : Resolution} :
    signature.resolve kinds = .ok resolution ↔
      kinds.length = signature.arity ∧
        Forall₂ (Requirement.Fits (signature.groupClass kinds)) signature.arguments kinds ∧
        (∀ found, signature.groupClass kinds = some found → signature.allows found = true) ∧
        resolution = {
          returns := signature.result (signature.groupClass kinds) kinds
          demands := List.zipWith (demand (signature.groupClass kinds)) signature.arguments
            kinds } := by
  by_cases hlength : kinds.length = signature.arity
  · have hscan (found : Option KindClass) :
        scan 1 signature.onlyClass? signature.arguments kinds = .ok found ↔
          found = signature.groupClass kinds ∧
            Forall₂ (Requirement.Fits found) signature.arguments kinds :=
      scan_iff hlength
    rw [resolve, if_neg (not_not.mpr hlength)]
    simp only [hlength, true_and]
    by_cases hfits :
        Forall₂ (Requirement.Fits (signature.groupClass kinds)) signature.arguments kinds
    · have hresult : scan 1 signature.onlyClass? signature.arguments kinds =
          .ok (signature.groupClass kinds) := (hscan _).mpr ⟨rfl, hfits⟩
      simp only [hresult, hfits, true_and]
      generalize signature.groupClass kinds = found
      cases found with
      | none =>
          show Except.ok _ = Except.ok resolution ↔ _
          rw [Except.ok.injEq, @eq_comm _ _ resolution]
          simp
      | some found =>
          cases hallows : signature.allows found with
          | true =>
              simp only [bind, Except.bind, hallows]
              show Except.ok _ = Except.ok resolution ↔ _
              rw [Except.ok.injEq, @eq_comm _ _ resolution]
              simp [hallows]
          | false =>
              simp only [bind, Except.bind, hallows]
              show Except.error _ = Except.ok resolution ↔ _
              simp [hallows]
    · cases hresult : scan 1 signature.onlyClass? signature.arguments kinds with
      | error fault => simp [hfits, bind, Except.bind]
      | ok found =>
          obtain ⟨rfl, hfound⟩ := (hscan found).mp hresult
          exact absurd hfound hfits
  · rw [resolve, if_pos hlength]
    simp [hlength, throw, throwThe, MonadExceptOf.throw, bind, Except.bind]

/-- A class that is known for the group is that of one of its members. -/
theorem exists_of_knownClass {requirements : List Requirement} {kinds : List (Option Kind)}
    {found : KindClass} (h : knownClass requirements kinds = some found) :
    ∃ kind, (.group, some kind) ∈ requirements.zip kinds ∧ kind.toClass = found := by
  obtain ⟨⟨requirement, kind⟩, hmem, hclass⟩ := List.exists_of_findSome?_eq_some h
  cases requirement with
  | kind required => cases hclass
  | group =>
      obtain ⟨known, rfl, hknown⟩ := Option.map_eq_some_iff.mp hclass
      exact ⟨known, hmem, hknown⟩

theorem not_mem_of_knownClass {requirements : List Requirement} {kinds : List (Option Kind)}
    (h : knownClass requirements kinds = none) (kind : Kind) :
    (.group, some kind) ∉ requirements.zip kinds := by
  intro hmem
  cases List.findSome?_eq_none_iff.mp h _ hmem

section Wider

variable {signature : Signature} {kinds others : List (Option Kind)}
  (hwider : Forall₂ Kind.Wider kinds others)
include hwider

/-- An operand has a kind that is as narrow among the narrower ones. -/
theorem exists_zip_of_wider {requirements : List Requirement} {requirement : Requirement}
    {kind : Option Kind} (h : (requirement, kind) ∈ requirements.zip kinds) :
    ∃ other, (requirement, other) ∈ requirements.zip others ∧ Kind.Wider kind other := by
  induction hwider generalizing requirements with
  | nil => simp at h
  | @cons first otherFirst kinds others hfirst hrest ih =>
      cases requirements with
      | nil => simp at h
      | cons requirement requirements =>
          rw [List.zip_cons_cons, List.mem_cons] at h
          rcases h with heq | h
          · cases heq
            exact ⟨otherFirst, by simp, hfirst⟩
          · obtain ⟨other, hother, hkind⟩ := ih h
            exact ⟨other, List.mem_cons_of_mem _ hother, hkind⟩

variable
  (hfits : Forall₂ (Requirement.Fits (signature.groupClass others)) signature.arguments others)
include hfits

/-- A class that is found when less is known is found when more is. -/
theorem groupClass_of_wider {found : KindClass} (h : signature.groupClass kinds = some found) :
    signature.groupClass others = some found := by
  cases honly : signature.onlyClass? with
  | some only =>
      rw [groupClass, honly, Option.some_or] at h ⊢
      exact h
  | none =>
      rw [groupClass, honly, Option.none_or] at h
      obtain ⟨kind, hkind, rfl⟩ := exists_of_knownClass h
      obtain ⟨other, hother, hnarrow⟩ := exists_zip_of_wider hwider hkind
      obtain ⟨narrower, rfl, hrefines⟩ := hnarrow.exists_refines
      have hclass := (List.forall₂_iff_zip.mp hfits).2 hother
      rw [← hrefines.toClass_eq]
      exact hclass

/-- What fits when more is known fits when less is. -/
theorem fits_of_wider :
    Forall₂ (Requirement.Fits (signature.groupClass kinds)) signature.arguments kinds := by
  refine List.forall₂_iff_zip.mpr ⟨hfits.length_eq.trans hwider.length_eq.symm, ?_⟩
  intro requirement kind hmem
  obtain ⟨other, hother, hkind⟩ := exists_zip_of_wider hwider hmem
  have hfit := (List.forall₂_iff_zip.mp hfits).2 hother
  cases hkind with
  | unknown => cases requirement <;> trivial
  | @known kind narrower hrefines =>
      cases requirement with
      | kind required => exact Kind.standsFor_of_refines hrefines hfit
      | group =>
          -- A member is known, so a class is found, and it is the one that is found when more is
          -- known.
          have hother : signature.groupClass others = some kind.toClass := by
            rw [← hrefines.toClass_eq]
            exact hfit
          cases hclass : signature.groupClass kinds with
          | some found =>
              have hfound := groupClass_of_wider hwider hfits hclass
              rw [hother] at hfound
              exact hfound.symm
          | none =>
              rw [groupClass, Option.or_eq_none_iff] at hclass
              exact absurd hmem (not_mem_of_knownClass hclass.2 kind)

omit hfits in
/-- The modes of the group say less when less is known: each is the same, or any. -/
theorem groupModes_of_wider (signature : Signature) :
    Forall₂ (fun mode other => mode = .any ∨ mode = other) (signature.groupModes kinds)
      (signature.groupModes others) := by
  unfold groupModes
  generalize signature.arguments = requirements
  induction hwider generalizing requirements with
  | nil => simp
  | @cons kind other kinds others hfirst hrest ih =>
      cases requirements with
      | nil => exact .nil
      | cons requirement requirements =>
          cases requirement with
          | kind required => simpa using ih requirements
          | group =>
              simp only [List.zip_cons_cons, List.filterMap_cons, if_true]
              refine .cons ?_ (ih requirements)
              cases hfirst with
              | unknown => exact .inl rfl
              | known h =>
                  cases h with
                  | refl => exact .inr rfl
                  | number mode => exact .inl rfl

omit hwider hfits in
/-- A float among modes that say less is one among those that say more. -/
theorem float_of_wider {modes others : List Mode}
    (h : Forall₂ (fun mode other => mode = .any ∨ mode = other) modes others)
    (hmem : .float ∈ modes) : .float ∈ others := by
  induction h with
  | nil => cases hmem
  | @cons mode other modes others hfirst hrest ih =>
      rcases List.mem_cons.mp hmem with rfl | hmem
      · rw [hfirst.resolve_left nofun]
        exact .head _
      · exact .tail _ (ih hmem)

omit hwider hfits in
/-- Modes that say less combine to one that says less. -/
theorem ofOperands_of_wider {modes others : List Mode}
    (h : Forall₂ (fun mode other => mode = .any ∨ mode = other) modes others) :
    Mode.ofOperands modes = .any ∨ Mode.ofOperands modes = Mode.ofOperands others := by
  have hinteger (hall : ∀ mode ∈ modes, mode = .integer) : modes = others := by
    induction h with
    | nil => rfl
    | @cons mode other modes others hfirst hrest ih =>
        rw [List.forall_mem_cons] at hall
        obtain ⟨rfl, hall⟩ := hall
        rw [hfirst.resolve_left nofun, ih hall]
  by_cases hmem : Mode.float ∈ modes
  · exact .inr (by simp [Mode.ofOperands, hmem, float_of_wider h hmem])
  · by_cases hall : ∀ mode ∈ modes, mode = .integer
    · rw [hinteger hall]
      exact .inr rfl
    · have hnot : modes.all (· == .integer) = false := by simpa using hall
      exact .inl (by simp [Mode.ofOperands, hmem, hnot])

/-- The kind of the result is wider when less is known. -/
theorem result_of_wider :
    Kind.Wider (signature.result (signature.groupClass kinds) kinds)
      (signature.result (signature.groupClass others) others) := by
  cases hclass : signature.groupClass kinds with
  | none =>
      cases hreturns : signature.returns with
      | kind fixed =>
          simp only [result, hreturns]
          exact .refl _
      | group | widened =>
          simp only [result, hreturns, Option.map_none]
          exact .unknown _
  | some found =>
      rw [groupClass_of_wider hwider hfits hclass]
      have hmodes := groupModes_of_wider hwider signature
      cases hreturns : signature.returns with
      | kind fixed =>
          simp only [result, hreturns]
          exact .refl _
      | group =>
          simp only [result, hreturns, Option.map_some]
          by_cases hnumeric : found = .numeric
          · simp only [hnumeric, if_true]
            rcases ofOperands_of_wider hmodes with hany | hsame
            · rw [hany]
              exact .known (.number _)
            · rw [hsame]
              exact .refl _
          · simp only [hnumeric, if_false]
            exact .refl _
      | widened =>
          simp only [result, hreturns, Option.map_some]
          by_cases hfloat : (signature.groupModes kinds).contains .float = true
          · have hother : (signature.groupModes others).contains .float = true := by
              simpa using float_of_wider hmodes (by simpa using hfloat)
            simp only [hfloat, hother, if_true]
            exact .refl _
          · rw [if_neg hfloat]
            split
            · exact .known (.number _)
            · exact .refl _

/-- What is demanded when less is known is met when more is, if the demands made then are met and
every operand of a known kind meets the widest kind of its class. -/
theorem demands_of_wider {α : Type} {meets : α → Kind → Prop} {operands : List α}
    (hdemands : Forall₂ (fun operand demand => ∀ kind, demand = some kind → meets operand kind)
      operands
      (List.zipWith (demand (signature.groupClass others)) signature.arguments others))
    (hknown : Forall₂
      (fun operand kind => ∀ known, kind = some known → meets operand known.toClass.widest)
      operands others) :
    Forall₂ (fun operand demand => ∀ kind, demand = some kind → meets operand kind) operands
      (List.zipWith (demand (signature.groupClass kinds)) signature.arguments kinds) := by
  have hclass (found : KindClass) (h : signature.groupClass kinds = some found) :
      signature.groupClass others = some found := groupClass_of_wider hwider hfits h
  generalize signature.groupClass kinds = groupClass at hclass ⊢
  generalize signature.groupClass others = otherClass at hclass hfits hdemands
  generalize signature.arguments = requirements at hfits hdemands ⊢
  induction hfits generalizing kinds operands with
  | nil =>
      cases hdemands
      exact .nil
  | @cons requirement other requirements others hfit hfits ih =>
      cases hwider with
      | @cons kind other kinds others hfirst hwider =>
          cases hdemands with
          | @cons operand demand operands demands hmeets hdemands =>
              rw [List.forall₂_cons] at hknown
              refine .cons ?_ (ih hwider hknown.2 hdemands)
              intro asked hasked
              cases requirement with
              | kind required => exact hmeets asked hasked
              | group =>
                  cases hfirst with
                  | known h => cases hasked
                  | unknown =>
                      obtain ⟨found, hfound, rfl⟩ := Option.map_eq_some_iff.mp hasked
                      have hother := hclass found hfound
                      cases other with
                      | none =>
                          refine hmeets _ ?_
                          rw [Signature.demand, hother]
                          rfl
                      | some known =>
                          have hsame : otherClass = some known.toClass := hfit
                          rw [hother] at hsame
                          cases hsame
                          exact hknown.1 known rfl

end Wider

/-- Resolution of wider kinds succeeds where that of narrower ones does: the kind of its result is
wider, and its demands are met wherever the narrower kinds and the demands made on them are. -/
theorem resolve_of_wider {signature : Signature} {kinds others : List (Option Kind)}
    {resolution : Resolution} (hwider : Forall₂ Kind.Wider kinds others)
    (h : signature.resolve others = .ok resolution) :
    ∃ answer, signature.resolve kinds = .ok answer ∧
      Kind.Wider answer.returns resolution.returns ∧
      ∀ {α : Type} {meets : α → Kind → Prop} {operands : List α},
        Forall₂ (fun operand demand => ∀ kind, demand = some kind → meets operand kind) operands
          resolution.demands →
        Forall₂ (fun operand kind => ∀ known, kind = some known →
          meets operand known.toClass.widest) operands others →
        Forall₂ (fun operand demand => ∀ kind, demand = some kind → meets operand kind) operands
          answer.demands := by
  obtain ⟨hlength, hfits, hallowed, rfl⟩ := resolve_iff.mp h
  refine ⟨_, resolve_iff.mpr ⟨hwider.length_eq.trans hlength, fits_of_wider hwider hfits,
    fun found hfound => hallowed found (groupClass_of_wider hwider hfits hfound), rfl⟩,
    result_of_wider hwider hfits, ?_⟩
  intro α meets operands hdemands hknown
  exact demands_of_wider hwider hfits hdemands hknown

/-- A result that comes from the group has a group to come from, and one that may be widened comes
from numbers. -/
def isCoherent (signature : Signature) : Bool :=
  match signature.returns with
  | .kind _ => true
  | .group => signature.arguments.contains .group
  | .widened => signature.arguments.contains .group && decide (signature.group = [.numeric])

end Signature

namespace Operation

/-- The signatures of the language are coherent. -/
theorem IsStandard.isCoherent {op : Operation} (h : op.IsStandard) :
    op.signature.isCoherent = true := by
  have hfunctions : ∀ function ∈ Callable.standard, function.signature.isCoherent = true := by
    decide
  cases op with
  | unary operator => cases operator <;> rfl
  | binary operator => cases operator <;> rfl
  | call function =>
      cases h with
      | listed hmem => exact hfunctions _ hmem
      | @redrawn listed _ hmem => exact hfunctions listed hmem

/-- A function of one class of operands that are all in its group, of which numbers are no part: the
length of a string or of bytes, or their concatenation. -/
def MeasuresOrJoins (op : Operation) : Prop :=
  ∃ function, op = .call function ∧ (function.name = "len" ∨ function.name = "concat")

/-- Numbers may stand in every group whose class is open, unless the operation is the length or the
concatenation. -/
theorem IsStandard.allows_numeric {op : Operation} (h : op.IsStandard)
    (hgroup : .group ∈ op.signature.arguments) (honly : op.signature.onlyClass? = none) :
    op.signature.allows .numeric = true ∨
      op.MeasuresOrJoins ∧ ∀ requirement ∈ op.signature.arguments, requirement = .group := by
  have hfunctions : ∀ function ∈ Callable.standard, .group ∈ function.signature.arguments →
      function.signature.onlyClass? = none → function.signature.allows .numeric = true ∨
        (function.name = "len" ∨ function.name = "concat") ∧
          ∀ requirement ∈ function.signature.arguments, requirement = .group := by
    decide
  cases op with
  | unary operator => cases operator <;> exact .inl rfl
  | binary operator => cases operator <;> exact .inl rfl
  | call function =>
      cases h with
      | listed hmem =>
          rcases hfunctions _ hmem hgroup honly with hallows | ⟨hname, hall⟩
          · exact .inl hallows
          · exact .inr ⟨⟨_, rfl, hname⟩, hall⟩
      | @redrawn listed _ hmem =>
          rcases hfunctions listed hmem hgroup honly with hallows | ⟨hname, hall⟩
          · exact .inl hallows
          · exact .inr ⟨⟨_, rfl, hname⟩, hall⟩

end Operation

end Reckon
