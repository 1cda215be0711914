import Mathlib.Data.List.Forall2
import Reckon.Proofs.Value.Kinds

/-!
# What an accepted signature guarantees

`Signature.returnKind` looks at kinds; at evaluation there are values. `Signature.Takes` says that
values have the classes that a signature asks for, and `Signature.Promises` says what a result owes
to the signature and to the values it was computed from. `exists_takes` joins the two sides: values
of accepted kinds are taken, and a promised result, widened to the kind that the check returned,
belongs to that kind.
-/

namespace Reckon

namespace Requirement

/-- A kind that the operand may have when the group has a class. -/
def Admits (groupClass : Option KindClass) : Requirement → Kind → Prop
  | .kind required, actual => actual.standsFor required = true
  | .group, actual => groupClass = some actual.toClass

/-- A value that the operand may have when the group has a class. -/
def Takes (groupClass : Option KindClass) : Requirement → Value → Prop
  | .kind required, value => value.kind.toClass = required.toClass
  | .group, value => groupClass = some value.kind.toClass

theorem Admits.takes {groupClass : Option KindClass} {requirement : Requirement} {kind : Kind}
    {value : Value} (h : requirement.Admits groupClass kind) (hvalue : value.HasKind kind) :
    requirement.Takes groupClass value := by
  cases requirement with
  | kind required => exact hvalue.toClass_eq.trans (Kind.toClass_eq_of_standsFor h)
  | group => exact h.trans (congrArg some hvalue.toClass_eq.symm)

/-- The values at the places of the group. -/
def members : List Requirement → List Value → List Value
  | .group :: requirements, value :: values => value :: members requirements values
  | .kind _ :: requirements, _ :: values => members requirements values
  | _, _ => []

end Requirement

namespace Signature

open List (Forall₂)

/-- Values with the classes that the signature asks of its operands. -/
structure Takes (signature : Signature) (groupClass : Option KindClass) (values : List Value) :
    Prop where
  operands : Forall₂ (Requirement.Takes groupClass) signature.arguments values
  allowed : ∀ found, groupClass = some found → signature.allows found = true

/-- What a result owes to the signature and the operands: the fixed kind, or a number, or the class
of the group; and from integers alone the group's operations compute no floats. -/
def Promises (signature : Signature) (groupClass : Option KindClass) (values : List Value)
    (result : Value) : Prop :=
  match signature.returns with
  | .kind kind => result.HasKind kind
  | .widened => result.kind.toClass = .numeric
  | .group => groupClass = some result.kind.toClass ∧
      ((∀ member ∈ Requirement.members signature.arguments values, member.kind = .integer) →
        result.kind.toClass = .numeric → result.kind = .integer)

/-- Scanning known kinds admits each of them for the class that the scan ends with. -/
theorem admits_of_scan {requirements : List Requirement} {kinds : List Kind} {position : Nat}
    {start found : Option KindClass} (hlength : kinds.length = requirements.length)
    (h : scan position start requirements (kinds.map some) = .ok found) :
    Forall₂ (Requirement.Admits found) requirements kinds ∧
      ∀ only, start = some only → found = some only := by
  induction requirements generalizing kinds position start with
  | nil =>
      cases kinds with
      | cons => simp at hlength
      | nil =>
          cases h
          exact ⟨.nil, fun _ h => h⟩
  | cons requirement requirements ih =>
      cases kinds with
      | nil => simp at hlength
      | cons kind kinds =>
          have hrest : kinds.length = requirements.length := by simpa using hlength
          cases requirement with
          | kind required =>
              by_cases hstands : kind.standsFor required = true
              · simp only [List.map_cons, scan, hstands, if_true] at h
                obtain ⟨hadmits, honly⟩ := ih hrest h
                exact ⟨.cons hstands hadmits, honly⟩
              · simp [scan, hstands] at h
          | group =>
              -- The first operand of a group settles its class, and the others have to match it.
              cases start with
              | none =>
                  simp only [List.map_cons, scan] at h
                  obtain ⟨hadmits, honly⟩ := ih hrest h
                  exact ⟨.cons (honly _ rfl) hadmits, by simp⟩
              | some expected =>
                  by_cases hclass : expected = kind.toClass
                  · simp only [List.map_cons, scan, hclass, if_true] at h
                    obtain ⟨hadmits, honly⟩ := ih hrest h
                    refine ⟨.cons (honly _ rfl) hadmits, ?_⟩
                    rw [hclass]
                    exact honly
                  · simp [scan, hclass] at h

/-- A successful resolution counted the operands, found an allowed class for the group, and computed
the result from it. -/
theorem resolve_eq_ok {signature : Signature} {kinds : List (Option Kind)}
    {resolution : Resolution} (h : signature.resolve kinds = .ok resolution) :
    kinds.length = signature.arity ∧ ∃ groupClass,
      scan 1 signature.onlyClass? signature.arguments kinds = .ok groupClass ∧
      (∀ found, groupClass = some found → signature.allows found = true) ∧
      resolution.returns = signature.result groupClass kinds := by
  unfold resolve at h
  by_cases hlength : kinds.length = signature.arity
  · refine ⟨hlength, ?_⟩
    rw [if_neg (not_not.mpr hlength)] at h
    cases hscan : scan 1 signature.onlyClass? signature.arguments kinds with
    | error fault =>
        rw [hscan] at h
        cases h
    | ok groupClass =>
        rw [hscan] at h
        refine ⟨groupClass, rfl, ?_⟩
        cases groupClass with
        | none =>
            cases h
            exact ⟨nofun, rfl⟩
        | some found =>
            by_cases hallows : signature.allows found = true
            · simp only [hallows, bind, Except.bind] at h
              cases h
              exact ⟨by simp [hallows], rfl⟩
            · simp only [hallows, bind, Except.bind] at h
              cases h
  · rw [if_pos hlength] at h
    cases h

/-- A successful check of known kinds admits all of them. -/
theorem returnKind_eq_ok {signature : Signature} {kinds : List Kind} {kind : Kind}
    (h : signature.returnKind kinds = .ok kind) :
    ∃ groupClass, Forall₂ (Requirement.Admits groupClass) signature.arguments kinds ∧
      (∀ found, groupClass = some found → signature.allows found = true) ∧
      kind = (signature.result groupClass (kinds.map some)).getD .number := by
  unfold returnKind at h
  cases hresolve : signature.resolve (kinds.map some) with
  | error fault =>
      rw [hresolve] at h
      cases h
  | ok resolution =>
      rw [hresolve] at h
      obtain ⟨hlength, groupClass, hscan, hallowed, hreturns⟩ := resolve_eq_ok hresolve
      obtain ⟨hadmits, -⟩ := admits_of_scan (by simpa [arity] using hlength) hscan
      cases h
      exact ⟨groupClass, hadmits, hallowed, congrArg (Option.getD · .number) hreturns⟩

/-- Values of admitted kinds are taken. -/
theorem takes_of_admits {requirements : List Requirement} {kinds : List Kind}
    {values : List Value} {groupClass : Option KindClass}
    (hadmits : Forall₂ (Requirement.Admits groupClass) requirements kinds)
    (hvalues : Forall₂ Value.HasKind values kinds) :
    Forall₂ (Requirement.Takes groupClass) requirements values := by
  induction hadmits generalizing values with
  | nil =>
      cases hvalues
      exact .nil
  | cons hhead _ ih =>
      cases hvalues with
      | cons hvalue hvalues => exact .cons (hhead.takes hvalue) (ih hvalues)

/-- Where the modes of a group are all integers, so are its values. -/
theorem members_integer {requirements : List Requirement} {kinds : List Kind}
    {values : List Value} (hvalues : Forall₂ Value.HasKind values kinds)
    (hmodes : ∀ mode ∈ (requirements.zip (kinds.map some)).filterMap fun (requirement, kind) =>
      if requirement = .group then some ((kind.bind (·.mode?)).getD .any) else none,
      mode = .integer) :
    ∀ member ∈ Requirement.members requirements values, member.kind = .integer := by
  induction requirements generalizing kinds values with
  | nil => simp [Requirement.members]
  | cons requirement requirements ih =>
      cases hvalues with
      | nil => cases requirement <;> simp [Requirement.members]
      | @cons value kind values kinds hvalue hvalues =>
          cases requirement with
          | kind required =>
              exact ih hvalues (by simpa using hmodes)
          | group =>
              simp only [List.map_cons, List.zip_cons_cons, List.filterMap_cons, if_true,
                List.mem_cons, forall_eq_or_imp] at hmodes
              obtain ⟨hmode, hrest⟩ := hmodes
              intro member hmember
              rcases List.mem_cons.mp hmember with rfl | hmember
              · cases hvalue <;> simp [Kind.mode?] at hmode ⊢
                rfl
              · exact ih hvalues hrest member hmember

/-- A number that is promised for a numeric group, widened to the mode that the group combines to,
has that mode. -/
theorem hasKind_widen_ofOperands {modes : List Mode} {result : Value}
    (hclass : result.kind.toClass = .numeric)
    (hinteger : (∀ mode ∈ modes, mode = .integer) → result.kind = .integer) :
    (Node.widen (.numeric (Mode.ofOperands modes)) result).HasKind
      (.numeric (Mode.ofOperands modes)) := by
  unfold Mode.ofOperands
  split
  · exact Node.hasKind_widen_float hclass
  · split
    · next hall =>
        have hkind : result.kind = .integer :=
          hinteger (by simpa using (Bool.and_eq_true_iff.mp hall).2)
        have h : result.HasKind .integer := hkind ▸ result.hasKind_kind
        rwa [Node.widen_of_hasKind h]
    · have h : result.HasKind .number := Value.hasKind_number hclass
      rwa [Node.widen_of_hasKind h]

/-- Values of accepted kinds are taken, and what is promised for them belongs, after widening, to
the kind that the check returned. -/
theorem exists_takes {signature : Signature} {kinds : List Kind} {kind : Kind}
    {values : List Value} (h : signature.returnKind kinds = .ok kind)
    (hvalues : Forall₂ Value.HasKind values kinds) :
    ∃ groupClass, signature.Takes groupClass values ∧
      ∀ result, signature.Promises groupClass values result →
        (Node.widen kind result).HasKind kind := by
  obtain ⟨groupClass, hadmits, hallowed, rfl⟩ := returnKind_eq_ok h
  refine ⟨groupClass, ⟨takes_of_admits hadmits hvalues, hallowed⟩, ?_⟩
  -- What is promised depends on how the signature finds its result, and so does the kind that was
  -- returned.
  intro result hpromise
  unfold Promises at hpromise
  unfold Signature.result
  cases hreturns : signature.returns with
  | kind required =>
      rw [hreturns] at hpromise
      simpa [Node.widen_of_hasKind hpromise] using hpromise
  | group =>
      rw [hreturns] at hpromise
      obtain ⟨hgroup, hinteger⟩ := hpromise
      rw [hgroup]
      by_cases hclass : result.kind.toClass = .numeric
      · simp only [Option.map_some, Option.getD_some, hclass, if_true]
        exact hasKind_widen_ofOperands hclass fun hmodes =>
          hinteger (members_integer hvalues hmodes) hclass
      · simp only [Option.map_some, Option.getD_some, hclass, if_false]
        rw [Node.widen_of_hasKind result.hasKind_widest]
        exact result.hasKind_widest
  | widened =>
      rw [hreturns] at hpromise
      have hnumber : result.HasKind .number := Value.hasKind_number hpromise
      cases groupClass with
      | none =>
          show (Node.widen .number result).HasKind .number
          rwa [Node.widen_of_hasKind hnumber]
      | some found =>
          simp only [Option.map_some, Option.getD_some]
          split
          · exact Node.hasKind_widen_float hpromise
          · rwa [Node.widen_of_hasKind hnumber]

end Signature

end Reckon
