import Reckon.Proofs.Formula.Specialization
import Reckon.Proofs.Tree.Folding

/-!
# Binding all parameters computes the value

A formula of pure operations whose parameters are all bound for good is a constant exactly if it has
a value for them, and that constant is the value (`specialize_computes`). So nothing but an error
stops its tree from being folded.
-/

namespace Reckon

namespace Bindings

/-- The bindings have a value for every parameter that can take its kind. -/
def Supplies (bindings : Bindings) (parameters : List TypedParameter) : Prop :=
  ∀ parameter ∈ parameters, ∃ value, bindings.valueOf parameter = .ok value

variable {bindings : Bindings} {parameters : List TypedParameter}

theorem Supplies.find_refuses (h : bindings.Supplies parameters) :
    parameters.find? bindings.refuses = none := by
  rw [List.find?_eq_none]
  intro parameter hparameter
  obtain ⟨adjusted, hvalue⟩ := h parameter hparameter
  obtain ⟨value, hget, hadjust⟩ := valueOf_eq_ok.mp hvalue
  simp [refuses, hget, hadjust]

theorem Supplies.filter_leaves (h : bindings.Supplies parameters) :
    parameters.filter bindings.leaves = [] := by
  rw [List.filter_eq_nil_iff]
  intro parameter hparameter
  obtain ⟨adjusted, hvalue⟩ := h parameter hparameter
  obtain ⟨value, hget, -⟩ := valueOf_eq_ok.mp hvalue
  simp [leaves, hget]

end Bindings

namespace Formula

/-- A formula of pure operations without parameters left, after specialization, is a constant or
fails. -/
theorem finished_specialize {formula special : Formula} {bindings : Bindings}
    (hformula : formula.WellFormed Operation.IsStandard) (hpure : formula.root.isPure = true)
    (h : formula.specialize bindings = .ok special) (hparameters : special.parameters = []) :
    special.root.Finished [] := by
  obtain ⟨specialization, hspecialization, hroot, hremaining⟩ := specialize_eq_ok h
  rw [hroot]
  have htyped := ((hformula.typed.restrict hpure).substitute fun p hp =>
    typed_image (hformula.places hspecialization hp)).1
  refine Node.finished_simplify htyped (fun q hq => ?_) []
  have hslot := slotted_substitute hformula hspecialization hq
  rw [← hremaining, hparameters] at hslot
  cases hslot

/-- Binding all parameters computes what evaluation computes, for every formula that compilation
with the functions of the language and any specializations lead to, if its tree has no volatile
function and no conditional. With a value that conforms to its kind for each parameter,
specialization succeeds and leaves no parameter. If the formula has a value for these bindings, the
specialized tree is that value as a constant, of the same kind; otherwise it is no constant, and
evaluating it without bindings fails with the same error. -/
theorem specialize_computes {compiler : Compiler} (hregistry : compiler.registry.IsStandard)
    {formula : Formula} (hformula : formula.Reachable compiler)
    (hpure : formula.root.isPure = true) {bindings : Bindings}
    (hbindings : bindings.Supplies formula.parameters) :
    ∃ special, formula.specialize bindings = .ok special ∧ special.parameters = [] ∧
      ∀ draws, match (formula.evaluate bindings).outcome draws with
        | .ok value => special.root.constant? = some value ∧ special.kind = value.kind
        | .error error => special.root.constant? = none ∧
            (special.evaluate .empty).outcome draws = .error error := by
  have hwellFormed : formula.WellFormed Operation.IsStandard :=
    hformula.wellFormed.mono fun _ h => h.isStandard hregistry
  have hcases := specialize_cases hwellFormed bindings
  rw [hbindings.find_refuses] at hcases
  obtain ⟨special, hspecial, hparameters, hevaluate⟩ := hcases
  rw [hbindings.filter_leaves] at hparameters
  refine ⟨special, hspecial, hparameters, fun draws => ?_⟩
  have hsame : special.evaluate .empty = formula.evaluate bindings := by
    rw [hevaluate]
    refine evaluate_congr formula fun name => ?_
    rw [Bindings.get_overriddenBy]
    exact Option.or_none
  have hroot : special.evaluate .empty = special.root.evaluate [] := by
    rw [evaluate, hparameters]
    rfl
  rw [← hsame, hroot]
  rcases finished_specialize hwellFormed hpure hspecial hparameters with ⟨c, hc⟩ | ⟨error, herror⟩
  · rw [hc, Node.evaluate, kind, hc]
    exact ⟨rfl, rfl⟩
  · rw [herror]
    refine ⟨?_, rfl⟩
    -- A constant would have a value.
    cases hnode : special.root with
    | constant c =>
        rw [hnode, Node.evaluate] at herror
        have hdraw := congrFun herror draws
        cases hdraw
    | parameter | operation => rfl

/-- The comparison of a quotient: with a divisor it becomes its truth value, and with none it stays
and fails. -/
theorem specialize_computes_quotient :
    ∃ formula : Formula, formula.Reachable ⟨Grammar.standard, Registry.standard⟩ ∧
      formula.root.isPure = true ∧
      (∃ special value, formula.specialize ⟨[("x", .integer 6), ("y", .integer 2)]⟩ = .ok special ∧
        special.root.constant? = some value ∧ value.same (.boolean true) = true) ∧
      ∃ special error, formula.specialize ⟨[("x", .integer 6), ("y", .integer 0)]⟩ = .ok special ∧
        special.root.constant? = none ∧
        (special.evaluate .empty).outcome ⟨fun _ => 0, 0⟩ = .error error := by
  have hcompile : ((Compiler.compile ⟨Grammar.standard, Registry.standard⟩
      "((x / y) > 2) && (x > 5)").toOption.map fun formula =>
        (formula.root.isPure, formula.parameters,
          ((formula.evaluate ⟨[("x", .integer 6), ("y", .integer 2)]⟩).outcome
            ⟨fun _ => 0, 0⟩).toOption.map (·.same (.boolean true)),
          ((formula.evaluate ⟨[("x", .integer 6), ("y", .integer 0)]⟩).outcome
            ⟨fun _ => 0, 0⟩).toOption.isSome)) =
      some (true, [⟨"x", .number⟩, ⟨"y", .number⟩], some true, false) := by decide +kernel
  obtain ⟨formula, hreachable, hcompile⟩ := exists_reachable hcompile
  simp only [Prod.mk.injEq] at hcompile
  obtain ⟨hpure, hparameters, hvalue, herror⟩ := hcompile
  have hsupplies (i j : Int64) :
      Bindings.Supplies ⟨[("x", .integer i), ("y", .integer j)]⟩ formula.parameters := by
    rw [hparameters, Bindings.Supplies]
    simp only [List.forall_mem_cons]
    exact ⟨⟨.integer i, rfl⟩, ⟨.integer j, rfl⟩, List.forall_mem_nil _⟩
  refine ⟨formula, hreachable, hpure, ?_, ?_⟩
  · obtain ⟨special, hspecial, -, hcomputes⟩ := specialize_computes Registry.isStandard_standard
      hreachable hpure (hsupplies 6 2)
    have hresult := hcomputes ⟨fun _ => 0, 0⟩
    obtain ⟨value, houtcome, hsame⟩ := Option.map_eq_some_iff.mp hvalue
    rw [toOption_eq_some.mp houtcome] at hresult
    exact ⟨special, value, hspecial, hresult.1, hsame⟩
  · obtain ⟨special, hspecial, -, hcomputes⟩ := specialize_computes Registry.isStandard_standard
      hreachable hpure (hsupplies 6 0)
    have hresult := hcomputes ⟨fun _ => 0, 0⟩
    cases houtcome : (formula.evaluate ⟨[("x", .integer 6), ("y", .integer 0)]⟩).outcome
        ⟨fun _ => 0, 0⟩ with
    | ok value =>
        rw [houtcome] at herror
        cases herror
    | error error =>
        rw [houtcome] at hresult
        exact ⟨special, error, hspecial, hresult⟩

end Formula

end Reckon
