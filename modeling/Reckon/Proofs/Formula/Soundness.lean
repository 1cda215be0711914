import Reckon.Proofs.Formula.WellFormed

/-!
# Soundness of the kinds of formulas

Read `evaluate_sound` first: a formula that compilation and specialization lead to has values of its
kind only, and an error of its evaluation lies in the values or in the bindings, never in the kinds
and never in the layout of the frame.
-/

namespace Reckon

namespace Bindings

/-- A parameter without a value of its kind is not bound, or its value cannot take the kind. -/
inductive Fault (bindings : Bindings) (parameters : List TypedParameter) : EvalError → Prop where
  | missing {parameter : TypedParameter} (hmem : parameter ∈ parameters)
      (hget : bindings.get? parameter.name = none) :
      Fault bindings parameters (.missingParameter parameter.name)
  | refused {parameter : TypedParameter} {value : Value} (hmem : parameter ∈ parameters)
      (hget : bindings.get? parameter.name = some value)
      (hadjust : value.adjust? parameter.kind = none) :
      Fault bindings parameters (.parameterKind parameter.name parameter.kind value.kind)

/-- The error of a frame is the fault of one of its parameters. -/
theorem fault_of_frame {bindings : Bindings} {parameters : List TypedParameter} {e : EvalError}
    (h : bindings.frame parameters = .error e) : bindings.Fault parameters e := by
  obtain ⟨parameter, hmem, hvalueOf⟩ := exists_of_mapM h
  unfold valueOf at hvalueOf
  split at hvalueOf
  · next hget =>
      cases hvalueOf
      exact .missing hmem hget
  · next value hget =>
      split at hvalueOf
      · cases hvalueOf
      · next hadjust =>
          cases hvalueOf
          exact .refused hmem hget hadjust

end Bindings

namespace Operation

/-- An operation that a registry gives keeps its promise, if the random functions that the registry
lists do. -/
theorem From.keepsPromise {registry : Registry} (hregistry : registry.IsStandard)
    (hrandom : ∀ entry ∈ registry.entries, entry.2.isDeterministic = false → entry.2.KeepsPromise)
    {op : Operation} (h : op.From registry) : op.KeepsPromise := by
  cases h with
  | unary operator => exact keepsPromise_unary operator
  | binary operator => exact keepsPromise_binary operator
  | call hmem =>
      refine keepsPromise_call ?_
      cases hregistry _ hmem with
      | listed hlisted => exact Callable.keepsPromise_standard _ hlisted
      | redrawn => exact hrandom _ hmem rfl

end Operation

namespace Formula

/-- The kinds of formulas are sound, in every formula that compilation in a valid grammar with the
functions of the language and any specializations lead to. Random functions may be replaced by
others that keep the promises of their signatures. A frame of bindings has a value of the right kind
in every slot that the tree reads. Whatever is drawn, a value that evaluation returns belongs to the
kind of the formula; an error of kinds never occurs, and an error of parameters occurs only where a
parameter of the manifest is not bound, or is bound to a value that cannot take its kind. -/
theorem evaluate_sound {grammar : Grammar} {registry : Registry} {compiler : Compiler}
    (hcompiler : Compiler.ofGrammar grammar registry = .ok compiler)
    (hregistry : registry.IsStandard)
    (hrandom : ∀ entry ∈ registry.entries, entry.2.isDeterministic = false → entry.2.KeepsPromise)
    {formula : Formula} (hformula : formula.Reachable compiler) (bindings : Bindings)
    (draws : Draws) :
    (∀ frame, bindings.frame formula.parameters = .ok frame → Node.Fills frame formula.root) ∧
      match (formula.evaluate bindings).outcome draws with
      | .ok value => value.HasKind formula.kind
      | .error e => e.IsComputational ∨ bindings.Fault formula.parameters e := by
  obtain ⟨-, -, hcompiler⟩ := bind_eq_ok.mp hcompiler
  cases hcompiler
  have hwellFormed : formula.WellFormed Operation.KeepsPromise :=
    hformula.wellFormed.mono fun _ h => h.keepsPromise hregistry hrandom
  refine ⟨fun frame hframe => fills_frame hwellFormed.slotted hframe, ?_⟩
  unfold evaluate
  cases hframe : bindings.frame formula.parameters with
  | error e => exact .inr (Bindings.fault_of_frame hframe)
  | ok frame =>
      have hyields := hwellFormed.typed.yields (fills_frame hwellFormed.slotted hframe) draws
      show match (formula.root.evaluate frame).outcome draws with
        | .ok value => value.HasKind formula.kind
        | .error e => e.IsComputational ∨ bindings.Fault formula.parameters e
      generalize (formula.root.evaluate frame).outcome draws = outcome at hyields ⊢
      cases hyields with
      | ok h => exact h
      | error h => exact .inl h

/-- A draw below a bound that is a parameter: whatever is drawn, it is an integer, or the bound is
out of the function's domain. -/
theorem evaluate_sound_random : ∃ (compiler : Compiler) (formula : Formula),
    Compiler.ofGrammar Grammar.standard Registry.standard = .ok compiler ∧
      formula.Reachable compiler ∧ formula.kind = .integer ∧
      ∀ draws, match (formula.evaluate ⟨[("x", .integer 6)]⟩).outcome draws with
        | .ok value => value.HasKind .integer
        | .error e => e.IsComputational ∨
            Bindings.Fault ⟨[("x", .integer 6)]⟩ formula.parameters e := by
  have hvalid : Compiler.ofGrammar Grammar.standard Registry.standard =
      .ok ⟨Grammar.standard, Registry.standard⟩ := by rfl
  have hcompile : ((Compiler.compile ⟨Grammar.standard, Registry.standard⟩ "random(x)").toOption.map
      (·.kind)) = some .integer := by decide +kernel
  obtain ⟨formula, hreachable, hkind⟩ := exists_reachable hcompile
  refine ⟨_, formula, hvalid, hreachable, hkind, fun draws => ?_⟩
  have hsound := (evaluate_sound hvalid Registry.isStandard_standard
    (fun entry h _ => Callable.keepsPromise_standard _ (Registry.mem_standard h)) hreachable
    ⟨[("x", .integer 6)]⟩ draws).2
  rw [hkind] at hsound
  exact hsound

end Formula

end Reckon
