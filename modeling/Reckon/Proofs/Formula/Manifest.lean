import Reckon.Proofs.Formula.WellFormed
import Reckon.Proofs.Typing.Widest

/-!
# The manifest and the tree

A formula reads its parameters by slot, and its manifest says which parameter has which slot.
`manifest_aligned` says that the two stay in step: names stand once in the manifest, and every
parameter of the tree has its own entry in its slot. The manifest of a compiled formula has the
parameters of its untyped tree in the order in which they first occur, and specialization takes the
bound ones out of it.
-/

namespace Reckon

namespace Compiler

/-- The manifest of an elaborated tree has its parameters in the order of their first occurrences.
-/
theorem names_elaborate {tree : Expr} {root : Node} {parameters : Parameters}
    (h : elaborate tree = .ok (root, parameters)) :
    parameters.names = tree.parameterNames.eraseDups := by
  obtain ⟨learned, hlearned, h⟩ := bind_eq_ok.mp h
  obtain ⟨node, hnode, h⟩ := bind_eq_ok.mp h
  cases h
  rw [Expr.inferKinds_eq] at hlearned
  obtain ⟨hlearned, -⟩ := Expr.settled_of_inferKinds (Expr.advertised_unknowns tree) hlearned
  have hnames : learned.withDefaults.names = learned.names := by
    simp [Parameters.names, Parameters.withDefaults, Function.comp_def]
  rw [hnames, hlearned.names, Expr.unknowns, Parameters.names_mentionAll]
  simp [Parameters.names, Parameters.empty]

end Compiler

namespace Formula

/-- The manifest of a compiled formula has the parameters of its untyped tree in the order of their
first occurrences. -/
theorem names_compile {compiler : Compiler} {source : String} {formula : Formula}
    (h : compiler.compile source = .ok formula) : ∃ tree,
      Expr.parse compiler.grammar compiler.registry source.toList = .ok tree ∧
        formula.parameters.map (·.name) = tree.parameterNames.eraseDups := by
  obtain ⟨tree, htree, h⟩ := bind_eq_ok.mp h
  obtain ⟨⟨root, parameters⟩, hroot, h⟩ := bind_eq_ok.mp h
  cases h
  refine ⟨tree, htree, ?_⟩
  rw [← Compiler.names_elaborate hroot]
  simp [Parameters.manifest, Parameters.names, Function.comp_def]

/-- The parameters of a formula that compilation and any specializations lead to have names. -/
theorem Reachable.isName {compiler : Compiler} {formula : Formula}
    (h : formula.Reachable compiler) :
    ∀ parameter ∈ formula.parameters, Literal.isName parameter.name.toList = true := by
  induction h with
  | compiled h =>
      intro parameter hparameter
      obtain ⟨tree, htree, hnames⟩ := names_compile h
      refine Expr.isName_parse htree parameter.name (List.mem_eraseDups.mp ?_)
      rw [← hnames]
      exact List.mem_map_of_mem hparameter
  | specialized hformula h ih =>
      intro parameter hparameter
      rw [parameters_specialize hformula.wellFormed h] at hparameter
      exact ih parameter (List.mem_filter.mp hparameter).1

/-- The manifest and the tree of a formula that compilation and any specializations lead to are
aligned: names are distinct, and every parameter of the tree stands in its slot of the manifest with
its name and its kind. Right after compilation the manifest lists the parameters of the untyped
tree, each once, in the order of their first occurrences; and specialization removes those that are
bound and keeps the others in their order. -/
theorem manifest_aligned {compiler : Compiler} {formula : Formula}
    (hformula : formula.Reachable compiler) :
    (formula.parameters.map (·.name)).Nodup ∧
      (∀ p, .parameter p ∈ formula.root.nodes →
        formula.parameters[p.slot]? = some ⟨p.name, p.kind⟩) ∧
      (∀ source, compiler.compile source = .ok formula → ∃ tree,
        Expr.parse compiler.grammar compiler.registry source.toList = .ok tree ∧
          formula.parameters.map (·.name) = tree.parameterNames.eraseDups) ∧
      ∀ bindings special, formula.specialize bindings = .ok special →
        special.parameters = formula.parameters.filter bindings.leaves := by
  have hwellFormed := hformula.wellFormed
  exact ⟨hwellFormed.distinct, hwellFormed.slotted, fun source h => names_compile h,
    fun bindings special h => parameters_specialize hwellFormed h⟩

/-- A compiled formula lists its two parameters as they first occur, and loses the one that is
bound. -/
theorem manifest_aligned_product :
    ∃ formula : Formula, formula.Reachable ⟨Grammar.standard, Registry.standard⟩ ∧
      formula.parameters.map (·.name) = ["y", "x"] ∧
      (∀ p, .parameter p ∈ formula.root.nodes →
        formula.parameters[p.slot]? = some ⟨p.name, p.kind⟩) ∧
      ∃ special, formula.specialize ⟨[("y", .integer 2)]⟩ = .ok special ∧
        special.parameters.map (·.name) = ["x"] := by
  have hcompile : ((Compiler.compile ⟨Grammar.standard, Registry.standard⟩
      "(y * x) + y").toOption.map fun formula => (formula.parameters.map (·.name),
        (formula.specialize ⟨[("y", .integer 2)]⟩).toOption.isSome)) =
      some (["y", "x"], true) := by decide +kernel
  obtain ⟨formula, hreachable, hread⟩ := exists_reachable hcompile
  obtain ⟨hnames, hspecial⟩ := Prod.mk.inj hread
  obtain ⟨-, hslotted, -, hleaves⟩ := manifest_aligned hreachable
  refine ⟨formula, hreachable, hnames, hslotted, ?_⟩
  cases hspecialize : formula.specialize ⟨[("y", .integer 2)]⟩ with
  | error fault =>
      rw [hspecialize] at hspecial
      cases hspecial
  | ok special =>
      refine ⟨special, rfl, ?_⟩
      have hfilter : special.parameters.map (·.name) =
          (formula.parameters.map (·.name)).filter fun name =>
            (Bindings.get? ⟨[("y", .integer 2)]⟩ name).isNone := by
        rw [hleaves _ _ hspecialize, List.filter_map]
        rfl
      rw [hfilter, hnames]
      decide

end Formula

end Reckon
