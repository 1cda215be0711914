import Reckon.Proofs.Formula.Placement
import Reckon.Proofs.Function.Standard
import Reckon.Proofs.Tree.Simplification
import Reckon.Proofs.Tree.Substitution
import Reckon.Proofs.Typing.Elaboration

/-!
# Well-formed formulas

Every formula that compilation or specialization produces has a typed tree that reads each parameter
in the slot where the manifest has it, under one name per slot. `Formula.WellFormed` is that
invariant, `wellFormed_compile` establishes it, and `wellFormed_specialize` keeps it.
-/

namespace Reckon

/-- The registry lists functions of the language only; those that draw may have been replaced. -/
def Registry.IsStandard (registry : Registry) : Prop :=
  ∀ entry ∈ registry.entries, entry.2.IsStandard

theorem Registry.isStandard_standard : Registry.standard.IsStandard :=
  fun _ h => .listed (mem_standard h)

theorem Operation.From.isStandard {registry : Registry} (hregistry : registry.IsStandard)
    {op : Operation} (h : op.From registry) : op.IsStandard := by
  cases h with
  | unary | binary => trivial
  | call h => exact hregistry _ h

namespace Formula

/-- A formula whose tree is typed over some operations, and reads its parameters where the manifest
has them. -/
structure WellFormed (ops : Operation → Prop) (formula : Formula) : Prop where
  typed : formula.root.Typed ops
  distinct : (formula.parameters.map (·.name)).Nodup
  slotted : ∀ p, .parameter p ∈ formula.root.nodes →
    formula.parameters[p.slot]? = some ⟨p.name, p.kind⟩

theorem WellFormed.mono {ops other : Operation → Prop} {formula : Formula}
    (h : formula.WellFormed ops) (hops : ∀ op, ops op → other op) : formula.WellFormed other :=
  ⟨h.typed.mono hops, h.distinct, h.slotted⟩

/-- A formula that a compiler makes, or that specialization makes of such a formula. -/
inductive Reachable (compiler : Compiler) : Formula → Prop where
  | compiled {source : String} {formula : Formula} (h : compiler.compile source = .ok formula) :
      Reachable compiler formula
  | specialized {formula special : Formula} {bindings : Bindings}
      (hformula : Reachable compiler formula) (h : formula.specialize bindings = .ok special) :
      Reachable compiler special

/-- Where what is read off a compilation is there, it is read off a formula that the compiler
makes. -/
theorem exists_reachable {α : Type} {compiler : Compiler} {source : String} {read : Formula → α}
    {found : α} (h : (compiler.compile source).toOption.map read = some found) :
    ∃ formula : Formula, formula.Reachable compiler ∧ read formula = found := by
  obtain ⟨formula, hformula, hread⟩ := Option.map_eq_some_iff.mp h
  exact ⟨formula, .compiled (toOption_eq_some.mp hformula), hread⟩

/-- The frame of bindings fills a tree that reads its parameters where the manifest has them. -/
theorem fills_frame {root : Node} {parameters : List TypedParameter} {bindings : Bindings}
    {frame : List Value}
    (hslotted : ∀ p, .parameter p ∈ root.nodes → parameters[p.slot]? = some ⟨p.name, p.kind⟩)
    (hframe : bindings.frame parameters = .ok frame) : Node.Fills frame root := by
  intro p hp
  obtain ⟨value, hvalue, hvalueOf⟩ := getElem_of_mapM hframe (hslotted p hp)
  exact ⟨value, hvalue, Bindings.hasKind_of_valueOf hvalueOf⟩

/-- A compiled formula is well-formed. -/
theorem wellFormed_compile {compiler : Compiler} {source : String} {formula : Formula}
    (h : compiler.compile source = .ok formula) :
    formula.WellFormed (Operation.From compiler.registry) := by
  obtain ⟨tree, htree, h⟩ := bind_eq_ok.mp h
  obtain ⟨⟨root, parameters⟩, hroot, h⟩ := bind_eq_ok.mp h
  cases h
  obtain ⟨hbuilt, hdistinct, hslots⟩ := Compiler.built_elaborate (Expr.over_parse htree) hroot
  refine ⟨hbuilt.typed.simplify.1, ?_, fun p hp => ?_⟩
  · simpa [Parameters.manifest, Parameters.names, Function.comp_def] using hdistinct
  · have hentry := hslots p (Node.parameter_of_simplify hp)
    rw [Parameters.manifest, List.getElem?_map, hentry]
    rfl

/-- A specialized formula is the simplified substitution of a placement of the parameters. -/
theorem specialize_eq_ok {formula special : Formula} {bindings : Bindings}
    (h : formula.specialize bindings = .ok special) :
    ∃ specialization,
      Specialization.ofParameters bindings formula.parameters = .ok specialization ∧
      special.root = (formula.root.substitute specialization.substitution).simplify ∧
      special.parameters = specialization.remaining := by
  obtain ⟨specialization, hspecialization, h⟩ := bind_eq_ok.mp h
  cases h
  exact ⟨specialization, hspecialization, rfl, rfl⟩

section Specialize

variable {ops : Operation → Prop} {formula : Formula} {bindings : Bindings}
  {specialization : Specialization}

/-- Each parameter of the tree is one of the manifest, and is placed as that one. -/
theorem WellFormed.places (hformula : formula.WellFormed ops)
    (h : Specialization.ofParameters bindings formula.parameters = .ok specialization)
    {p : Parameter} (hp : .parameter p ∈ formula.root.nodes) :
    specialization.Places bindings ⟨p.name, p.kind⟩ := by
  obtain ⟨-, hplaces⟩ := Specialization.ofParameters_eq_ok hformula.distinct h
  exact hplaces _ (List.mem_of_getElem? (hformula.slotted p hp))

/-- Specialization leaves the parameters that are not bound. -/
theorem parameters_specialize {special : Formula} (hformula : formula.WellFormed ops)
    (h : formula.specialize bindings = .ok special) :
    special.parameters = formula.parameters.filter bindings.leaves := by
  obtain ⟨specialization, hspecialization, -, hparameters⟩ := specialize_eq_ok h
  rw [hparameters]
  exact (Specialization.ofParameters_eq_ok hformula.distinct hspecialization).1

/-- What takes the place of a parameter is a value of its kind, or a parameter of its kind. -/
theorem typed_image {p : Parameter} (h : specialization.Places bindings ⟨p.name, p.kind⟩) :
    (Node.image specialization.substitution p).Typed ops ∧
      (Node.image specialization.substitution p).kind.Refines p.kind := by
  cases h with
  | bound hget hadjust hlookup =>
      rw [Node.image, hlookup]
      exact ⟨.constant _, Value.hasKind_iff_refines.mp (Value.hasKind_of_adjust hadjust)⟩
  | moved hget hlookup hslot =>
      rw [Node.image, hlookup]
      exact ⟨.parameter _, .refl _⟩

/-- A substituted tree reads the remaining parameters where the new manifest has them. -/
theorem slotted_substitute (hformula : formula.WellFormed ops)
    (h : Specialization.ofParameters bindings formula.parameters = .ok specialization)
    {q : Parameter}
    (hq : .parameter q ∈ (formula.root.substitute specialization.substitution).nodes) :
    specialization.remaining[q.slot]? = some ⟨q.name, q.kind⟩ := by
  obtain ⟨p, hp, hq⟩ := Node.parameter_of_substitute hq
  cases hformula.places h hp with
  | bound hget hadjust hlookup => simp [Node.image, hlookup, Node.nodes] at hq
  | moved hget hlookup hslot =>
      simp only [Node.image, hlookup, Option.getD_some, Node.nodes, List.mem_singleton,
        Node.parameter.injEq] at hq
      rw [hq]
      exact hslot

/-- A specialized formula is well-formed. -/
theorem wellFormed_specialize {special : Formula} (hformula : formula.WellFormed ops)
    (h : formula.specialize bindings = .ok special) : special.WellFormed ops := by
  obtain ⟨specialization, hspecialization, hroot, hparameters⟩ := specialize_eq_ok h
  constructor
  · rw [hroot]
    exact (hformula.typed.substitute fun p hp =>
      typed_image (hformula.places hspecialization hp)).1.simplify.1
  · rw [parameters_specialize hformula h]
    exact hformula.distinct.sublist ((List.filter_sublist).map _)
  · intro p hp
    rw [hroot] at hp
    rw [hparameters]
    exact slotted_substitute hformula hspecialization (Node.parameter_of_simplify hp)

end Specialize

/-- Every formula that a compiler and specialization lead to is well-formed. -/
theorem Reachable.wellFormed {compiler : Compiler} {formula : Formula}
    (h : formula.Reachable compiler) : formula.WellFormed (Operation.From compiler.registry) := by
  induction h with
  | compiled h => exact wellFormed_compile h
  | specialized _ h ih => exact wellFormed_specialize ih h

end Formula

end Reckon
