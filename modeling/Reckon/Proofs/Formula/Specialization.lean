import Reckon.Proofs.Formula.WellFormed

/-!
# Specialization agrees with evaluation

Read `specialize_agrees` first: binding parameters for good fails exactly when one of the values
cannot take the kind of its parameter, keeps the other parameters in their order, and leaves a
formula that evaluates on later bindings as the original does on all of them together. So parameters
may be bound one at a time, in groups, or all at once; only which of several refused values is
reported depends on the groups (`specialize_order_differs`).
-/

namespace Reckon

namespace Bindings

/-- The bindings with the values of others in place of their own where both have one. -/
def overriddenBy (bindings others : Bindings) : Bindings :=
  ⟨others.entries ++ bindings.entries.filter fun entry => (others.get? entry.1).isNone⟩

/-- All bindings of several groups; of two values for one name the one in the earlier group
counts. -/
def merge (groups : List Bindings) : Bindings :=
  groups.foldr (fun group rest => rest.overriddenBy group) empty

/-- The error of the first of these parameters that the bindings refuse. -/
inductive Refusal (bindings : Bindings) (parameters : List TypedParameter) : EvalError → Prop where
  | first {refused : TypedParameter} {value : Value}
      (hfind : parameters.find? bindings.refuses = some refused)
      (hvalue : bindings.get? refused.name = some value) :
      Refusal bindings parameters (.parameterKind refused.name refused.kind value.kind)

variable {bindings others : Bindings}

/-- Dropping entries of other names does not change the value of a name. -/
theorem lookup_filter {name : String} {keep : String × Value → Bool}
    (h : ∀ value, keep (name, value) = true) (entries : List (String × Value)) :
    (entries.filter keep).lookup name = entries.lookup name := by
  induction entries with
  | nil => rfl
  | cons entry entries ih =>
      obtain ⟨key, value⟩ := entry
      by_cases hkey : name = key
      · subst hkey
        rw [List.filter_cons_of_pos (h value), List.lookup_cons_self, List.lookup_cons_self]
      · rw [List.lookup_cons, beq_false_of_ne hkey, List.filter_cons]
        split
        · rw [List.lookup_cons, beq_false_of_ne hkey]
          exact ih
        · exact ih

/-- The overridden bindings have the other value for a name, if there is one. -/
theorem get_overriddenBy (bindings others : Bindings) (name : String) :
    (bindings.overriddenBy others).get? name = (others.get? name).or (bindings.get? name) := by
  unfold overriddenBy
  rw [get?, List.lookup_append]
  cases hget : others.get? name with
  | some value =>
      rw [get?] at hget
      rw [hget, Option.some_or, Option.some_or]
  | none =>
      rw [lookup_filter (by simp [hget])]
      rw [get?] at hget
      rw [hget, get?]

theorem valueOf_congr (h : ∀ name, bindings.get? name = others.get? name)
    (parameter : TypedParameter) : bindings.valueOf parameter = others.valueOf parameter := by
  rw [valueOf, valueOf, h]

theorem valueOf_of_leaves {parameter : TypedParameter} (h : others.leaves parameter = true) :
    (bindings.overriddenBy others).valueOf parameter = bindings.valueOf parameter := by
  have hget : others.get? parameter.name = none := by simpa [leaves] using h
  rw [valueOf, valueOf, get_overriddenBy, hget, Option.none_or]

theorem valueOf_of_bound {parameter : TypedParameter} {value adjusted : Value}
    (hget : others.get? parameter.name = some value)
    (hadjust : value.adjust? parameter.kind = some adjusted) :
    (bindings.overriddenBy others).valueOf parameter = .ok adjusted := by
  rw [valueOf, get_overriddenBy, hget, Option.some_or]
  simp only [hadjust]

/-- A parameter that is neither left nor refused has a value of its kind. -/
theorem exists_bound {parameter : TypedParameter} (hleaves : others.leaves parameter = false)
    (hrefuses : others.refuses parameter = false) : ∃ value adjusted,
      others.get? parameter.name = some value ∧ value.adjust? parameter.kind = some adjusted := by
  obtain ⟨value, hget⟩ : ∃ value, others.get? parameter.name = some value :=
    Option.isSome_iff_exists.mp (by simpa [leaves] using hleaves)
  have hadjust : (value.adjust? parameter.kind).isSome := by simpa [refuses, hget] using hrefuses
  obtain ⟨adjusted, hadjust⟩ := Option.isSome_iff_exists.mp hadjust
  exact ⟨value, adjusted, hget, hadjust⟩

theorem not_refuses_of_leaves {parameter : TypedParameter} (h : others.leaves parameter = true) :
    others.refuses parameter = false := by
  have hget : others.get? parameter.name = none := by simpa [leaves] using h
  rw [refuses, hget, Option.any_none]

/-- A parameter that the other bindings leave is refused by both together if it is by the
bindings. -/
theorem refuses_of_leaves {parameter : TypedParameter} (h : others.leaves parameter = true) :
    (bindings.overriddenBy others).refuses parameter = bindings.refuses parameter := by
  have hget : others.get? parameter.name = none := by simpa [leaves] using h
  rw [refuses, refuses, get_overriddenBy, hget, Option.none_or]

/-- A parameter that the other bindings have is refused by both together if it is by the others. -/
theorem refuses_of_bound {parameter : TypedParameter} (h : others.leaves parameter = false) :
    (bindings.overriddenBy others).refuses parameter = others.refuses parameter := by
  obtain ⟨value, hget⟩ : ∃ value, others.get? parameter.name = some value :=
    Option.isSome_iff_exists.mp (by simpa [leaves] using h)
  rw [refuses, refuses, get_overriddenBy, hget, Option.some_or]

/-- Both together refuse no parameter if and only if the others refuse none and the bindings refuse
none that the others leave. -/
theorem forall_refuses_overriddenBy {parameters : List TypedParameter} :
    (∀ parameter ∈ parameters, (bindings.overriddenBy others).refuses parameter = false) ↔
      (∀ parameter ∈ parameters, others.refuses parameter = false) ∧
        ∀ parameter ∈ parameters.filter others.leaves, bindings.refuses parameter = false := by
  constructor
  · intro h
    constructor
    · intro parameter hparameter
      cases hleaves : others.leaves parameter with
      | true => exact not_refuses_of_leaves hleaves
      | false =>
          rw [← refuses_of_bound hleaves]
          exact h parameter hparameter
    · intro parameter hparameter
      obtain ⟨hmem, hleaves⟩ := List.mem_filter.mp hparameter
      rw [← refuses_of_leaves hleaves]
      exact h parameter hmem
  · rintro ⟨hothers, h⟩ parameter hparameter
    cases hleaves : others.leaves parameter with
    | true =>
        rw [refuses_of_leaves hleaves]
        exact h parameter (List.mem_filter.mpr ⟨hparameter, hleaves⟩)
    | false =>
        rw [refuses_of_bound hleaves]
        exact hothers parameter hparameter

/-- Both together leave the parameters that both leave. -/
theorem leaves_overriddenBy (bindings others : Bindings) :
    (bindings.overriddenBy others).leaves =
      fun parameter => bindings.leaves parameter && others.leaves parameter := by
  funext parameter
  rw [leaves, get_overriddenBy, leaves, leaves]
  cases others.get? parameter.name with
  | none => simp
  | some value => simp

theorem filter_overriddenBy (bindings others : Bindings) (parameters : List TypedParameter) :
    parameters.filter (bindings.overriddenBy others).leaves =
      (parameters.filter others.leaves).filter bindings.leaves := by
  rw [List.filter_filter, leaves_overriddenBy]

theorem filter_merge_nil (parameters : List TypedParameter) :
    parameters.filter (merge []).leaves = parameters :=
  List.filter_eq_self.mpr fun _ _ => rfl

/-- Overriding in two steps is overriding by both at once. -/
theorem get_overriddenBy_assoc (a b c : Bindings) (name : String) :
    ((a.overriddenBy b).overriddenBy c).get? name =
      (a.overriddenBy (b.overriddenBy c)).get? name := by
  simp only [get_overriddenBy, Option.or_assoc]

/-- The frame of all parameters fails as the frame of those that the others leave, and has a value
for each parameter if that one has. -/
theorem frame_overriddenBy (bindings : Bindings) {parameters : List TypedParameter}
    (h : ∀ parameter ∈ parameters, others.refuses parameter = false) :
    match bindings.frame (parameters.filter others.leaves) with
    | .error e => (bindings.overriddenBy others).frame parameters = .error e
    | .ok _ => ∃ values, (bindings.overriddenBy others).frame parameters = .ok values := by
  induction parameters with
  | nil => exact ⟨[], rfl⟩
  | cons parameter parameters ih =>
      rw [List.forall_mem_cons] at h
      have ih := ih h.2
      unfold frame at ih ⊢
      rw [List.mapM_cons]
      cases hleaves : others.leaves parameter with
      | true =>
          rw [List.filter_cons_of_pos hleaves, List.mapM_cons, valueOf_of_leaves hleaves]
          cases bindings.valueOf parameter with
          | error e => rfl
          | ok value =>
              cases hrest : (parameters.filter others.leaves).mapM bindings.valueOf with
              | error e =>
                  rw [hrest] at ih
                  simp only at ih
                  rw [ih]
                  rfl
              | ok rest =>
                  rw [hrest] at ih
                  obtain ⟨values, hvalues⟩ := ih
                  exact ⟨value :: values, by rw [hvalues]; rfl⟩
      | false =>
          obtain ⟨value, adjusted, hget, hadjust⟩ := exists_bound hleaves h.1
          rw [List.filter_cons_of_neg (by simp [hleaves]), valueOf_of_bound hget hadjust]
          cases hrest : (parameters.filter others.leaves).mapM bindings.valueOf with
          | error e =>
              rw [hrest] at ih
              simp only at ih
              rw [ih]
              rfl
          | ok rest =>
              rw [hrest] at ih
              obtain ⟨values, hvalues⟩ := ih
              exact ⟨adjusted :: values, by rw [hvalues]; rfl⟩

end Bindings

namespace Formula

variable {ops : Operation → Prop} {formula special : Formula} {bindings others : Bindings}

/-- Evaluation depends on the values of the parameters only. -/
theorem evaluate_of_valueOf
    (h : ∀ parameter ∈ formula.parameters, bindings.valueOf parameter = others.valueOf parameter) :
    formula.evaluate bindings = formula.evaluate others := by
  rw [evaluate, evaluate, Bindings.frame, Bindings.frame, mapM_congr h]

/-- Evaluation depends on the values of names only. -/
theorem evaluate_congr (formula : Formula) (h : ∀ name, bindings.get? name = others.get? name) :
    formula.evaluate bindings = formula.evaluate others :=
  evaluate_of_valueOf fun parameter _ => Bindings.valueOf_congr h parameter

/-- What takes the place of a parameter evaluates on the frame of the remaining parameters as the
parameter does on the frame of all. -/
theorem evaluate_image {specialization : Specialization} {parameters : List TypedParameter}
    {frame rest : List Value} {p : Parameter}
    (hslot : parameters[p.slot]? = some ⟨p.name, p.kind⟩)
    (hplaces : specialization.Places others ⟨p.name, p.kind⟩)
    (hframe : (bindings.overriddenBy others).frame parameters = .ok frame)
    (hrest : bindings.frame specialization.remaining = .ok rest) :
    Node.evaluate rest (Node.image specialization.substitution p) =
      Node.evaluate frame (.parameter p) := by
  obtain ⟨value, hvalue, hvalueOf⟩ := getElem_of_mapM hframe hslot
  rw [Node.evaluate, Node.readParameter, hvalue]
  cases hplaces with
  | bound hget hadjust hlookup =>
      rw [Bindings.valueOf_of_bound hget hadjust] at hvalueOf
      cases hvalueOf
      rw [Node.image, hlookup]
      simp [Node.evaluate, Constant.computed]
  | moved hget hlookup hremaining =>
      obtain ⟨moved, hmoved, hmovedOf⟩ := getElem_of_mapM hrest hremaining
      rw [Bindings.valueOf_of_leaves (by simp [Bindings.leaves, hget]), hmovedOf] at hvalueOf
      cases hvalueOf
      simp [Node.image, hlookup, Node.evaluate, Node.readParameter, hmoved]

/-- A specialized formula evaluates as the original does on all bindings together. -/
theorem evaluate_specialize (hformula : formula.WellFormed Operation.IsStandard)
    (h : formula.specialize others = .ok special) (bindings : Bindings) :
    special.evaluate bindings = formula.evaluate (bindings.overriddenBy others) := by
  obtain ⟨specialization, hspecialization, hroot, hparameters⟩ := specialize_eq_ok h
  obtain ⟨hremaining, -⟩ := Specialization.ofParameters_eq_ok hformula.distinct hspecialization
  have hframes := Bindings.frame_overriddenBy bindings
    (Specialization.refuses_of_ofParameters hspecialization)
  unfold evaluate
  rw [hroot, hparameters, hremaining]
  cases hrest : bindings.frame (formula.parameters.filter others.leaves) with
  | error e =>
      rw [hrest] at hframes
      simp only at hframes
      rw [hframes]
      rfl
  | ok rest =>
      rw [hrest] at hframes
      obtain ⟨frame, hframe⟩ := hframes
      rw [hframe]
      rw [← hremaining] at hrest
      show Node.evaluate rest _ = Node.evaluate frame formula.root
      have htyped := (hformula.typed.substitute fun p hp =>
        typed_image (hformula.places hspecialization hp)).1
      have hfits : Node.Fits rest (formula.root.substitute specialization.substitution) :=
        (fills_frame (fun q hq => slotted_substitute hformula hspecialization hq) hrest).fits
      rw [Node.evaluate_simplify htyped hfits]
      exact Node.evaluate_substitute fun p hp => evaluate_image (hformula.slotted p hp)
        (hformula.places hspecialization hp) hframe hrest

/-- A specialization fails with the error of the first refused parameter, or keeps the parameters
that the bindings leave and evaluates as the original does on all bindings together. -/
theorem specialize_cases (hformula : formula.WellFormed Operation.IsStandard) (others : Bindings) :
    match formula.parameters.find? others.refuses with
    | some refused => ∃ value, others.get? refused.name = some value ∧
        formula.specialize others =
          .error (.parameterKind refused.name refused.kind value.kind)
    | none => ∃ special, formula.specialize others = .ok special ∧
        special.parameters = formula.parameters.filter others.leaves ∧
        ∀ bindings, special.evaluate bindings =
          formula.evaluate (bindings.overriddenBy others) := by
  have hparameters := Specialization.ofParameters_eq others formula.parameters
  cases hfind : formula.parameters.find? others.refuses with
  | some refused =>
      rw [hfind] at hparameters
      obtain ⟨value, hget, herror⟩ := hparameters
      refine ⟨value, hget, ?_⟩
      unfold specialize
      rw [herror]
      rfl
  | none =>
      rw [hfind] at hparameters
      obtain ⟨specialization, hspecialization⟩ := hparameters
      obtain ⟨special, hspecial⟩ : ∃ special, formula.specialize others = .ok special := by
        unfold specialize
        rw [hspecialization]
        exact ⟨_, rfl⟩
      exact ⟨special, hspecial, parameters_specialize hformula hspecial,
        evaluate_specialize hformula hspecial⟩

/-- Bindings that refuse no parameter are bound. -/
theorem exists_specialize (hformula : formula.WellFormed Operation.IsStandard)
    (haccepts : ∀ parameter ∈ formula.parameters, others.refuses parameter = false) :
    ∃ special, formula.specialize others = .ok special ∧
      special.parameters = formula.parameters.filter others.leaves ∧
      ∀ bindings, special.evaluate bindings =
        formula.evaluate (bindings.overriddenBy others) := by
  have hcases := specialize_cases hformula others
  have hnone : formula.parameters.find? others.refuses = none :=
    List.find?_eq_none.mpr fun parameter hparameter => by simp [haccepts parameter hparameter]
  rw [hnone] at hcases
  exact hcases

/-- Bindings that refuse a parameter are refused for the first such one. -/
theorem exists_refusal (hformula : formula.WellFormed Operation.IsStandard)
    (hrefuses : ¬ ∀ parameter ∈ formula.parameters, others.refuses parameter = false) :
    ∃ fault, others.Refusal formula.parameters fault ∧
      formula.specialize others = .error fault := by
  have hcases := specialize_cases hformula others
  cases hfind : formula.parameters.find? others.refuses with
  | none =>
      refine absurd (fun parameter hparameter => ?_) hrefuses
      simpa using List.find?_eq_none.mp hfind parameter hparameter
  | some refused =>
      rw [hfind] at hcases
      obtain ⟨value, hvalue, herror⟩ := hcases
      exact ⟨_, .first hfind hvalue, herror⟩

/-- Groups that refuse no parameter together leave, one after another, what they leave together. -/
theorem foldlM_specialize (hformula : formula.WellFormed Operation.IsStandard)
    {groups : List Bindings}
    (haccepts : ∀ parameter ∈ formula.parameters,
      (Bindings.merge groups).refuses parameter = false) :
    ∃ special, groups.foldlM specialize formula = .ok special ∧
      special.parameters = formula.parameters.filter (Bindings.merge groups).leaves ∧
      ∀ bindings, special.evaluate bindings =
        formula.evaluate (bindings.overriddenBy (Bindings.merge groups)) := by
  -- The formula that the first group leaves is well-formed again, so the others are bound in it.
  induction groups generalizing formula with
  | nil =>
      refine ⟨formula, rfl, (Bindings.filter_merge_nil _).symm, fun bindings => ?_⟩
      refine evaluate_congr formula fun name => ?_
      rw [Bindings.get_overriddenBy]
      rfl
  | cons group groups ih =>
      obtain ⟨hgroup, hgroups⟩ := Bindings.forall_refuses_overriddenBy.mp haccepts
      obtain ⟨next, hnext, hparameters, hevaluate⟩ := exists_specialize hformula hgroup
      rw [← hparameters] at hgroups
      obtain ⟨special, hspecial, hremaining, hagrees⟩ :=
        ih (wellFormed_specialize hformula hnext) hgroups
      refine ⟨special, ?_, ?_, fun bindings => ?_⟩
      · rw [List.foldlM_cons, hnext]
        exact hspecial
      · rw [hremaining, hparameters]
        exact (Bindings.filter_overriddenBy _ _ _).symm
      · rw [hagrees, hevaluate]
        exact evaluate_congr formula (Bindings.get_overriddenBy_assoc _ _ _)

/-- Groups that refuse a parameter together are, one after another, refused for the first one in the
first group that refuses one of those that the groups before it leave. -/
theorem foldlM_refusal (hformula : formula.WellFormed Operation.IsStandard)
    {groups : List Bindings}
    (hrefuses : ¬ ∀ parameter ∈ formula.parameters,
      (Bindings.merge groups).refuses parameter = false) :
    ∃ before group after fault, groups = before ++ group :: after ∧
      (∀ parameter ∈ formula.parameters, (Bindings.merge before).refuses parameter = false) ∧
      group.Refusal (formula.parameters.filter (Bindings.merge before).leaves) fault ∧
      groups.foldlM specialize formula = .error fault := by
  induction groups generalizing formula with
  | nil => exact absurd (fun _ _ => rfl) hrefuses
  | cons group groups ih =>
      by_cases hgroup : ∀ parameter ∈ formula.parameters, group.refuses parameter = false
      · obtain ⟨next, hnext, hparameters, -⟩ := exists_specialize hformula hgroup
        have hothers : ¬ ∀ parameter ∈ next.parameters,
            (Bindings.merge groups).refuses parameter = false := by
          rw [hparameters]
          exact fun h => hrefuses (Bindings.forall_refuses_overriddenBy.mpr ⟨hgroup, h⟩)
        obtain ⟨before, failing, after, fault, rfl, haccepts, hfault, herror⟩ :=
          ih (wellFormed_specialize hformula hnext) hothers
        rw [hparameters] at haccepts hfault
        refine ⟨group :: before, failing, after, fault, rfl,
          Bindings.forall_refuses_overriddenBy.mpr ⟨hgroup, haccepts⟩, ?_, ?_⟩
        · rw [← Bindings.filter_overriddenBy] at hfault
          exact hfault
        · rw [List.foldlM_cons, hnext]
          exact herror
      · obtain ⟨fault, hfault, herror⟩ := exists_refusal hformula hgroup
        refine ⟨[], group, groups, fault, rfl, fun _ _ => rfl, ?_, ?_⟩
        · rw [Bindings.filter_merge_nil]
          exact hfault
        · rw [List.foldlM_cons, herror]
          rfl

/-- Specialization agrees with evaluation, for every formula that compilation with the functions of
the language and any specializations lead to. Binding parameters fails exactly when one of the
values cannot take the kind of its parameter, with the error of the first such parameter; otherwise
the others remain in their order, and later bindings lead to the outcome that all bindings together
have. Binding them in groups, one group after another, fails when binding all at once does, and
otherwise leaves the same parameters and the same outcomes. The two errors may differ: all at once,
it is that of the first parameter with a refused value; in groups, that of the first such parameter
in the first group that has one. -/
theorem specialize_agrees {compiler : Compiler} (hregistry : compiler.registry.IsStandard)
    {formula : Formula} (hformula : formula.Reachable compiler) :
    (∀ others : Bindings, match formula.parameters.find? others.refuses with
      | some refused => ∃ value, others.get? refused.name = some value ∧
          formula.specialize others =
            .error (.parameterKind refused.name refused.kind value.kind)
      | none => ∃ special, formula.specialize others = .ok special ∧
          special.parameters = formula.parameters.filter others.leaves ∧
          ∀ bindings, special.evaluate bindings =
            formula.evaluate (bindings.overriddenBy others)) ∧
    ∀ groups : List Bindings, match formula.specialize (Bindings.merge groups) with
      | .error fault => (Bindings.merge groups).Refusal formula.parameters fault ∧
          ∃ before group after first, groups = before ++ group :: after ∧
            (∀ parameter ∈ formula.parameters,
              (Bindings.merge before).refuses parameter = false) ∧
            group.Refusal (formula.parameters.filter (Bindings.merge before).leaves) first ∧
            groups.foldlM specialize formula = .error first
      | .ok whole => ∃ special, groups.foldlM specialize formula = .ok special ∧
          special.parameters = whole.parameters ∧
          ∀ bindings, special.evaluate bindings = whole.evaluate bindings := by
  have hwellFormed : formula.WellFormed Operation.IsStandard :=
    hformula.wellFormed.mono fun _ h => h.isStandard hregistry
  refine ⟨specialize_cases hwellFormed, fun groups => ?_⟩
  by_cases haccepts : ∀ parameter ∈ formula.parameters,
      (Bindings.merge groups).refuses parameter = false
  · obtain ⟨whole, hwhole, hparameters, hevaluate⟩ := exists_specialize hwellFormed haccepts
    obtain ⟨special, hspecial, hremaining, hagrees⟩ := foldlM_specialize hwellFormed haccepts
    rw [hwhole]
    exact ⟨special, hspecial, hremaining.trans hparameters.symm, fun bindings =>
      (hagrees bindings).trans (hevaluate bindings).symm⟩
  · obtain ⟨fault, hfault, herror⟩ := exists_refusal hwellFormed haccepts
    rw [herror]
    exact ⟨hfault, foldlM_refusal hwellFormed haccepts⟩

/-- Groups and all at once need not fail alike. Neither parameter of `x + y` takes a truth value. If
`y` is bound first and `x` second, `y` is reported; if both are bound at once, `x` is. -/
theorem specialize_order_differs :
    let groups : List Bindings := [⟨[("y", .boolean true)]⟩, ⟨[("x", .boolean true)]⟩]
    ∃ formula : Formula, formula.Reachable ⟨Grammar.standard, Registry.standard⟩ ∧
      groups.foldlM specialize formula = .error (.parameterKind "y" .number .boolean) ∧
      formula.specialize (Bindings.merge groups) =
        .error (.parameterKind "x" .number .boolean) := by
  intro groups
  have hcompile : ((Compiler.compile ⟨Grammar.standard, Registry.standard⟩ "x + y").toOption.map
      (·.parameters)) = some [⟨"x", .number⟩, ⟨"y", .number⟩] := by decide +kernel
  obtain ⟨formula, hreachable, hparameters⟩ := exists_reachable hcompile
  have hwellFormed : formula.WellFormed Operation.IsStandard :=
    hreachable.wellFormed.mono fun _ h => h.isStandard Registry.isStandard_standard
  have hspecialize := specialize_cases hwellFormed
  rw [hparameters] at hspecialize
  refine ⟨formula, hreachable, ?_, ?_⟩
  · obtain ⟨value, hvalue, herror⟩ := hspecialize ⟨[("y", .boolean true)]⟩
    cases hvalue
    rw [List.foldlM_cons, herror]
    rfl
  · obtain ⟨value, hvalue, herror⟩ := hspecialize (Bindings.merge groups)
    cases hvalue
    exact herror

/-- The sum of two parameters, one of which is bound: a truth value is refused, and an integer
leaves the other parameter. -/
theorem specialize_sum :
    ∃ formula : Formula, formula.Reachable ⟨Grammar.standard, Registry.standard⟩ ∧
      (∃ value, formula.specialize ⟨[("y", .boolean true)]⟩ =
        .error (.parameterKind "y" .number value)) ∧
      ∃ special, formula.specialize ⟨[("x", .integer 2)]⟩ = .ok special ∧
        special.parameters = [⟨"y", .number⟩] ∧
        ∀ bindings, special.evaluate bindings =
          formula.evaluate (bindings.overriddenBy ⟨[("x", .integer 2)]⟩) := by
  have hcompile : ((Compiler.compile ⟨Grammar.standard, Registry.standard⟩ "x + y").toOption.map
      (·.parameters)) = some [⟨"x", .number⟩, ⟨"y", .number⟩] := by decide +kernel
  obtain ⟨formula, hreachable, hparameters⟩ := exists_reachable hcompile
  obtain ⟨hagrees, -⟩ := specialize_agrees Registry.isStandard_standard hreachable
  rw [hparameters] at hagrees
  refine ⟨formula, hreachable, ?_, ?_⟩
  · obtain ⟨value, -, herror⟩ := hagrees ⟨[("y", .boolean true)]⟩
    exact ⟨value.kind, herror⟩
  · exact hagrees ⟨[("x", .integer 2)]⟩

end Formula

end Reckon
