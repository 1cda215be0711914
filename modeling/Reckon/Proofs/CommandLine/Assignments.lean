import Mathlib.Data.List.Induction
import Reckon.CommandLine.Run
import Reckon.Proofs.Formula.Manifest
import Reckon.Proofs.Formula.Specialization
import Reckon.Proofs.Text.Trimming
import Reckon.Proofs.Value.Reading

/-!
# Printed bindings read back

Values of parameters can be handed to a formula as bindings, or as texts `NAME=VALUE` on the command
line. `readBindings_assignments` says that there is no difference: where no value is a float, the
texts that print the bindings are accepted in every order, and the formula evaluates on what they
are read as in the same way as on the bindings themselves.
-/

namespace Reckon

namespace Bindings

/-- A name that is set has its new value, and every other name has the value it had. -/
theorem get_set (bindings : Bindings) (key : String) (value : Value) (name : String) :
    (bindings.set key value).get? name = if name = key then some value else bindings.get? name := by
  rw [set, get?, List.lookup_append]
  by_cases hname : name = key
  · have hgone : (bindings.entries.filter (·.1 != key)).lookup name = none := by
      rw [List.lookup_eq_none_iff]
      intro entry hentry
      rw [hname, bne_comm]
      exact (List.mem_filter.mp hentry).2
    rw [hgone, Option.none_or, if_pos hname, hname, List.lookup_cons_self]
  · have hkept : (bindings.entries.filter (·.1 != key)).lookup name = bindings.get? name := by
      refine lookup_filter ?_ bindings.entries
      exact fun _ => bne_iff_ne.mpr hname
    rw [hkept, if_neg hname, List.lookup_cons, beq_false_of_ne hname, List.lookup_nil,
      Option.or_none]

/-- The last of the pairs with a name has its value. -/
theorem get_ofList (pairs : List (String × Value)) (name : String) :
    (ofList pairs).get? name = pairs.reverse.lookup name := by
  -- The pairs are set one after another, so the induction takes the last of them off.
  induction pairs using List.reverseRecOn with
  | nil => rfl
  | append_singleton pairs pair ih =>
      obtain ⟨key, value⟩ := pair
      have hlast : ofList (pairs ++ [(key, value)]) = (ofList pairs).set key value := by
        rw [ofList, List.foldl_append]
        rfl
      rw [hlast, get_set, ih, List.reverse_append, List.reverse_singleton, List.singleton_append,
        List.lookup_cons]
      by_cases hname : name = key
      · rw [if_pos hname, beq_iff_eq.mpr hname]
      · rw [if_neg hname, beq_false_of_ne hname]

/-- A name has the value of its pairs if these agree. -/
theorem get_ofList_of_mem {pairs : List (String × Value)} {name : String} {value : Value}
    (hmem : (name, value) ∈ pairs) (hagree : ∀ other, (name, other) ∈ pairs → other = value) :
    (ofList pairs).get? name = some value := by
  rw [get_ofList]
  cases hlookup : pairs.reverse.lookup name with
  | none =>
      have hnone := List.lookup_eq_none_iff.mp hlookup _ (List.mem_reverse.mpr hmem)
      simp at hnone
  | some other =>
      obtain ⟨before, behind, hpairs, -⟩ := List.lookup_eq_some_iff.mp hlookup
      have hother : (name, other) ∈ pairs.reverse := by
        rw [hpairs]
        exact List.mem_append_right _ (.head _)
      rw [hagree other (List.mem_reverse.mp hother)]

end Bindings

namespace CommandLine

/-- The text that gives a parameter a value. -/
def assignment (name : String) (value : Value) : String :=
  name ++ "=" ++ value.display

/-- The texts that give parameters the values that they are bound to. -/
def assignments (bindings : Bindings) (parameters : List TypedParameter) : List String :=
  parameters.filterMap fun parameter =>
    (bindings.get? parameter.name).map (assignment parameter.name)

/-- The bindings have a value for the parameter that is of the class the parameter asks for, and no
float. -/
structure Prints (bindings : Bindings) (parameter : TypedParameter) (value : Value) : Prop where
  bound : bindings.get? parameter.name = some value
  exact : value.kind ≠ .float
  toClass_eq : value.kind.toClass = parameter.kind.toClass

variable {formula : Formula} {bindings : Bindings} {parameter : TypedParameter} {value : Value}

/-- The equals sign behind a name is the first one, whatever the value says. -/
theorem splitFirst_assignment {name : String} (hname : Literal.isName name.toList = true)
    (value : Value) :
    Text.splitFirst ['='] (assignment name value).toList = some (name.toList, value.write) := by
  refine Text.splitFirst_eq_some.mpr ⟨?_, fun hmem => ?_⟩
  · simp [assignment, Value.display]
  · have hword := Literal.isWordChar_of_name hname hmem
    exact absurd hword (by decide)

theorem trim_name {name : Text} (hname : Literal.isName name = true) : Text.trim name = name :=
  Text.trimWhile_of_forall fun _ hc => Literal.isBlank_of_name hname hc

/-- The text that gives a parameter a value is read as the value in the form that the parameter's
kind asks for. -/
theorem readBinding_assignment (hdistinct : (formula.parameters.map (·.name)).Nodup)
    (hparameter : parameter ∈ formula.parameters)
    (hname : Literal.isName parameter.name.toList = true) {adjusted : Value}
    (hread : Value.read? parameter.kind value.write = some adjusted) :
    readBinding formula (assignment parameter.name value) = .ok (parameter.name, adjusted) := by
  rw [readBinding, splitFirst_assignment hname]
  simp only [trim_name hname, String.ofList_toList, find_of_distinct hdistinct hparameter, hread]
  rfl

section Assignments

variable (hdistinct : (formula.parameters.map (·.name)).Nodup)
  (hnames : ∀ parameter ∈ formula.parameters, Literal.isName parameter.name.toList = true)
  (hprints : ∀ parameter ∈ formula.parameters, ∃ value, Prints bindings parameter value)

include hdistinct hnames hprints

/-- Each parameter has a text that is read as the value it has for the bindings. -/
theorem exists_assignment (hparameter : parameter ∈ formula.parameters) :
    ∃ value adjusted, bindings.get? parameter.name = some value ∧
      bindings.valueOf parameter = .ok adjusted ∧
      readBinding formula (assignment parameter.name value) = .ok (parameter.name, adjusted) := by
  obtain ⟨value, hbound, hfloat, hclass⟩ := hprints parameter hparameter
  obtain ⟨adjusted, hadjust⟩ := Value.exists_adjust hfloat hclass
  refine ⟨value, adjusted, hbound, Bindings.valueOf_eq_ok.mpr ⟨value, hbound, hadjust⟩, ?_⟩
  refine readBinding_assignment hdistinct hparameter (hnames parameter hparameter) ?_
  rw [Value.read_write hfloat hclass, hadjust]

/-- The texts that print the bindings are read as the parameters with their values. -/
theorem readBinding_assignments (name : String) (adjusted : Value) :
    (∃ text ∈ assignments bindings formula.parameters,
        readBinding formula text = .ok (name, adjusted)) ↔
      ∃ parameter ∈ formula.parameters, parameter.name = name ∧
        bindings.valueOf parameter = .ok adjusted := by
  constructor
  · rintro ⟨text, htext, hread⟩
    obtain ⟨parameter, hparameter, hassigned⟩ := List.mem_filterMap.mp htext
    obtain ⟨value, hbound, rfl⟩ := Option.map_eq_some_iff.mp hassigned
    obtain ⟨other, found, hother, hvalueOf, hfound⟩ :=
      exists_assignment hdistinct hnames hprints hparameter
    obtain rfl : other = value := Option.some.inj (hother.symm.trans hbound)
    obtain ⟨hname, rfl⟩ := Prod.mk.inj (Except.ok.inj (hfound.symm.trans hread))
    exact ⟨parameter, hparameter, hname, hvalueOf⟩
  · rintro ⟨parameter, hparameter, rfl, hvalueOf⟩
    obtain ⟨value, found, hbound, hfound, hread⟩ :=
      exists_assignment hdistinct hnames hprints hparameter
    obtain rfl : found = adjusted := Except.ok.inj (hfound.symm.trans hvalueOf)
    refine ⟨assignment parameter.name value, List.mem_filterMap.mpr ⟨parameter, hparameter, ?_⟩,
      hread⟩
    rw [hbound, Option.map_some]

/-- Every text that prints a binding is read. -/
theorem exists_readBinding {text : String} (h : text ∈ assignments bindings formula.parameters) :
    ∃ pair, readBinding formula text = .ok pair := by
  obtain ⟨parameter, hparameter, hassigned⟩ := List.mem_filterMap.mp h
  obtain ⟨value, adjusted, hbound, -, hread⟩ :=
    exists_assignment hdistinct hnames hprints hparameter
  rw [hbound, Option.map_some, Option.some.injEq] at hassigned
  rw [← hassigned]
  exact ⟨_, hread⟩

/-- The texts that print the bindings are read as bindings for which each parameter has the value
that it has for the original ones, in whatever order and however often they are given. -/
theorem readBindings_valueOf {texts : List String}
    (htexts : ∀ text, text ∈ texts ↔ text ∈ assignments bindings formula.parameters) :
    ∃ read, readBindings formula texts = .ok read ∧
      ∀ parameter ∈ formula.parameters, read.valueOf parameter = bindings.valueOf parameter := by
  obtain ⟨pairs, hpairs, hmem⟩ := exists_mapM fun text htext =>
    exists_readBinding hdistinct hnames hprints ((htexts text).mp htext)
  simp only [htexts, Prod.forall, readBinding_assignments hdistinct hnames hprints] at hmem
  refine ⟨Bindings.ofList pairs, by rw [readBindings, hpairs]; rfl, ?_⟩
  intro parameter hparameter
  obtain ⟨value, adjusted, -, hvalueOf, -⟩ :=
    exists_assignment hdistinct hnames hprints hparameter
  obtain ⟨original, -, hadjust⟩ := Bindings.valueOf_eq_ok.mp hvalueOf
  have hget : (Bindings.ofList pairs).get? parameter.name = some adjusted := by
    refine Bindings.get_ofList_of_mem ?_ fun other hother => ?_
    · exact (hmem _ _).mpr ⟨parameter, hparameter, rfl, hvalueOf⟩
    · obtain ⟨same, hsame, hname, hvalue⟩ := (hmem _ _).mp hother
      obtain rfl := List.inj_on_of_nodup_map hdistinct hsame hparameter hname
      exact Except.ok.inj (hvalue.symm.trans hvalueOf)
  rw [hvalueOf]
  exact Bindings.valueOf_eq_ok.mpr ⟨adjusted, hget, Value.adjust_adjust hadjust⟩

end Assignments

/-- Printed values read back. The text of a value that is no float, read as a value of any kind of
its class, is the value in the form that the kind asks for. So for every formula that compilation
and any specializations lead to, and bindings that give each parameter such a value of the class of
its kind, the texts `NAME=VALUE` that print the bindings are accepted in every order, and the
formula evaluates on what they are read as in the same way as on the bindings. -/
theorem readBindings_assignments :
    (∀ value kind, Value.kind value ≠ .float → value.kind.toClass = kind.toClass →
      Value.read? kind value.display.toList = value.adjust? kind) ∧
    ∀ {compiler : Compiler} {formula : Formula}, formula.Reachable compiler →
      ∀ bindings : Bindings,
        (∀ parameter ∈ formula.parameters, ∃ value, Prints bindings parameter value) →
        ∀ texts : List String, texts.Perm (assignments bindings formula.parameters) →
          ∃ read, readBindings formula texts = .ok read ∧
            formula.evaluate read = formula.evaluate bindings := by
  constructor
  · intro value kind hfloat hclass
    rw [Value.display, String.toList_ofList]
    exact Value.read_write hfloat hclass
  · intro compiler formula hformula bindings hprints texts htexts
    obtain ⟨read, hread, hvalues⟩ := readBindings_valueOf hformula.wellFormed.distinct
      hformula.isName hprints fun text => htexts.mem_iff
    exact ⟨read, hread, Formula.evaluate_of_valueOf hvalues⟩

/-- A number below zero is read as a float, and two bindings are read in the reverse order, one of
them a text with an equals sign in it. -/
theorem readBindings_assignments_reversed :
    Value.read? .float (Value.integer (-3)).display.toList = (Value.integer (-3)).adjust? .float ∧
    ∃ formula : Formula, formula.Reachable ⟨Grammar.standard, Registry.standard⟩ ∧
      formula.parameters = [⟨"s", .string⟩, ⟨"n", .number⟩] ∧
      ∃ read, readBindings formula ["n=-3", "s=n=0x"] = .ok read ∧
        formula.evaluate read =
          formula.evaluate ⟨[("s", .string "n=0x"), ("n", .integer (-3))]⟩ := by
  obtain ⟨hvalues, hformulas⟩ := readBindings_assignments
  refine ⟨hvalues (.integer (-3)) .float nofun rfl, ?_⟩
  have hcompile : ((Compiler.compile ⟨Grammar.standard, Registry.standard⟩
      "len(lower(s)) * n").toOption.map (·.parameters)) =
      some [⟨"s", .string⟩, ⟨"n", .number⟩] := by decide +kernel
  obtain ⟨formula, hreachable, hparameters⟩ := Formula.exists_reachable hcompile
  refine ⟨formula, hreachable, hparameters, ?_⟩
  refine hformulas hreachable ⟨[("s", .string "n=0x"), ("n", .integer (-3))]⟩ ?_ _ ?_
  · rw [hparameters]
    simp only [List.forall_mem_cons]
    exact ⟨⟨.string "n=0x", rfl, nofun, rfl⟩, ⟨.integer (-3), rfl, nofun, rfl⟩, nofun⟩
  · have hassignments : assignments ⟨[("s", .string "n=0x"), ("n", .integer (-3))]⟩
        [⟨"s", .string⟩, ⟨"n", .number⟩] = ["s=n=0x", "n=-3"] := by decide +kernel
    rw [hparameters, hassignments]
    exact .swap _ _ _

end CommandLine

end Reckon
