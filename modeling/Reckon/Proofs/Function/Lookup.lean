import Mathlib.Data.List.Induction
import Mathlib.Data.List.Nodup
import Mathlib.Data.String.Basic
import Reckon.Proofs.Function.Building

/-!
# What a registry finds

A registry is built by registering functions one after another. `Registry.records_register` says
what it finds afterwards: under each name and number of arguments the function that was registered
last, and from that the names, the numbers of arguments of a name, and the call that a name and a
number of arguments are resolved to.
-/

namespace Reckon

/-- The list without repetitions has none. -/
theorem nodup_eraseDups {α : Type} [BEq α] [LawfulBEq α] (l : List α) : l.eraseDups.Nodup := by
  induction hlength : l.length using Nat.strongRecOn generalizing l with
  | ind length ih =>
      cases l with
      | nil => exact .nil
      | cons a rest =>
          have hle := List.length_filter_le (fun b => !b == a) rest
          rw [List.eraseDups_cons, List.nodup_cons, List.mem_eraseDups]
          refine ⟨by simp, ih _ ?_ _ rfl⟩
          rw [← hlength, List.length_cons]
          omega

/-- Distinct entries in ascending order are in strictly ascending order. -/
theorem pairwise_sorted {α : Type} [LinearOrder α] [BEq α] [LawfulBEq α] {le : α → α → Bool}
    (hle : ∀ a b, le a b = true ↔ a ≤ b) (l : List α) :
    (l.eraseDups.mergeSort le).Pairwise (· < ·) := by
  have hnodup : (l.eraseDups.mergeSort le).Nodup :=
    (List.mergeSort_perm _ _).nodup_iff.mpr (nodup_eraseDups l)
  have hsorted : (l.eraseDups.mergeSort le).Pairwise (le · · = true) := by
    refine List.pairwise_mergeSort ?_ ?_ _
    · intro a b c hab hbc
      exact (hle a c).mpr (((hle a b).mp hab).trans ((hle b c).mp hbc))
    · intro a b
      rw [Bool.or_eq_true, hle, hle]
      exact le_total a b
  exact (hsorted.and hnodup).imp fun h => lt_of_le_of_ne ((hle _ _).mp h.1) h.2

/-- The function can be called by a name with a number of arguments. -/
def Callable.Answers (function : Callable) (name : String) (arity : Nat) : Prop :=
  name ∈ function.names ∧ function.arity = arity

instance (function : Callable) (name : String) (arity : Nat) :
    Decidable (function.Answers name arity) :=
  inferInstanceAs (Decidable (_ ∧ _))

namespace Registry

variable {registry : Registry} {name : String} {arity count : Nat} {function : Callable}

/-- A function that is registered is found under its names and its number of arguments; whatever
else is asked for is found as before. -/
theorem get_register :
    (registry.register function).get? name arity =
      if function.Answers name arity then some function else registry.get? name arity := by
  rw [get?, register, List.find?_append, List.find?_map]
  cases hfind : function.names.find?
      ((fun entry : String × Callable => entry.1 == name && entry.2.arity == arity) ∘
        (·, function)) with
  | none =>
      have hnot : ¬function.Answers name arity := by
        rintro ⟨hname, harity⟩
        have hmiss := List.find?_eq_none.mp hfind name hname
        simp [harity] at hmiss
      rw [if_neg hnot]
      rfl
  | some found =>
      have hfound := List.find?_some hfind
      simp only [Function.comp, Bool.and_eq_true, beq_iff_eq] at hfound
      obtain ⟨rfl, harity⟩ := hfound
      rw [if_pos ⟨List.mem_of_find?_eq_some hfind, harity⟩]
      rfl

/-- What is found after functions were registered is the last one that can be called so. -/
theorem get_eq_find (functions : List Callable) :
    (functions.foldl register empty).get? name arity =
      functions.reverse.find? fun function => decide (function.Answers name arity) := by
  induction functions using List.reverseRecOn with
  | nil => rfl
  | append_singleton functions last ih =>
      rw [List.foldl_append, List.foldl_cons, List.foldl_nil, get_register, ih,
        List.reverse_append, List.reverse_singleton, List.singleton_append, List.find?_cons]
      by_cases h : last.Answers name arity
      · rw [if_pos h, decide_eq_true h]
      · rw [if_neg h, decide_eq_false h]

/-- Something is found if and only if a function of this name and number of arguments is listed. -/
theorem exists_get :
    (∃ function, registry.get? name arity = some function) ↔
      ∃ function, (name, function) ∈ registry.entries ∧ function.arity = arity := by
  rw [← Option.isSome_iff_exists, get?, Option.isSome_map, List.find?_isSome]
  constructor
  · rintro ⟨⟨key, function⟩, hmem, hfits⟩
    rw [Bool.and_eq_true, beq_iff_eq, beq_iff_eq] at hfits
    obtain ⟨rfl, harity⟩ := hfits
    exact ⟨function, hmem, harity⟩
  · rintro ⟨function, hmem, rfl⟩
    exact ⟨(name, function), hmem, by simp⟩

/-- A name is registered with the numbers of arguments under which something is found. -/
theorem mem_arities :
    arity ∈ registry.arities name ↔ ∃ function, registry.get? name arity = some function := by
  rw [exists_get, arities, List.mem_mergeSort, List.mem_eraseDups, List.mem_map]
  constructor
  · rintro ⟨⟨key, function⟩, hmem, harity⟩
    obtain ⟨hlisted, hname⟩ := List.mem_filter.mp hmem
    obtain rfl := beq_iff_eq.mp hname
    exact ⟨function, hlisted, harity⟩
  · rintro ⟨function, hmem, harity⟩
    exact ⟨(name, function), List.mem_filter.mpr ⟨hmem, beq_self_eq_true name⟩, harity⟩

/-- A name is known if and only if some function is listed under it. -/
theorem contains_iff_mem :
    registry.contains name = true ↔ ∃ function, (name, function) ∈ registry.entries := by
  rw [contains, List.any_eq_true]
  constructor
  · rintro ⟨⟨key, function⟩, hmem, hname⟩
    obtain rfl := beq_iff_eq.mp hname
    exact ⟨function, hmem⟩
  · rintro ⟨function, hmem⟩
    exact ⟨(name, function), hmem, beq_self_eq_true name⟩

/-- A name is known if and only if it is registered with some number of arguments. -/
theorem contains_iff : registry.contains name = true ↔ registry.arities name ≠ [] := by
  rw [contains_iff_mem]
  constructor
  · rintro ⟨function, hmem⟩
    exact List.ne_nil_of_mem (mem_arities.mpr (exists_get.mpr ⟨function, hmem, rfl⟩))
  · intro hne
    obtain ⟨arity, harity⟩ := List.exists_mem_of_ne_nil _ hne
    obtain ⟨function, hmem, -⟩ := exists_get.mp (mem_arities.mp harity)
    exact ⟨function, hmem⟩

theorem mem_names : name ∈ registry.names ↔ registry.contains name = true := by
  rw [contains_iff_mem, names, List.mem_mergeSort, List.mem_eraseDups, List.mem_map]
  constructor
  · rintro ⟨⟨key, function⟩, hmem, rfl⟩
    exact ⟨function, hmem⟩
  · rintro ⟨function, hmem⟩
    exact ⟨(name, function), hmem, rfl⟩

/-- A variadic function of a name takes fewer arguments than there are, but two at least. -/
def Folds (registry : Registry) (name : String) (count : Nat) (function : Callable) : Prop :=
  registry.get? name function.arity = some function ∧ function.variadic = true ∧
    2 ≤ function.arity ∧ function.arity < count

/-- Where some function folds the arguments, one is chosen. -/
theorem exists_variadic (h : registry.Folds name count function) :
    ∃ chosen, registry.variadic? name count = some chosen := by
  rw [← Option.isSome_iff_exists, variadic?, List.findSome?_isSome_iff]
  refine ⟨function.arity, mem_arities.mpr ⟨function, h.1⟩, ?_⟩
  rw [if_pos h.2.2, h.1, Option.filter_some, if_pos h.2.1]
  rfl

/-- A call is resolved if some function takes its arguments exactly or folds them. -/
theorem exists_resolve
    (h : registry.get? name count = some function ∨ registry.Folds name count function) :
    ∃ call, registry.resolve name count = .ok call := by
  unfold resolve
  split
  · exact ⟨_, rfl⟩
  · next hnone =>
      split
      · exact ⟨_, rfl⟩
      · next hmiss =>
          rcases h with hexact | hfolds
          · cases hexact.symm.trans hnone
          · obtain ⟨chosen, hchosen⟩ := exists_variadic hfolds
            cases hchosen.symm.trans hmiss

/-- A call is resolved to a function that takes its arguments exactly, and only if there is none to
one that folds them. -/
theorem function_of_resolve {call : ResolvedCall} (h : registry.resolve name count = .ok call) :
    registry.get? name count = some call.function ∨
      registry.get? name count = none ∧ registry.Folds name count call.function := by
  unfold resolve at h
  split at h
  · next found hfound =>
      cases h
      exact .inl hfound
  · next hnone =>
      split at h
      · next chosen hchosen =>
          cases h
          exact .inr ⟨hnone, get_of_variadic hchosen⟩
      · split at h <;> cases h

/-- A call that is refused is told the numbers of arguments that its name takes if the name is
known, and otherwise that it is not. -/
theorem fault_of_resolve {fault : CompileError} (h : registry.resolve name count = .error fault) :
    fault = if registry.contains name then .wrongArity name (registry.arities name) count
      else .unknownSymbol name count := by
  unfold resolve at h
  split at h
  · cases h
  · split at h
    · cases h
    · split at h
      all_goals
        cases h
        symm
      · next hknown => exact if_pos hknown
      · next hunknown => exact if_neg hunknown

/-- What a registry finds after functions were registered in it one after another. -/
structure Records (registry : Registry) (functions : List Callable) : Prop where
  /-- The last function that can be called so is found. -/
  get : ∀ name arity function, registry.get? name arity = some function ↔
    ∃ before after, functions = before ++ function :: after ∧ function.Answers name arity ∧
      ∀ later ∈ after, ¬later.Answers name arity
  arities_sorted : ∀ name, (registry.arities name).Pairwise (· < ·)
  mem_arities : ∀ name arity, arity ∈ registry.arities name ↔
    ∃ function, registry.get? name arity = some function
  contains : ∀ name, registry.contains name = true ↔ registry.arities name ≠ []
  names_sorted : registry.names.Pairwise (· < ·)
  mem_names : ∀ name, name ∈ registry.names ↔ registry.contains name = true
  /-- A call is resolved if some function takes its arguments exactly or folds them. -/
  resolves : ∀ name count, (∃ call, registry.resolve name count = .ok call) ↔
    (∃ function, registry.get? name count = some function) ∨
      ∃ function, registry.Folds name count function
  /-- A function that takes the arguments exactly wins over those that fold them. -/
  resolved : ∀ name count call, registry.resolve name count = .ok call → call.count = count ∧
    (registry.get? name count = some call.function ∨
      registry.get? name count = none ∧ registry.Folds name count call.function)
  refused : ∀ name count fault, registry.resolve name count = .error fault →
    fault = if registry.contains name then .wrongArity name (registry.arities name) count
      else .unknownSymbol name count

/-- A registry in which functions were registered one after another finds the last of them that can
be called by a name with a number of arguments. The numbers of arguments of a name, the known names
and the resolution of calls follow from what it finds. -/
theorem records_register (functions : List Callable) :
    (functions.foldl register empty).Records functions where
  get name arity function := by
    rw [get_eq_find, List.find?_eq_some_iff_append, decide_eq_true_iff]
    constructor
    · rintro ⟨hanswers, after, before, hsplit, hlater⟩
      refine ⟨before.reverse, after.reverse, ?_, hanswers, ?_⟩
      · rw [← List.reverse_reverse functions, hsplit]
        simp
      · intro later hmem hlast
        simpa [hlast] using hlater later (List.mem_reverse.mp hmem)
    · rintro ⟨before, after, rfl, hanswers, hlater⟩
      refine ⟨hanswers, after.reverse, before.reverse, by simp, ?_⟩
      intro later hmem
      simpa using hlater later (List.mem_reverse.mp hmem)
  arities_sorted name := pairwise_sorted (fun _ _ => decide_eq_true_iff) _
  mem_arities _ _ := mem_arities
  contains _ := contains_iff
  names_sorted := pairwise_sorted (fun _ _ => decide_eq_true_iff) _
  mem_names _ := mem_names
  resolves name count := by
    constructor
    · rintro ⟨call, hcall⟩
      exact (function_of_resolve hcall).imp (⟨_, ·⟩) (⟨_, ·.2⟩)
    · rintro (⟨function, hexact⟩ | ⟨function, hfolds⟩)
      · exact exists_resolve (.inl hexact)
      · exact exists_resolve (.inr hfolds)
  resolved _ _ _ h := ⟨count_of_resolve h, function_of_resolve h⟩
  refused _ _ _ := fault_of_resolve

end Registry

end Reckon
