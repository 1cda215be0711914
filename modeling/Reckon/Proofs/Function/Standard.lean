import Reckon.Proofs.Function.Building

/-!
# The functions of the language under their own names

A call of a function of the language by its name, with as many arguments as it takes, is resolved to
that function: no two functions share a name and a number of arguments (`resolve_standard`).
-/

namespace Reckon

namespace Registry

/-- What several registered functions add to a registry. -/
theorem mem_register {functions : List Callable} {registry : Registry} {key : String}
    {function : Callable} :
    (key, function) ∈ (functions.foldl register registry).entries ↔
      (function ∈ functions ∧ key ∈ function.names) ∨ (key, function) ∈ registry.entries := by
  induction functions generalizing registry with
  | nil => simp
  | cons first functions ih =>
      have hfirst : (key, function) ∈ (registry.register first).entries ↔
          (function = first ∧ key ∈ function.names) ∨ (key, function) ∈ registry.entries := by
        rw [register, List.mem_append, List.mem_map]
        refine or_congr_left ⟨?_, ?_⟩
        · rintro ⟨name, hname, heq⟩
          cases heq
          exact ⟨rfl, hname⟩
        · rintro ⟨rfl, hname⟩
          exact ⟨key, hname, rfl⟩
      rw [List.foldl_cons, ih, hfirst, List.mem_cons]
      tauto

theorem mem_standard {entry : String × Callable} (h : entry ∈ standard.entries) :
    entry.2 ∈ Callable.standard :=
  ((mem_register.mp h).resolve_right List.not_mem_nil).1

theorem name_mem_standard {function : Callable} (h : function ∈ Callable.standard) :
    (function.name, function) ∈ standard.entries := by
  have hnames : ∀ function ∈ Callable.standard, function.names ≠ [] := by decide
  refine mem_register.mpr (.inl ⟨h, ?_⟩)
  obtain ⟨name, aliases, heq⟩ := List.exists_cons_of_ne_nil (hnames function h)
  rw [Callable.name, heq]
  exact .head _

/-- A call of a function of the language by its name is resolved to it. -/
theorem resolve_standard {function : Callable} (h : function ∈ Callable.standard) :
    standard.resolve function.name function.arity = .ok ⟨function, function.arity, .inl rfl⟩ := by
  have hdistinct : (standard.entries.map fun entry => (entry.1, entry.2.arity)).Nodup := by
    decide
  have hlisted := name_mem_standard h
  have hget : standard.get? function.name function.arity = some function := by
    have hfind := find_of_distinct hdistinct hlisted
    rw [get?]
    exact congrArg (Option.map (·.2)) hfind
  exact resolve_of_get hget

end Registry

end Reckon
