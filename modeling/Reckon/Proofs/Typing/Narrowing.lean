import Mathlib.Algebra.Order.Ring.Nat
import Reckon.Proofs.Signature.Resolution
import Reckon.Proofs.Typing.Elaboration

/-!
# What inference learns

A demand on a parameter narrows its state, and each state can be narrowed at most twice. So whatever
a walk learns is paid for by what is still open (`Inferring.Learns`).
-/

namespace Reckon

namespace Parameters

variable {parameters learned : Parameters} {name : String}

theorem slot_eq (parameters : Parameters) (name : String) :
    parameters.slot? name = parameters.names.findIdx? (· == name) := by
  rw [names, List.findIdx?_map]
  rfl

theorem exists_slot (h : name ∈ parameters.names) :
    ∃ slot, parameters.slot? name = some slot := by
  cases hslot : parameters.slot? name with
  | some slot => exact ⟨slot, rfl⟩
  | none => exact absurd h (not_mem_of_slot hslot)

theorem entry_of_slot {slot : Nat} (h : parameters.slot? name = some slot) :
    parameters.entries[slot]? = some (name, parameters.kind? name) := by
  have hname := names_of_slot h
  rw [names, List.getElem?_map, Option.map_eq_some_iff] at hname
  obtain ⟨⟨found, state⟩, hentry, rfl⟩ := hname
  simp [kind?, get?, atSlot?, h, hentry]

/-- Another state is the state of the parameter in whose slot it is put, and of no other one. -/
theorem kind_setState {slot : Nat} (h : parameters.slot? name = some slot) (state : Option Kind)
    (other : String) :
    (parameters.setState slot name state).kind? other =
      if other = name then state else parameters.kind? other := by
  have hnames := names_setState h state
  unfold setState at hnames ⊢
  split
  · next hsame =>
      by_cases hother : other = name
      · rw [if_pos hother, hother]
        exact hsame
      · rw [if_neg hother]
  · next hsame =>
      rw [if_neg hsame] at hnames
      obtain ⟨hlt, -⟩ := List.getElem?_eq_some_iff.mp (entry_of_slot h)
      have hslot : slot? ⟨parameters.entries.set slot (name, state), parameters.changes + 1⟩ other =
          parameters.slot? other := by
        rw [slot_eq, hnames, ← slot_eq]
      simp only [kind?, get?, hslot]
      by_cases hother : other = name
      · subst hother
        simp [h, atSlot?, hlt]
      · rw [if_neg hother]
        cases hfound : parameters.slot? other with
        | none => rfl
        | some place =>
            have hplace : slot ≠ place := by
              rintro rfl
              have hname := (names_of_slot hfound).symm.trans (names_of_slot h)
              exact hother (Option.some.inj hname)
            simp [atSlot?, List.getElem?_set_ne hplace]

/-- A demand on a parameter that is there narrows its state, or contradicts it. -/
theorem constrain_eq (h : name ∈ parameters.names) (required : Kind) :
    ∃ slot, parameters.slot? name = some slot ∧
      ∀ learned, parameters.constrain name required = .ok learned ↔
        ∃ kind, narrow? (parameters.kind? name) required = some kind ∧
          learned = parameters.setState slot name (some kind) := by
  obtain ⟨slot, hslot⟩ := exists_slot h
  refine ⟨slot, hslot, fun learned => ?_⟩
  have hmention : parameters.mention name = parameters := by
    simp [mention, hslot]
  simp only [constrain, hmention, hslot]
  cases narrow? (parameters.kind? name) required with
  | none => simp
  | some kind =>
      rw [Except.ok.injEq, eq_comm]
      simp

/-- How often a state can still be narrowed. -/
def freedom : Option Kind → Nat
  | none => 2
  | some .number => 1
  | some _ => 0

/-- How often the states of the parameters can still be narrowed. -/
def openness (parameters : Parameters) : Nat :=
  (parameters.entries.map fun entry => freedom entry.2).sum

theorem freedom_le (state : Option Kind) : freedom state ≤ 2 := by
  unfold freedom
  split <;> omega

/-- The parameters can be narrowed at most twice as often as there are parameters. -/
theorem openness_le (parameters : Parameters) : parameters.openness ≤ 2 * parameters.size := by
  unfold openness size
  induction parameters.entries with
  | nil => simp
  | cons entry entries ih =>
      have hentry := freedom_le entry.2
      simp only [List.map_cons, List.sum_cons, List.length_cons]
      omega

theorem narrow_self (kind : Kind) : narrow? (some kind) kind = some kind := by
  cases kind with
  | numeric mode => cases mode <;> rfl
  | string | boolean | byteArray => rfl

/-- A known kind is narrowed by one that it refines, and then stays, or by one that refines it. -/
theorem narrow_some {current required kind : Kind} :
    narrow? (some current) required = some kind ↔
      current.Refines required ∧ kind = current ∨ required.Refines current ∧ kind = required := by
  constructor
  · intro h
    cases current with
    | numeric mode =>
        cases required with
        | numeric other =>
            cases mode <;> cases other <;> cases h <;>
              first | exact .inl ⟨.refl _, rfl⟩ | exact .inl ⟨.number _, rfl⟩ |
                exact .inr ⟨.number _, rfl⟩
        | string | boolean | byteArray => cases h
    | string | boolean | byteArray =>
        cases required <;> cases h
        exact .inl ⟨.refl _, rfl⟩
  · rintro (⟨h, rfl⟩ | ⟨h, rfl⟩)
    · cases h with
      | refl => exact narrow_self _
      | number mode => cases mode <;> rfl
    · cases h with
      | refl => exact narrow_self _
      | number mode => rfl

/-- A demand for a kind says nothing new of a kind that refines it, and only of such a kind. -/
theorem narrow_eq_self {current required : Kind} :
    narrow? (some current) required = some current ↔ current.Refines required := by
  rw [narrow_some]
  constructor
  · rintro (⟨h, -⟩ | ⟨h, rfl⟩)
    · exact h
    · exact .refl current
  · exact fun h => .inl ⟨h, rfl⟩

/-- A state that is narrowed to another one can be narrowed less often afterwards. -/
theorem freedom_lt_of_narrow {state : Option Kind} {required kind : Kind}
    (h : narrow? state required = some kind) (hne : state ≠ some kind) :
    freedom (some kind) < freedom state := by
  cases state with
  | none =>
      cases kind with
      | numeric mode => cases mode <;> simp [freedom]
      | string | boolean | byteArray => simp [freedom]
  | some current =>
      rcases narrow_some.mp h with ⟨-, rfl⟩ | ⟨hrefines, rfl⟩
      · exact absurd rfl hne
      · cases hrefines with
        | refl => exact absurd rfl hne
        | number mode => cases mode <;> simp [freedom] at hne ⊢

/-- Another state in a slot makes up for the state before it. -/
theorem openness_set {entries : List (String × Option Kind)} {slot : Nat} {before : Option Kind}
    (h : entries[slot]? = some (name, before)) (state : Option Kind) (changes : Nat) :
    openness ⟨entries.set slot (name, state), changes⟩ + freedom before =
      openness ⟨entries, changes⟩ + freedom state := by
  simp only [openness]
  induction entries generalizing slot with
  | nil => cases h
  | cons entry entries ih =>
      cases slot with
      | zero =>
          obtain rfl : entry = (name, before) := Option.some.inj h
          simp only [List.set_cons_zero, List.map_cons, List.sum_cons]
          omega
      | succ slot =>
          have hrest := ih h
          simp only [List.set_cons_succ, List.map_cons, List.sum_cons]
          omega

/-- The second parameters know all that the first do, and what they know in addition is paid for by
what was open. -/
structure Learned (before after : Parameters) : Prop where
  names : after.names = before.names
  changes : before.changes ≤ after.changes
  eq_of_changes : after.changes = before.changes → after = before
  openness : after.changes + after.openness ≤ before.changes + before.openness

theorem Learned.refl (parameters : Parameters) : Learned parameters parameters :=
  ⟨rfl, Nat.le_refl _, fun _ => rfl, Nat.le_refl _⟩

/-- One thing may be learned after another. -/
theorem Learned.trans {before middle after : Parameters} (h : Learned before middle)
    (hafter : Learned middle after) : Learned before after where
  names := hafter.names.trans h.names
  changes := Nat.le_trans h.changes hafter.changes
  eq_of_changes := by
    intro hsame
    have hmiddle := h.changes
    have hlast := hafter.changes
    rw [hafter.eq_of_changes (by omega), h.eq_of_changes (by omega)]
  openness := Nat.le_trans hafter.openness h.openness

theorem Learned.antisymm {before middle : Parameters} (h : Learned before middle)
    (hback : Learned middle before) : middle = before :=
  h.eq_of_changes (Nat.le_antisymm hback.changes h.changes)

/-- A demand on a parameter that is there is learned. -/
theorem learned_constrain {required : Kind} (h : name ∈ parameters.names)
    (hconstrain : parameters.constrain name required = .ok learned) :
    Learned parameters learned := by
  obtain ⟨slot, hslot, hiff⟩ := constrain_eq h required
  obtain ⟨kind, hnarrow, rfl⟩ := (hiff learned).mp hconstrain
  have hnames := names_setState hslot (some kind)
  unfold setState at hnames ⊢
  split
  · exact .refl parameters
  · next hne =>
      rw [if_neg hne] at hnames
      have hset := openness_set (entry_of_slot hslot) (some kind) (parameters.changes + 1)
      have hlt := freedom_lt_of_narrow hnarrow hne
      refine ⟨hnames, by simp, by simp, ?_⟩
      show parameters.changes + 1 + openness _ ≤ parameters.changes + parameters.openness
      have hsame : openness ⟨parameters.entries, parameters.changes + 1⟩ = parameters.openness :=
        rfl
      omega

end Parameters

/-- On parameters that have these names, the computation learns. -/
def Inferring.Learns {α : Type} (names : List String) (inferring : Inferring α) : Prop :=
  ∀ parameters result, names ⊆ parameters.names → inferring parameters = .ok result →
    parameters.Learned result.2

namespace Inferring

variable {α β : Type} {names : List String}

theorem learns_pure (a : α) : Learns names (pure a) := by
  intro parameters result _ hresult
  cases hresult
  exact .refl parameters

theorem learns_throw (fault : CompileError) : Learns names (throw fault : Inferring α) :=
  nofun

/-- One thing may be learned after another. -/
theorem Learns.bind {first : Inferring α} {next : α → Inferring β} (h : Learns names first)
    (hnext : ∀ a, Learns names (next a)) : Learns names (first >>= next) := by
  intro parameters result hparameters hresult
  obtain ⟨⟨a, learned⟩, hfirst, hrest⟩ := bind_eq_ok.mp hresult
  have hlearned := h _ _ hparameters hfirst
  exact hlearned.trans (hnext a learned result (hlearned.names ▸ hparameters) hrest)

/-- Where a composition learns nothing, neither do its steps. -/
theorem settled_of_bind {first : Inferring α} {next : α → Inferring β} (h : Learns names first)
    (hnext : ∀ a, Learns names (next a)) {parameters : Parameters}
    (hparameters : names ⊆ parameters.names) {b : β}
    (hsettled : (first >>= next) parameters = .ok (b, parameters)) :
    ∃ a, first parameters = .ok (a, parameters) ∧ next a parameters = .ok (b, parameters) := by
  obtain ⟨⟨a, learned⟩, hfirst, hrest⟩ := bind_eq_ok.mp hsettled
  have hlearned := h _ _ hparameters hfirst
  have hback := hnext a learned _ (hlearned.names ▸ hparameters) hrest
  obtain rfl := hlearned.antisymm hback
  exact ⟨a, hfirst, hrest⟩

/-- Repeat a walk until one learns nothing, within a number of walks. -/
def settle (walk : Inferring α) : Nat → Parameters → Except CompileError Parameters
  | 0, parameters => .ok parameters
  | walks + 1, parameters => do
    let (_, learned) ← walk parameters
    if learned.changes = parameters.changes then
      return learned
    else
      settle walk walks learned

end Inferring

namespace Expr

variable {names : List String}

/-- The parameters of a tree are there. -/
def Advertised (tree : Expr) (parameters : Parameters) : Prop :=
  tree.parameterNames ⊆ parameters.names

theorem names_of_mem {argument : Expr} {arguments : List Expr} (h : argument ∈ arguments) :
    argument.parameterNames ⊆ parameterNamesOfAll arguments :=
  fun _ hname => mem_parameterNamesOfAll.mpr ⟨argument, h, hname⟩

end Expr

end Reckon
