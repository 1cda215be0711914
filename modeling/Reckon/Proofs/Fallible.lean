import Mathlib.Data.List.Forall2
import Mathlib.Data.List.Nodup

/-!
# Steps that may fail

What a composition of steps says about them once it has succeeded, what a list of such steps says
about its members, and what is found in a list by a distinct key or after the list has grown.
-/

namespace Reckon

open List (Forall₂)

variable {α β ε : Type}

/-- A composition that succeeds ran its first step, and then its second one. -/
theorem bind_eq_ok {first : Except ε α} {next : α → Except ε β} {b : β} :
    first >>= next = .ok b ↔ ∃ a, first = .ok a ∧ next a = .ok b := by
  cases first with
  | error => exact ⟨nofun, nofun⟩
  | ok a =>
      constructor
      · exact fun h => ⟨a, rfl, h⟩
      · rintro ⟨_, h, hb⟩
        cases h
        exact hb

/-- A composition that fails did so in its first step, or in its second one. -/
theorem bind_eq_error {first : Except ε α} {next : α → Except ε β} {e : ε} :
    first >>= next = .error e ↔
      first = .error e ∨ ∃ a, first = .ok a ∧ next a = .error e := by
  cases first with
  | error fault =>
      constructor
      · intro h
        cases h
        exact .inl rfl
      · rintro (h | ⟨_, h, -⟩)
        · cases h
          rfl
        · cases h
  | ok a =>
      constructor
      · exact fun h => .inr ⟨a, rfl, h⟩
      · rintro (h | ⟨_, h, he⟩)
        · cases h
        · cases h
          exact he

/-- A composition of stateful steps that fails did so in its first step, or in its second one. -/
theorem bindState_eq_error {σ : Type} {first : StateT σ (Except ε) α}
    {next : α → StateT σ (Except ε) β} {state : σ} {e : ε} :
    (first >>= next) state = .error e ↔
      first state = .error e ∨ ∃ a middle, first state = .ok (a, middle) ∧
        next a middle = .error e := by
  refine bind_eq_error.trans (or_congr_right ?_)
  constructor
  · rintro ⟨⟨a, middle⟩, hfirst, hnext⟩
    exact ⟨a, middle, hfirst, hnext⟩
  · rintro ⟨a, middle, hfirst, hnext⟩
    exact ⟨(a, middle), hfirst, hnext⟩

/-- A composition of stateful steps that succeeds ran its first step, and then its second one. -/
theorem bindState_eq_ok {σ : Type} {first : StateT σ (Except ε) α}
    {next : α → StateT σ (Except ε) β} {state : σ} {result : β × σ} :
    (first >>= next) state = .ok result ↔
      ∃ a middle, first state = .ok (a, middle) ∧ next a middle = .ok result := by
  refine bind_eq_ok.trans ?_
  constructor
  · rintro ⟨⟨a, middle⟩, hfirst, hnext⟩
    exact ⟨a, middle, hfirst, hnext⟩
  · rintro ⟨a, middle, hfirst, hnext⟩
    exact ⟨(a, middle), hfirst, hnext⟩

/-- A step that leaves the state alone fails as it does without one. -/
theorem liftState_eq_error {σ : Type} {step : Except ε α} {state : σ} {e : ε} :
    (liftM step : StateT σ (Except ε) α) state = .error e ↔ step = .error e := by
  cases step with
  | error fault =>
      constructor
      all_goals
        intro h
        cases h
        rfl
  | ok a => exact ⟨nofun, nofun⟩

/-- A step that leaves the state alone succeeds as it does without one. -/
theorem liftState_eq_ok {σ : Type} {step : Except ε α} {state : σ} {result : α × σ} :
    (liftM step : StateT σ (Except ε) α) state = .ok result ↔
      step = .ok result.1 ∧ result.2 = state := by
  cases step with
  | error fault => exact ⟨nofun, fun h => nomatch h.1⟩
  | ok a =>
      constructor
      · intro h
        cases h
        exact ⟨rfl, rfl⟩
      · rintro ⟨h, hstate⟩
        cases h
        rw [← hstate]
        rfl

/-- A result that is changed afterwards is there exactly if it was there before. -/
theorem map_eq_ok {first : Except ε α} {change : α → β} {b : β} :
    first.map change = .ok b ↔ ∃ a, first = .ok a ∧ change a = b := by
  cases first with
  | error => exact ⟨nofun, nofun⟩
  | ok a => simp [Except.map]

/-- A result that is changed afterwards is missing exactly if it was missing before. -/
theorem map_eq_error {first : Except ε α} {change : α → β} {e : ε} :
    first.map change = .error e ↔ first = .error e := by
  cases first with
  | error => simp [Except.map]
  | ok a => exact ⟨nofun, nofun⟩

/-- What is left of a result when its error is forgotten is its value. -/
theorem toOption_eq_some {result : Except ε α} {a : α} :
    result.toOption = some a ↔ result = .ok a := by
  cases result with
  | error => exact ⟨nofun, nofun⟩
  | ok => simp [Except.toOption]

/-- A list that is gone through without a fault has no member with a fault. -/
theorem forall_of_forM {step : α → Except ε Unit} {as : List α}
    (h : as.forM step = .ok ()) : ∀ a ∈ as, step a = .ok () := by
  induction as with
  | nil => exact nofun
  | cons a as ih =>
      obtain ⟨⟨⟩, hfirst, hrest⟩ := bind_eq_ok.mp h
      exact List.forall_mem_cons.mpr ⟨hfirst, ih hrest⟩

/-- If a step has results for all members of a list, then each member has its own. -/
theorem forall₂_of_mapM {step : α → Option β} {as : List α} {bs : List β}
    (h : as.mapM step = some bs) : Forall₂ (fun a b => step a = some b) as bs := by
  induction as generalizing bs with
  | nil =>
      cases h
      exact .nil
  | cons a as ih =>
      simp only [List.mapM_cons, Option.bind_eq_bind, Option.bind_eq_some_iff] at h
      obtain ⟨b, hb, rest, hrest, hbs⟩ := h
      cases hbs
      exact .cons hb (ih hrest)

/-- If a step succeeds for all members of a list, then the result at a place is that of the member
there. -/
theorem getElem_of_mapM {step : α → Except ε β} {as : List α} {bs : List β}
    (h : as.mapM step = .ok bs) {i : Nat} {a : α} (ha : as[i]? = some a) :
    ∃ b, bs[i]? = some b ∧ step a = .ok b := by
  induction as generalizing bs i with
  | nil => cases ha
  | cons first rest ih =>
      rw [List.mapM_cons] at h
      obtain ⟨b, hb, h⟩ := bind_eq_ok.mp h
      obtain ⟨others, hothers, h⟩ := bind_eq_ok.mp h
      cases h
      cases i with
      | zero =>
          cases ha
          exact ⟨b, rfl, hb⟩
      | succ i => exact ih hothers ha

theorem mapM_congr {step other : α → Except ε β} {as : List α}
    (h : ∀ a ∈ as, step a = other a) : as.mapM step = as.mapM other := by
  induction as with
  | nil => rfl
  | cons a as ih =>
      rw [List.forall_mem_cons] at h
      rw [List.mapM_cons, List.mapM_cons, h.1, ih h.2]

/-- If a step succeeds for each member of a list, then the results are those of the members. -/
theorem exists_mapM {step : α → Except ε β} {as : List α}
    (h : ∀ a ∈ as, ∃ b, step a = .ok b) :
    ∃ bs, as.mapM step = .ok bs ∧ ∀ b, b ∈ bs ↔ ∃ a ∈ as, step a = .ok b := by
  induction as with
  | nil => exact ⟨[], rfl, fun b => by simp⟩
  | cons a as ih =>
      rw [List.forall_mem_cons] at h
      obtain ⟨b, hb⟩ := h.1
      obtain ⟨bs, hbs, hmem⟩ := ih h.2
      refine ⟨b :: bs, ?_, fun c => ?_⟩
      · rw [List.mapM_cons, hb, hbs]
        rfl
      · simp [hb, hmem, eq_comm]

/-- If a step fails for a list, then it fails for one of its members. -/
theorem exists_of_mapM {step : α → Except ε β} {as : List α} {e : ε}
    (h : as.mapM step = .error e) : ∃ a ∈ as, step a = .error e := by
  induction as with
  | nil => cases h
  | cons first rest ih =>
      rw [List.mapM_cons] at h
      rcases bind_eq_error.mp h with hfirst | ⟨b, -, h⟩
      · exact ⟨first, .head _, hfirst⟩
      · rcases bind_eq_error.mp h with hrest | ⟨others, -, h⟩
        · obtain ⟨a, ha, hfault⟩ := ih hrest
          exact ⟨a, .tail _ ha, hfault⟩
        · cases h

/-- What follows for the members of the first list follows for the lists. -/
theorem forall₂_imp_of_mem {R S : α → β → Prop} {as : List α} {bs : List β}
    (h : Forall₂ R as bs) (himp : ∀ a ∈ as, ∀ b, R a b → S a b) : Forall₂ S as bs := by
  obtain ⟨hlength, hzip⟩ := List.forall₂_iff_zip.mp h
  refine List.forall₂_iff_zip.mpr ⟨hlength, fun hmem => ?_⟩
  exact himp _ (List.of_mem_zip hmem).1 _ (hzip hmem)

/-- What the step guarantees for each result holds of all results. -/
theorem forall_of_mapM {step : α → Option β} {P : β → Prop} (hstep : ∀ a b, step a = some b → P b)
    {as : List α} {bs : List β} (h : as.mapM step = some bs) : ∀ b ∈ bs, P b := by
  have hresults := forall₂_of_mapM h
  clear h
  induction hresults with
  | nil => exact nofun
  | cons hb _ ih => exact List.forall_mem_cons.mpr ⟨hstep _ _ hb, ih⟩

/-- Each element of related lists is related to some element of the other. -/
theorem exists_of_forall₂ {R : α → β → Prop} {as : List α} {bs : List β} (h : Forall₂ R as bs)
    {a : α} (ha : a ∈ as) : ∃ b, R a b := by
  induction h with
  | nil => cases ha
  | cons hfirst hrest ih =>
      rcases List.mem_cons.mp ha with rfl | ha
      · exact ⟨_, hfirst⟩
      · exact ih ha

/-- Where keys are distinct, a member of a list is found by its key. -/
theorem find_of_distinct {κ : Type} [BEq κ] [LawfulBEq κ] {key : α → κ} {as : List α}
    (h : (as.map key).Nodup) {a : α} (ha : a ∈ as) :
    as.find? (fun other => key other == key a) = some a := by
  cases hfind : as.find? fun other => key other == key a with
  | none =>
      have hnone := List.find?_eq_none.mp hfind a ha
      simp at hnone
  | some other =>
      have hkey : key other = key a := by simpa using List.find?_some hfind
      rw [List.inj_on_of_nodup_map h (List.mem_of_find?_eq_some hfind) ha hkey]

theorem getElem?_concat_eq_some {as : List α} {a b : α} {i : Nat} :
    (as ++ [a])[i]? = some b ↔ as[i]? = some b ∨ i = as.length ∧ a = b := by
  grind

/-- What is found in a list is found in a list that it has grown to. -/
theorem getElem_of_isPrefix {as bs : List α} (h : as <+: bs) {i : Nat} {a : α}
    (ha : as[i]? = some a) : bs[i]? = some a := by
  obtain ⟨more, rfl⟩ := h
  rw [List.getElem?_append_left (List.getElem?_eq_some_iff.mp ha).1, ha]

/-- Results of which one is missing are not all there. -/
theorem mapM_id_of_none {items : List (Option α)} (h : none ∈ items) : items.mapM id = none := by
  induction items with
  | nil => cases h
  | cons item items ih =>
      rw [List.mapM_cons]
      cases item with
      | none => rfl
      | some item =>
          have hrest := ih ((List.mem_cons.mp h).resolve_left nofun)
          simp [hrest]

theorem mapM_id_map (bs : List β) : (bs.map some).mapM id = some bs := by
  rw [List.mapM_map]
  induction bs with
  | nil => rfl
  | cons b bs ih =>
      rw [List.mapM_cons, ih]
      rfl

theorem eq_map_of_mapM_id {items : List (Option β)} {bs : List β} (h : items.mapM id = some bs) :
    items = bs.map some := by
  have hitems := forall₂_of_mapM h
  clear h
  induction hitems with
  | nil => rfl
  | cons hfirst hrest ih => rw [List.map_cons, ← ih, ← hfirst, id]

/-- Results of which none is missing. -/
theorem exists_map_some {items : List (Option β)} (h : none ∉ items) :
    ∃ bs : List β, items = bs.map some := by
  induction items with
  | nil => exact ⟨[], rfl⟩
  | cons item items ih =>
      rw [List.mem_cons, not_or] at h
      obtain ⟨bs, rfl⟩ := ih h.2
      cases item with
      | none => exact absurd rfl h.1
      | some b => exact ⟨b :: bs, rfl⟩

/-- Results that are changed one by one are all there exactly if they all were before. -/
theorem mapM_id_map_change (change : α → β) (items : List (Option α)) :
    (items.map (Option.map change)).mapM id = (items.mapM id).map (List.map change) := by
  induction items with
  | nil => rfl
  | cons item items ih =>
      rw [List.map_cons, List.mapM_cons, List.mapM_cons, ih]
      cases item with
      | none => rfl
      | some item =>
          cases items.mapM id with
          | none => rfl
          | some items => rfl

end Reckon
