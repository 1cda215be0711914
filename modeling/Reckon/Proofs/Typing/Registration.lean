import Reckon.Proofs.Typing.Widest

/-!
# Calls on the parameters

Parameters are met by two kinds of calls: a name is mentioned, or a kind is required of it, which
mentions it first. Every call is a mention followed by a state that is no wider than the one before
(`exists_after`). So names and slots stay, states only get narrower, and the changes are counted, in
any run of calls. The order of requirements does not matter, as what they lead to is the widest
state that meets them all: `run_narrows`.
-/

namespace Reckon

namespace Parameters

/-- A call on the parameters: a name is mentioned, or a kind is required of it. -/
inductive Call where
  | mention (name : String)
  | constrain (name : String) (required : Kind)

/-- The name that a call is about. -/
def Call.name : Call → String
  | mention name => name
  | constrain name _ => name

/-- The parameters after a call. A requirement mentions its name before it is looked at, so one that
fails keeps what the mention did. -/
def after (parameters : Parameters) : Call → Parameters
  | .mention name => parameters.mention name
  | .constrain name required =>
    match parameters.constrain name required with
    | .ok learned => learned
    | .error _ => parameters.mention name

/-- The parameters after several calls, one after another. -/
def afterAll (parameters : Parameters) (calls : List Call) : Parameters :=
  calls.foldl after parameters

/-- The parameters after a run of calls that began with none. -/
def run (calls : List Call) : Parameters :=
  empty.afterAll calls

/-- The parameters after several requirements, one after another, unless one of them fails. -/
def constrainAll (requirements : List (String × Kind)) (parameters : Parameters) :
    Except CompileError Parameters :=
  requirements.foldlM (fun parameters requirement =>
    parameters.constrain requirement.1 requirement.2) parameters

variable {parameters learned : Parameters} {name : String}

/-- Where names stand once, the slots are their places. -/
theorem slot_iff (h : parameters.names.Nodup) {slot : Nat} :
    parameters.slot? name = some slot ↔ parameters.names[slot]? = some name := by
  constructor
  · exact names_of_slot
  · intro hname
    obtain ⟨first, hfirst⟩ := exists_slot (List.mem_of_getElem? hname)
    obtain ⟨hlt, -⟩ := List.getElem?_eq_some_iff.mp hname
    have hsame : parameters.names[slot]? = parameters.names[first]? :=
      hname.trans (names_of_slot hfirst).symm
    rwa [(List.getElem?_inj hlt h).mp hsame]

theorem slot_of_not_mem (h : name ∉ parameters.names) : parameters.slot? name = none := by
  cases hslot : parameters.slot? name with
  | none => rfl
  | some slot => exact absurd (mem_of_slot hslot) h

theorem mention_of_mem (h : name ∈ parameters.names) : parameters.mention name = parameters := by
  obtain ⟨slot, hslot⟩ := exists_slot h
  simp [mention, hslot]

/-- A mention says nothing about kinds. -/
theorem kind_mention (parameters : Parameters) (name other : String) :
    (parameters.mention name).kind? other = parameters.kind? other := by
  by_cases hname : name ∈ parameters.names
  · rw [mention_of_mem hname]
  · have hnone := slot_of_not_mem hname
    have hslots := slot_eq (parameters.mention name) other
    rw [names_mention, if_neg hname, List.findIdx?_append, ← slot_eq] at hslots
    simp only [kind?, get?, hslots]
    cases hother : parameters.slot? other with
    | some slot =>
        obtain ⟨hlt, -⟩ := List.getElem?_eq_some_iff.mp (entry_of_slot hother)
        simp [mention, hnone, atSlot?, List.getElem?_append_left hlt]
    | none =>
        by_cases hsame : name = other
        · subst hsame
          simp [mention, hnone, atSlot?, names]
        · simp [hsame]

theorem constrain_mention (parameters : Parameters) (name : String) (required : Kind) :
    (parameters.mention name).constrain name required = parameters.constrain name required := by
  have hname : name ∈ (parameters.mention name).names := mem_names_mention.mpr (.inl rfl)
  simp only [constrain, mention_of_mem hname]

/-- What narrows a state is no wider than it. -/
theorem wider_of_narrow {state : Option Kind} {required kind : Kind}
    (h : narrow? state required = some kind) : Kind.Wider state (some kind) := by
  cases state with
  | none => exact .unknown _
  | some current =>
      rcases narrow_some.mp h with ⟨-, rfl⟩ | ⟨hrefines, rfl⟩
      · exact .refl _
      · exact .known hrefines

/-- What narrows a state meets the requirement. -/
theorem refines_of_narrow {state : Option Kind} {required kind : Kind}
    (h : narrow? state required = some kind) : kind.Refines required := by
  cases state with
  | none =>
      cases h
      exact .refl _
  | some current =>
      rcases narrow_some.mp h with ⟨hrefines, rfl⟩ | ⟨-, rfl⟩
      · exact hrefines
      · exact .refl _

/-- A requirement puts a state that is no wider, and that meets it, in the slot of its name. -/
theorem exists_of_constrain {required : Kind}
    (h : parameters.constrain name required = .ok learned) :
    ∃ slot kind, (parameters.mention name).slot? name = some slot ∧
      learned = (parameters.mention name).setState slot name (some kind) ∧
      Kind.Wider (parameters.kind? name) (some kind) ∧ kind.Refines required := by
  rw [← constrain_mention] at h
  obtain ⟨slot, hslot, hiff⟩ := constrain_eq (mem_names_mention.mpr (.inl rfl)) required
  obtain ⟨kind, hnarrow, rfl⟩ := (hiff learned).mp h
  have hwider := wider_of_narrow hnarrow
  rw [kind_mention] at hwider
  exact ⟨slot, kind, hslot, rfl, hwider, refines_of_narrow hnarrow⟩

/-- A call is a mention of its name, with a state of it that is no wider than before. -/
theorem exists_after (parameters : Parameters) (call : Call) :
    ∃ slot state, (parameters.mention call.name).slot? call.name = some slot ∧
      parameters.after call = (parameters.mention call.name).setState slot call.name state ∧
      Kind.Wider (parameters.kind? call.name) state := by
  have hmentioned (name : String) : ∃ slot state,
      (parameters.mention name).slot? name = some slot ∧
      parameters.mention name = (parameters.mention name).setState slot name state ∧
      Kind.Wider (parameters.kind? name) state := by
    obtain ⟨slot, hslot⟩ := exists_slot (mem_names_mention.mpr (.inl rfl))
    exact ⟨slot, parameters.kind? name, hslot, by rw [setState, if_pos (kind_mention _ _ _)],
      .refl _⟩
  cases call with
  | mention name => exact hmentioned name
  | constrain name required =>
      simp only [after, Call.name]
      cases hconstrain : parameters.constrain name required with
      | error fault => exact hmentioned name
      | ok learned =>
          obtain ⟨slot, kind, hslot, hlearned, hwider, -⟩ := exists_of_constrain hconstrain
          exact ⟨slot, some kind, hslot, hlearned, hwider⟩

theorem names_after (parameters : Parameters) (call : Call) :
    (parameters.after call).names = (parameters.mention call.name).names := by
  obtain ⟨slot, state, hslot, hafter, -⟩ := exists_after parameters call
  rw [hafter, names_setState hslot]

theorem kind_after_of_ne {call : Call} {other : String} (h : other ≠ call.name) :
    (parameters.after call).kind? other = parameters.kind? other := by
  obtain ⟨slot, state, hslot, hafter, -⟩ := exists_after parameters call
  rw [hafter, kind_setState hslot, if_neg h, kind_mention]

/-- A call makes no state wider. -/
theorem wider_after (parameters : Parameters) (call : Call) (name : String) :
    Kind.Wider (parameters.kind? name) ((parameters.after call).kind? name) := by
  by_cases hname : name = call.name
  · obtain ⟨slot, state, hslot, hafter, hwider⟩ := exists_after parameters call
    rw [hafter, kind_setState hslot, if_pos hname, hname]
    exact hwider
  · rw [kind_after_of_ne hname]
    exact .refl _

/-- The changes are counted: one for a new name, and one for another state. -/
theorem changes_after (parameters : Parameters) (call : Call) :
    (parameters.after call).changes = parameters.changes +
      (if call.name ∈ parameters.names then 0 else 1) +
      (if (parameters.after call).kind? call.name = parameters.kind? call.name then 0 else 1) := by
  obtain ⟨slot, state, hslot, hafter, -⟩ := exists_after parameters call
  have hmention : (parameters.mention call.name).changes = parameters.changes +
      (if call.name ∈ parameters.names then 0 else 1) := by
    by_cases hname : call.name ∈ parameters.names
    · rw [mention_of_mem hname, if_pos hname]
      rfl
    · simp [if_neg hname, mention, slot_of_not_mem hname]
  rw [← hmention, hafter, kind_setState hslot, if_pos rfl, setState, kind_mention]
  by_cases hstate : parameters.kind? call.name = state
  · rw [if_pos hstate, if_pos hstate.symm]
    rfl
  · rw [if_neg hstate, if_neg (Ne.symm hstate)]

/-- A requirement can only fail on a name that is there already. -/
theorem mem_of_constrain_eq_error {required : Kind} {fault : CompileError}
    (h : parameters.constrain name required = .error fault) : name ∈ parameters.names := by
  by_contra hname
  have hkind : (parameters.mention name).kind? name = none := by
    rw [kind_mention]
    simp [kind?, get?, slot_of_not_mem hname]
  simp only [constrain, hkind, narrow?] at h
  split at h <;> cases h

/-- A requirement that fails changes nothing, although it mentions its name first. -/
theorem after_of_error {required : Kind} {fault : CompileError}
    (h : parameters.constrain name required = .error fault) :
    parameters.after (.constrain name required) = parameters := by
  simp only [after, h]
  exact mention_of_mem (mem_of_constrain_eq_error h)

/-- The second parameters come after the first: slots stay as they are, and no state gets wider. -/
structure Continues (parameters later : Parameters) : Prop where
  slots : ∀ name slot, parameters.slot? name = some slot → later.slot? name = some slot
  states : ∀ name, Kind.Wider (parameters.kind? name) (later.kind? name)

theorem Continues.refl (parameters : Parameters) : Continues parameters parameters :=
  ⟨fun _ _ => id, fun _ => .refl _⟩

theorem Continues.trans {later last : Parameters} (h : Continues parameters later)
    (hlast : Continues later last) : Continues parameters last :=
  ⟨fun name slot hslot => hlast.slots name slot (h.slots name slot hslot),
    fun name => (h.states name).trans (hlast.states name)⟩

/-- A call continues the parameters. -/
theorem continues_after (parameters : Parameters) (call : Call) :
    Continues parameters (parameters.after call) where
  slots name slot hslot := by
    rw [slot_eq, names_after, names_mention]
    rw [slot_eq] at hslot
    by_cases hname : call.name ∈ parameters.names
    · rwa [if_pos hname]
    · rw [if_neg hname, List.findIdx?_append, hslot]
      rfl
  states := wider_after parameters call

theorem continues_afterAll (parameters : Parameters) (calls : List Call) :
    Continues parameters (parameters.afterAll calls) := by
  induction calls generalizing parameters with
  | nil => exact .refl parameters
  | cons call calls ih => exact (continues_after parameters call).trans (ih _)

/-- A run of calls leaves behind the names that were there those that it mentions, each of the new
ones once, in the order of their first mentions. -/
theorem names_afterAll (parameters : Parameters) (calls : List Call) :
    (parameters.afterAll calls).names = (parameters.mentionAll (calls.map Call.name)).names := by
  induction calls generalizing parameters with
  | nil => rfl
  | cons call calls ih =>
      show ((parameters.after call).afterAll calls).names =
        ((parameters.mention call.name).mentionAll (calls.map Call.name)).names
      rw [ih, names_mentionAll, names_mentionAll, names_after]

theorem continues_constrain {required : Kind}
    (h : parameters.constrain name required = .ok learned) : Continues parameters learned := by
  have hafter := continues_after parameters (.constrain name required)
  rwa [after, h] at hafter

/-- The parameters say of a name what is required of it. -/
def MeetsRequirement (parameters : Parameters) (requirement : String × Kind) : Prop :=
  ∃ kind, parameters.kind? requirement.1 = some kind ∧ kind.Refines requirement.2

/-- What is required stays met in later parameters. -/
theorem MeetsRequirement.continues {requirement : String × Kind}
    (h : parameters.MeetsRequirement requirement) (hlater : Continues parameters learned) :
    learned.MeetsRequirement requirement := by
  obtain ⟨kind, hkind, hrefines⟩ := h
  have hwider := hlater.states requirement.1
  rw [hkind] at hwider
  obtain ⟨narrower, hnarrower, hnarrow⟩ := hwider.exists_refines
  exact ⟨narrower, hnarrower, hnarrow.trans hrefines⟩

/-- Requirements that succeed are met in the end, and add no names but their own. -/
theorem constrainAll_sound {requirements : List (String × Kind)}
    (h : constrainAll requirements parameters = .ok learned) :
    Continues parameters learned ∧
      (∀ requirement ∈ requirements, learned.MeetsRequirement requirement) ∧
      learned.names = (parameters.mentionAll (requirements.map (·.1))).names := by
  induction requirements generalizing parameters with
  | nil =>
      cases h
      exact ⟨.refl _, List.forall_mem_nil _, rfl⟩
  | cons requirement requirements ih =>
      obtain ⟨middle, hmiddle, hrest⟩ := bind_eq_ok.mp h
      obtain ⟨hlater, hmeets, hnames⟩ := ih hrest
      obtain ⟨slot, kind, hslot, rfl, -, hrefines⟩ := exists_of_constrain hmiddle
      refine ⟨(continues_constrain hmiddle).trans hlater, List.forall_mem_cons.mpr ⟨?_, hmeets⟩, ?_⟩
      · refine MeetsRequirement.continues ⟨kind, ?_, hrefines⟩ hlater
        rw [kind_setState hslot, if_pos rfl]
      · rw [hnames, names_mentionAll, names_setState hslot]
        exact (names_mentionAll _ _).symm

/-- Requirements that are met in an assignment succeed on parameters that are no narrower than in
it, and stay no narrower. -/
theorem constrainAll_complete {requirements : List (String × Kind)} {assignment : Parameters}
    (hmeets : ∀ requirement ∈ requirements, assignment.MeetsRequirement requirement)
    (hwider : ∀ name, Kind.Wider (parameters.kind? name) (assignment.kind? name)) :
    ∃ learned, constrainAll requirements parameters = .ok learned ∧
      ∀ name, Kind.Wider (learned.kind? name) (assignment.kind? name) := by
  induction requirements generalizing parameters with
  | nil => exact ⟨parameters, rfl, hwider⟩
  | cons requirement requirements ih =>
      rw [List.forall_mem_cons] at hmeets
      obtain ⟨⟨known, hknown, hrefines⟩, hmeets⟩ := hmeets
      have hmentioned : (parameters.mention requirement.1).WiderThan [requirement.1] assignment :=
        ⟨by simpa using mem_names_mention.mpr (.inl rfl),
          fun name => (kind_mention parameters _ name).symm ▸ hwider name⟩
      obtain ⟨middle, hmiddle, hwider⟩ :=
        hmentioned.constrain (List.mem_singleton.mpr rfl) hknown hrefines
      rw [constrain_mention] at hmiddle
      obtain ⟨learned, hlearned, hwider⟩ := ih hmeets hwider.kinds
      exact ⟨learned, bind_eq_ok.mpr ⟨middle, hmiddle, hlearned⟩, hwider⟩

/-- Where names stand once, the manifest says of each what is known of it. -/
theorem manifest_eq (h : parameters.names.Nodup) :
    parameters.manifest =
      parameters.names.map fun name => ⟨name, (parameters.kind? name).getD .number⟩ := by
  unfold manifest names
  rw [List.map_map]
  refine List.map_congr_left fun entry hentry => ?_
  obtain ⟨slot, hslot⟩ := List.mem_iff_getElem?.mp hentry
  have hname : parameters.names[slot]? = some entry.1 := by
    rw [names, List.getElem?_map, hslot]
    rfl
  have hstate := (entry_of_slot ((slot_iff h).mpr hname)).symm.trans hslot
  have hkind : parameters.kind? entry.1 = entry.2 := congrArg Prod.snd (Option.some.inj hstate)
  rw [Function.comp_apply, hkind]

/-- With defaults, every name that is there has the kind that is known of it, or is a number. -/
theorem kind_withDefaults (parameters : Parameters) (name : String) :
    parameters.withDefaults.kind? name =
      if name ∈ parameters.names then some ((parameters.kind? name).getD .number) else none := by
  rw [kind?, get_withDefaults]
  by_cases hname : name ∈ parameters.names
  · obtain ⟨found, hfound⟩ := exists_get hname
    simp [hname, kind?, hfound]
  · simp [hname, get?, slot_of_not_mem hname]

/-- Requirements that succeed in one order succeed in every order, with the same kinds. -/
theorem constrainAll_perm {requirements other : List (String × Kind)}
    (hperm : requirements.Perm other) (hnodup : parameters.names.Nodup)
    (h : constrainAll requirements parameters = .ok learned) :
    ∃ result, constrainAll other parameters = .ok result ∧
      result.manifest.Perm learned.manifest ∧
      ∀ name, result.withDefaults.kind? name = learned.withDefaults.kind? name := by
  obtain ⟨hlater, hmeets, hnames⟩ := constrainAll_sound h
  obtain ⟨result, hresult, hwider⟩ := constrainAll_complete
    (fun requirement hmem => hmeets requirement (hperm.mem_iff.mpr hmem)) hlater.states
  obtain ⟨hresultLater, hresultMeets, hresultNames⟩ := constrainAll_sound hresult
  -- The two results are each wider than the other one, as each meets the other's requirements.
  obtain ⟨back, hback, hnarrower⟩ := constrainAll_complete
    (fun requirement hmem => hresultMeets requirement (hperm.mem_iff.mp hmem)) hresultLater.states
  obtain rfl : back = learned := Except.ok.inj (hback.symm.trans h)
  have hkinds (name : String) : result.kind? name = back.kind? name :=
    (hwider name).antisymm (hnarrower name)
  have hmem (name : String) : name ∈ result.names ↔ name ∈ back.names := by
    rw [hnames, hresultNames, mem_names_mentionAll, mem_names_mentionAll,
      (hperm.map (·.1)).mem_iff]
  have hbackNodup : back.names.Nodup := hnames ▸ nodup_mentionAll _ hnodup
  have hresultNodup : result.names.Nodup := hresultNames ▸ nodup_mentionAll _ hnodup
  refine ⟨result, hresult, ?_, fun name => ?_⟩
  · rw [manifest_eq hbackNodup, manifest_eq hresultNodup]
    simp only [hkinds]
    exact ((List.perm_ext_iff_of_nodup hresultNodup hbackNodup).mpr hmem).map _
  · rw [kind_withDefaults, kind_withDefaults, hkinds]
    exact if_congr (hmem name) rfl rfl

theorem names_run (calls : List Call) : (run calls).names = (calls.map Call.name).eraseDups := by
  rw [run, names_afterAll, names_mentionAll]
  simp [empty, names, List.removeAll]

/-- Parameters only ever get narrower, and requirements on them can be made in any order.

After any run of calls, no name stands twice, the slots are the places in the order of first
mentions, and further calls leave them so and make no state wider. A requirement that fails changes
nothing. A call changes the state of its own name only, and is counted as one change if the name is
new and as one more if the state is another one. Requirements that succeed in one order succeed in
every order, with the same manifest up to order and the same kind for each name. -/
theorem run_narrows (calls : List Call) :
    (run calls).names.Nodup ∧
    (run calls).names = (calls.map Call.name).eraseDups ∧
    (∀ name slot, (run calls).slot? name = some slot ↔ (run calls).names[slot]? = some name) ∧
    (∀ more, Continues (run calls) (run (calls ++ more))) ∧
    (∀ name required fault, (run calls).constrain name required = .error fault →
      run (calls ++ [.constrain name required]) = run calls) ∧
    (∀ call,
      (∀ other, other ≠ call.name →
        (run (calls ++ [call])).kind? other = (run calls).kind? other) ∧
      (run (calls ++ [call])).changes = (run calls).changes +
        (if call.name ∈ (run calls).names then 0 else 1) +
        (if (run (calls ++ [call])).kind? call.name = (run calls).kind? call.name
          then 0 else 1)) ∧
    ∀ requirements other, requirements.Perm other →
      ∀ learned, constrainAll requirements (run calls) = .ok learned →
        ∃ result, constrainAll other (run calls) = .ok result ∧
          result.manifest.Perm learned.manifest ∧
          ∀ name, result.withDefaults.kind? name = learned.withDefaults.kind? name := by
  have hnodup : (run calls).names.Nodup := by
    rw [run, names_afterAll]
    exact nodup_mentionAll _ (show empty.names.Nodup from List.nodup_nil)
  have hmore (more : List Call) : run (calls ++ more) = (run calls).afterAll more := by
    simp [run, afterAll]
  have hnext (call : Call) : run (calls ++ [call]) = (run calls).after call := hmore [call]
  refine ⟨hnodup, names_run calls, fun name slot => slot_iff hnodup, fun more => ?_,
    fun name required fault hfault => ?_, fun call => ?_, fun requirements other hperm learned =>
      constrainAll_perm hperm hnodup⟩
  · rw [hmore]
    exact continues_afterAll _ more
  · rw [hnext]
    exact after_of_error hfault
  · rw [hnext]
    exact ⟨fun other => kind_after_of_ne, changes_after _ call⟩

/-- An integer that is required before a number is the integer that is required after it, and what
is an integer cannot become a string. -/
theorem run_narrows_integer :
    (∃ result,
      constrainAll [("n", .number), ("n", .integer)] (run [.mention "s"]) = .ok result ∧
        result.withDefaults.kind? "n" = some .integer) ∧
      run [.mention "n", .constrain "n" .integer, .constrain "n" .string] =
        run [.mention "n", .constrain "n" .integer] := by
  refine ⟨?_, (run_narrows [.mention "n", .constrain "n" .integer]).2.2.2.2.1 "n" .string _ rfl⟩
  have hsorted : [("n", Kind.integer), ("n", .number)].Perm [("n", .number), ("n", .integer)] :=
    .swap _ _ _
  obtain ⟨result, hresult, -, hkinds⟩ :=
    (run_narrows [.mention "s"]).2.2.2.2.2.2 _ _ hsorted _ rfl
  exact ⟨result, hresult, (hkinds "n").trans (by decide)⟩

end Parameters

end Reckon
