import Reckon.Compiler
import Reckon.Proofs.Expr.Operations
import Reckon.Proofs.Tree.Typed

/-!
# Elaborated trees

Inference only ever adds a name to the parameters or says more about one, so no name stands twice,
and the tree that is built afterwards reads every parameter where the manifest has it. Both facts
meet in `Compiler.wellSlotted_of_elaborate`.
-/

namespace Reckon

namespace Parameters

/-- The names of the parameters, in slot order. -/
def names (parameters : Parameters) : List String :=
  parameters.entries.map (·.1)

theorem entry_of_get {parameters : Parameters} {name : String} {parameter : Parameter}
    (h : parameters.get? name = some parameter) :
    parameters.entries[parameter.slot]? = some (parameter.name, parameter.state) := by
  obtain ⟨slot, -, hslot⟩ := Option.bind_eq_some_iff.mp h
  obtain ⟨entry, hentry, rfl⟩ := Option.map_eq_some_iff.mp hslot
  exact hentry

theorem names_of_slot {parameters : Parameters} {name : String} {slot : Nat}
    (h : parameters.slot? name = some slot) : parameters.names[slot]? = some name := by
  obtain ⟨hlt, hname, -⟩ := List.findIdx?_eq_some_iff_getElem.mp h
  rw [names, List.getElem?_map, List.getElem?_eq_getElem hlt]
  simpa using hname

theorem mem_of_slot {parameters : Parameters} {name : String} {slot : Nat}
    (h : parameters.slot? name = some slot) : name ∈ parameters.names :=
  List.mem_of_getElem? (names_of_slot h)

theorem not_mem_of_slot {parameters : Parameters} {name : String}
    (h : parameters.slot? name = none) : name ∉ parameters.names := by
  intro hname
  obtain ⟨entry, hentry, rfl⟩ := List.mem_map.mp hname
  have hother := List.findIdx?_eq_none_iff.mp h entry hentry
  simp at hother

/-- A name that is mentioned stands behind the others, unless it is there. -/
theorem names_mention (parameters : Parameters) (name : String) :
    (parameters.mention name).names =
      if name ∈ parameters.names then parameters.names else parameters.names ++ [name] := by
  unfold mention
  split
  · next slot hslot => rw [if_pos (mem_of_slot hslot)]
  · next hnone =>
      rw [if_neg (not_mem_of_slot hnone), names, List.map_append]
      rfl

/-- Names that are mentioned stand behind the others, each of the new ones once, in the order of
their first mentions. -/
theorem names_mentionAll (parameters : Parameters) (names : List String) :
    (parameters.mentionAll names).names =
      parameters.names ++ (names.removeAll parameters.names).eraseDups := by
  induction names generalizing parameters with
  | nil => simp [mentionAll]
  | cons name names ih =>
      have hmentioned : (parameters.mentionAll (name :: names)).names =
          (parameters.mention name).names ++
            (names.removeAll (parameters.mention name).names).eraseDups := ih _
      rw [hmentioned, names_mention]
      by_cases hname : name ∈ parameters.names
      · rw [if_pos hname]
        simp [List.removeAll, hname]
      · rw [if_neg hname, List.append_assoc]
        have hhead : (name :: names).removeAll parameters.names =
            name :: names.removeAll parameters.names := by
          simp [List.removeAll, hname]
        have hrest : names.removeAll (parameters.names ++ [name]) =
            (names.removeAll parameters.names).filter (!· == name) := by
          rw [List.removeAll, List.removeAll, List.filter_filter]
          refine List.filter_congr fun other _ => ?_
          rw [Bool.eq_iff_iff]
          simp [and_comm]
        rw [hhead, hrest, List.eraseDups_cons]
        rfl

/-- Mentioning a name keeps names apart. -/
theorem nodup_mention {parameters : Parameters} (name : String) (h : parameters.names.Nodup) :
    (parameters.mention name).names.Nodup := by
  unfold mention
  split
  · exact h
  · next hnone =>
      rw [names, List.map_append]
      exact List.nodup_append.mpr ⟨h, by simp, by
        rintro a ha b hb rfl
        obtain rfl : a = name := by simpa using hb
        exact not_mem_of_slot hnone ha⟩

theorem nodup_mentionAll {parameters : Parameters} (names : List String)
    (h : parameters.names.Nodup) : (parameters.mentionAll names).names.Nodup := by
  induction names generalizing parameters with
  | nil => exact h
  | cons name names ih => exact ih (nodup_mention name h)

/-- Another state in a slot leaves the names as they are. -/
theorem names_setState {parameters : Parameters} {name : String} {slot : Nat}
    (h : parameters.slot? name = some slot) (state : Option Kind) :
    (parameters.setState slot name state).names = parameters.names := by
  unfold setState
  split
  · rfl
  · show (parameters.entries.set slot (name, state)).map (·.1) = parameters.names
    obtain ⟨hlt, hname⟩ := List.getElem?_eq_some_iff.mp (names_of_slot h)
    rw [List.map_set, ← hname]
    exact List.set_getElem_self hlt

/-- A requirement keeps names apart. -/
theorem nodup_constrain {parameters result : Parameters} {name : String} {required : Kind}
    (h : parameters.names.Nodup) (hconstrain : parameters.constrain name required = .ok result) :
    result.names.Nodup := by
  have hmention := nodup_mention name h
  unfold constrain at hconstrain
  simp only at hconstrain
  split at hconstrain
  · cases hconstrain
  · split at hconstrain
    · next slot hslot =>
        cases hconstrain
        rwa [names_setState hslot]
    · cases hconstrain
      exact hmention

end Parameters

/-- Learning keeps the names of parameters apart. -/
def Inferring.Distinguishes {α : Type} (inferring : Inferring α) : Prop :=
  ∀ parameters result, parameters.names.Nodup → inferring parameters = .ok result →
    result.2.names.Nodup

namespace Inferring

variable {α β : Type}

theorem distinguishes_pure (a : α) : Distinguishes (pure a) := by
  intro parameters result h hresult
  cases hresult
  exact h

theorem distinguishes_throw (fault : CompileError) : Distinguishes (throw fault : Inferring α) :=
  nofun

/-- One thing may be learned after another. -/
theorem Distinguishes.bind {first : Inferring α} {next : α → Inferring β} (h : first.Distinguishes)
    (hnext : ∀ a, (next a).Distinguishes) : (first >>= next).Distinguishes := by
  intro parameters result hparameters hresult
  obtain ⟨⟨a, learned⟩, hfirst, hrest⟩ := bind_eq_ok.mp hresult
  exact hnext a learned result (h _ _ hparameters hfirst) hrest

end Inferring

namespace Expr

@[elab_as_elim] theorem induction {motive : Expr → Prop} (constant : ∀ c, motive (constant c))
    (parameter : ∀ name, motive (parameter name))
    (operation : ∀ op arguments, (∀ argument ∈ arguments, motive argument) →
      motive (operation op arguments)) (tree : Expr) : motive tree :=
  @Expr.rec motive (fun arguments => ∀ argument ∈ arguments, motive argument) constant parameter
    operation nofun
    (fun _ _ hargument harguments => List.forall_mem_cons.mpr ⟨hargument, harguments⟩) tree

/-- A demand keeps names apart. -/
theorem distinguishes_demand (tree : Expr) (kind : Kind) : (tree.demand kind).Distinguishes := by
  induction tree using Expr.induction generalizing kind with
  | constant c =>
      unfold demand
      split
      · exact Inferring.distinguishes_pure ()
      · exact Inferring.distinguishes_throw _
  | parameter name =>
      intro parameters result h hresult
      unfold demand at hresult
      cases hconstrain : parameters.constrain name kind with
      | error fault =>
          rw [hconstrain] at hresult
          cases hresult
      | ok learned =>
          rw [hconstrain] at hresult
          cases hresult
          exact Parameters.nodup_constrain h hconstrain
  | operation op arguments ih =>
      unfold demand
      have harguments (index : Nat) (kind : Kind) :
          (demandDeciding op.signature kind index arguments).Distinguishes := by
        induction arguments generalizing index with
        | nil => exact Inferring.distinguishes_pure ()
        | cons argument arguments ihArguments =>
            rw [List.forall_mem_cons] at ih
            have hrest := ihArguments ih.2 (index + 1)
            unfold demandDeciding
            split
            · exact (ih.1 kind).bind fun _ => hrest
            · exact hrest
      exact harguments 0 _

theorem distinguishes_demandEach (arguments : List Expr) (demands : List (Option Kind)) :
    (demandEach arguments demands).Distinguishes := by
  fun_induction demandEach arguments demands with
  | case1 argument arguments kind demands ih =>
      exact (distinguishes_demand argument kind).bind fun _ => ih
  | case2 argument arguments demands ih => exact ih
  | case3 => exact Inferring.distinguishes_pure ()

/-- A walk keeps names apart. -/
theorem distinguishes_infer (tree : Expr) : tree.infer.Distinguishes := by
  induction tree using Expr.induction with
  | constant c => exact Inferring.distinguishes_pure _
  | parameter name =>
      intro parameters result h hresult
      cases hresult
      exact h
  | operation op arguments ih =>
      have harguments : (inferAll arguments).Distinguishes := by
        induction arguments with
        | nil => exact Inferring.distinguishes_pure []
        | cons argument arguments ihArguments =>
            rw [List.forall_mem_cons] at ih
            unfold inferAll
            refine ih.1.bind fun _ => (ihArguments ih.2).bind ?_
            intro _
            exact Inferring.distinguishes_pure _
      unfold infer
      refine harguments.bind ?_
      intro kinds
      split
      · exact Inferring.distinguishes_throw _
      · exact (distinguishes_demandEach _ _).bind fun _ => Inferring.distinguishes_pure _

/-- All walks together keep names apart. -/
theorem nodup_inferWithin {tree : Expr} {walks : Nat} {parameters result : Parameters}
    (h : parameters.names.Nodup) (hresult : tree.inferWithin walks parameters = .ok result) :
    result.names.Nodup := by
  induction walks generalizing parameters with
  | zero =>
      cases hresult
      exact h
  | succ walks ih =>
      obtain ⟨⟨kind, learned⟩, hwalk, hrest⟩ := bind_eq_ok.mp hresult
      have hlearned := distinguishes_infer tree _ _ h hwalk
      simp only at hrest
      split at hrest
      · cases hrest
        exact hlearned
      · exact ih hlearned hrest

/-- A typed tree is built from the parameters in their slots and the operations of the tree. -/
theorem built_toNode {ops : Operation → Prop} {parameters : Parameters} {tree : Expr}
    (htree : tree.Over ops) {node : Node} (h : tree.toNode parameters = .ok node) :
    node.Built ops ∧ ∀ p, .parameter p ∈ node.nodes →
      parameters.entries[p.slot]? = some (p.name, p.state) := by
  induction htree generalizing node with
  | constant c =>
      cases h
      exact ⟨.constant c, fun p hp => by simp [Node.nodes] at hp⟩
  | parameter name =>
      unfold toNode at h
      split at h
      · next found hfound =>
          cases h
          refine ⟨.parameter found, fun p hp => ?_⟩
          obtain rfl : p = found := by simpa [Node.nodes] using hp
          exact Parameters.entry_of_get hfound
      · cases h
  | @operation op arguments hop _ ih =>
      have harguments {arguments : List Expr} {children : List Node}
          (ih : ∀ argument ∈ arguments, ∀ {node : Node}, argument.toNode parameters = .ok node →
            node.Built ops ∧ ∀ p, .parameter p ∈ node.nodes →
              parameters.entries[p.slot]? = some (p.name, p.state))
          (h : toNodes parameters arguments = .ok children) : ∀ child ∈ children, child.Built ops ∧
            ∀ p, .parameter p ∈ child.nodes →
              parameters.entries[p.slot]? = some (p.name, p.state) := by
        induction arguments generalizing children with
        | nil =>
            cases h
            exact List.forall_mem_nil _
        | cons argument arguments ihArguments =>
            rw [List.forall_mem_cons] at ih
            obtain ⟨child, hchild, h⟩ := bind_eq_ok.mp h
            obtain ⟨children, hchildren, h⟩ := bind_eq_ok.mp h
            cases h
            exact List.forall_mem_cons.mpr ⟨ih.1 hchild, ihArguments ih.2 hchildren⟩
      obtain ⟨children, hchildren, hbuild⟩ := bind_eq_ok.mp h
      have hall := harguments ih hchildren
      refine ⟨.operation hop (fun child hchild => (hall child hchild).1) hbuild, fun p hp => ?_⟩
      obtain ⟨result, -, rfl⟩ := Node.build_eq_ok hbuild
      obtain ⟨child, hchild, hp⟩ := Node.parameter_mem_operation.mp hp
      exact (hall child hchild).2 p hp

end Expr

namespace Compiler

/-- An elaborated tree is built from its operations, its parameters have different names, and it
reads each of them in its slot. -/
theorem built_elaborate {ops : Operation → Prop} {tree : Expr} (htree : tree.Over ops)
    {root : Node} {parameters : Parameters} (h : elaborate tree = .ok (root, parameters)) :
    root.Built ops ∧ parameters.names.Nodup ∧ ∀ p, .parameter p ∈ root.nodes →
      parameters.entries[p.slot]? = some (p.name, p.state) := by
  obtain ⟨learned, hlearned, h⟩ := bind_eq_ok.mp h
  obtain ⟨node, hnode, h⟩ := bind_eq_ok.mp h
  cases h
  obtain ⟨hbuilt, hslots⟩ := Expr.built_toNode htree hnode
  refine ⟨hbuilt, ?_, hslots⟩
  have hmentioned := Parameters.nodup_mentionAll tree.parameterNames
    (show Parameters.empty.names.Nodup from List.nodup_nil)
  have hnodup := Expr.nodup_inferWithin hmentioned hlearned
  simpa [Parameters.names, Parameters.withDefaults, Function.comp_def] using hnodup

end Compiler

end Reckon
