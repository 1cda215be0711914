import Reckon.Proofs.Signature.Defaults
import Reckon.Proofs.Typing.Solutions
import Reckon.Proofs.Typing.Termination

/-!
# Inference and the check of typed trees agree

Where inference ends, the states of the parameters solve the constraints of the tree. Then no
operand is unknown of which anything is demanded, and a typed tree, built after the parameters have
their defaults, has the kinds that the last walk knew. It can fail to be built only at a length or a
concatenation of operands of which nothing was known: `Expr.inferKinds_agrees`.
-/

namespace Reckon

open List (Forall₂)

namespace Parameters

/-- A parameter with its default has the same slot. -/
theorem get_withDefaults (parameters : Parameters) (name : String) :
    parameters.withDefaults.get? name = (parameters.get? name).map fun found =>
      ⟨found.name, some (found.state.getD .number), found.slot⟩ := by
  have hslot : parameters.withDefaults.slot? name = parameters.slot? name := by
    rw [slot_eq, slot_eq]
    simp [names, withDefaults, Function.comp_def]
  unfold get?
  rw [hslot]
  cases parameters.slot? name with
  | none => rfl
  | some slot => simp [atSlot?, withDefaults, Function.comp_def]

theorem exists_get {parameters : Parameters} {name : String} (h : name ∈ parameters.names) :
    ∃ found, parameters.get? name = some found := by
  obtain ⟨slot, hslot⟩ := exists_slot h
  refine ⟨⟨name, parameters.kind? name, slot⟩, ?_⟩
  rw [get?, hslot, Option.bind_some, atSlot?, entry_of_slot hslot]
  rfl

end Parameters

namespace Expr

variable {parameters : Parameters}

theorem mem_nodesOfAll {subtree : Expr} {arguments : List Expr} :
    subtree ∈ nodesOfAll arguments ↔ ∃ argument ∈ arguments, subtree ∈ argument.nodes := by
  induction arguments with
  | nil => simp [nodesOfAll]
  | cons argument arguments ih => simp [nodesOfAll, ih]

/-- The parameters of a subtree are parameters of the tree. -/
theorem names_of_mem_nodes {tree subtree : Expr} (h : subtree ∈ tree.nodes) :
    subtree.parameterNames ⊆ tree.parameterNames := by
  induction tree using Expr.induction with
  | constant c =>
      obtain rfl := List.mem_singleton.mp h
      exact List.Subset.refl _
  | parameter name =>
      obtain rfl := List.mem_singleton.mp h
      exact List.Subset.refl _
  | operation op arguments ih =>
      rcases List.mem_cons.mp h with rfl | h
      · exact List.Subset.refl _
      · obtain ⟨argument, hargument, h⟩ := mem_nodesOfAll.mp h
        exact List.Subset.trans (ih argument hargument h) (names_of_mem hargument)

/-- Subtrees apply the same sort of operations. -/
theorem Over.of_mem_nodes {ops : Operation → Prop} {tree subtree : Expr} (h : tree.Over ops)
    (hmem : subtree ∈ tree.nodes) : subtree.Over ops := by
  induction h with
  | constant c =>
      obtain rfl := List.mem_singleton.mp hmem
      exact .constant c
  | parameter name =>
      obtain rfl := List.mem_singleton.mp hmem
      exact .parameter name
  | operation hop harguments ih =>
      rcases List.mem_cons.mp hmem with rfl | hmem
      · exact .operation hop harguments
      · obtain ⟨argument, hargument, hmem⟩ := mem_nodesOfAll.mp hmem
        exact ih argument hargument hmem

/-- A solution for a tree solves its subtrees. -/
theorem Solves.of_mem_nodes {tree subtree : Expr} {kind : Option Kind}
    (h : tree.Solves parameters kind) (hmem : subtree ∈ tree.nodes) :
    ∃ known, subtree.Solves parameters known := by
  induction h with
  | constant c =>
      obtain rfl := List.mem_singleton.mp hmem
      exact ⟨_, .constant c⟩
  | parameter name =>
      obtain rfl := List.mem_singleton.mp hmem
      exact ⟨_, .parameter name⟩
  | operation hlength hkinds hresolve hdemands ih =>
      rcases List.mem_cons.mp hmem with rfl | hmem
      · exact ⟨_, .operation hlength hkinds hresolve hdemands⟩
      · obtain ⟨argument, hargument, hmem⟩ := mem_nodesOfAll.mp hmem
        obtain ⟨place, hplace⟩ := List.mem_iff_getElem?.mp hargument
        obtain ⟨known, hknown⟩ := exists_getElem_of_length hlength hplace
        exact ih place argument known hplace hknown hmem

/-- In a solution nothing more would be demanded of an operand of unknown kind if it had one, since
it could not meet the demand. -/
theorem Solves.quiet {op : Operation} {arguments : List Expr} {kind : Option Kind}
    (htree : ∀ argument ∈ arguments, argument.Over Operation.IsStandard)
    (h : (Expr.operation op arguments).Solves parameters kind) :
    ∃ kinds, Forall₂ (Solves parameters) arguments kinds ∧ kinds.length = op.arity ∧
      kind = op.signature.result (op.signature.groupClass kinds) kinds ∧
      (∀ found, op.signature.groupClass kinds = some found → op.signature.allows found = true) ∧
      Forall₂ (Signature.Quiet (op.signature.groupClass kinds)) op.signature.arguments kinds := by
  obtain ⟨kinds, hlength, harity, hkind, hallowed, hoperands⟩ := h.operands
  refine ⟨kinds, ?_, harity, hkind, hallowed, ?_⟩
  · refine forall₂_of_getElem hlength fun place argument known hargument hknown => ?_
    obtain ⟨requirement, hrequirement⟩ :=
      exists_getElem_of_length (hlength.trans harity) hargument
    obtain ⟨other, hother, hoperand⟩ := hoperands place requirement argument hrequirement hargument
    rw [hknown] at hother
    cases hother
    exact hoperand.solves
  · refine forall₂_of_getElem harity.symm fun place requirement known hrequirement hknown => ?_
    obtain ⟨argument, hargument⟩ := exists_getElem_of_length hlength.symm hknown
    obtain ⟨other, hother, hoperand⟩ := hoperands place requirement argument hrequirement hargument
    rw [hknown] at hother
    cases hother
    refine ⟨hoperand.fits, ?_⟩
    rintro rfl
    cases hdemand : Signature.demand (op.signature.groupClass kinds) requirement none with
    | none => rfl
    | some demanded =>
        have hargument := htree argument (List.mem_of_getElem? hargument)
        exact absurd (hoperand.meets demanded hdemand) (hoperand.solves.not_meets hargument _)

/-- Typed operands were built one by one. -/
theorem forall₂_of_toNodes {arguments : List Expr} {children : List Node}
    (h : toNodes parameters arguments = .ok children) :
    Forall₂ (fun argument child => argument.toNode parameters = .ok child) arguments children := by
  induction arguments generalizing children with
  | nil =>
      cases h
      exact .nil
  | cons argument arguments ih =>
      obtain ⟨child, hchild, h⟩ := bind_eq_ok.mp h
      obtain ⟨rest, hrest, h⟩ := bind_eq_ok.mp h
      cases h
      exact .cons hchild (ih hrest)

/-- If typed operands cannot be built, then one of them cannot. -/
theorem exists_of_toNodes {arguments : List Expr} {fault : CompileError}
    (h : toNodes parameters arguments = .error fault) :
    ∃ argument ∈ arguments, argument.toNode parameters = .error fault := by
  induction arguments with
  | nil => cases h
  | cons argument arguments ih =>
      rcases bind_eq_error.mp h with hfirst | ⟨child, -, h⟩
      · exact ⟨argument, .head _, hfirst⟩
      · rcases bind_eq_error.mp h with hrest | ⟨children, -, h⟩
        · obtain ⟨other, hmem, hfault⟩ := ih hrest
          exact ⟨other, .tail _ hmem, hfault⟩
        · cases h

/-- Kinds of typed operands are those of the solution, with defaults. -/
theorem kinds_eq_defaults {arguments : List Expr} {children : List Node}
    {kinds : List (Option Kind)} (hsolves : Forall₂ (Solves parameters) arguments kinds)
    (hchildren : Forall₂ (fun argument child => argument.toNode parameters.withDefaults = .ok child)
      arguments children)
    (h : ∀ argument ∈ arguments, ∀ known node, argument.Solves parameters known →
      argument.toNode parameters.withDefaults = .ok node → node.kind = known.getD .number) :
    children.map Node.kind = Signature.defaults kinds := by
  induction hsolves generalizing children with
  | nil =>
      cases hchildren
      rfl
  | cons hfirst hrest ih =>
      cases hchildren with
      | cons hchild hchildren =>
          rw [List.forall_mem_cons] at h
          rw [List.map_cons, h.1 _ _ hfirst hchild, ih hchildren h.2]
          rfl

/-- In a solution a typed tree has the kind that is known of it, or it is a number. -/
theorem Solves.kind_of_toNode {tree : Expr} (htree : tree.Over Operation.IsStandard)
    {known : Option Kind} (h : tree.Solves parameters known) {node : Node}
    (hnode : tree.toNode parameters.withDefaults = .ok node) : node.kind = known.getD .number := by
  induction htree generalizing known node with
  | constant c =>
      cases h
      cases hnode
      rfl
  | parameter name =>
      rw [solves_parameter.mp h]
      unfold toNode at hnode
      rw [Parameters.get_withDefaults] at hnode
      unfold Parameters.kind?
      cases hfound : parameters.get? name with
      | none =>
          rw [hfound] at hnode
          cases hnode
      | some found =>
          rw [hfound] at hnode
          cases hnode
          rfl
  | @operation op arguments hop harguments ih =>
      obtain ⟨kinds, hsolves, harity, rfl, hallowed, hquiet⟩ := Solves.quiet harguments h
      obtain ⟨children, hchildren, hbuild⟩ := bind_eq_ok.mp hnode
      obtain ⟨result, hresult, rfl⟩ := Node.build_eq_ok hbuild
      have hkinds := kinds_eq_defaults hsolves (forall₂_of_toNodes hchildren)
        fun argument hmem known node hknown hnode => ih argument hmem hknown hnode
      rw [hkinds] at hresult
      rcases Signature.returnKind_defaults hop.isCoherent harity hquiet hallowed with
        hdefaults | ⟨-, -, -, hdefaults⟩
      · rw [hdefaults] at hresult
        cases hresult
        rfl
      · rw [hdefaults] at hresult
        cases hresult

/-- In a solution the typed tree cannot be built only for one reason: the length or the
concatenation of operands of which nothing is known, so that they count as numbers. -/
theorem Solves.fault_of_toNode {tree : Expr} (htree : tree.Over Operation.IsStandard)
    (hnames : tree.Advertised parameters) {known : Option Kind} (h : tree.Solves parameters known)
    {fault : CompileError} (hfault : tree.toNode parameters.withDefaults = .error fault) :
    ∃ function arguments, .operation (.call function) arguments ∈ tree.nodes ∧
      (function.name = "len" ∨ function.name = "concat") ∧
      (∀ argument ∈ arguments, argument.Solves parameters none) ∧
      fault = .typeConflict (.operands function.name (.unsupported .numeric)) := by
  induction htree generalizing known with
  | constant c => cases hfault
  | parameter name =>
      obtain ⟨found, hfound⟩ := Parameters.exists_get (hnames (.head _))
      rw [toNode, Parameters.get_withDefaults, hfound] at hfault
      cases hfault
  | @operation op arguments hop harguments ih =>
      obtain ⟨kinds, hsolves, harity, -, hallowed, hquiet⟩ := Solves.quiet harguments h
      rcases bind_eq_error.mp hfault with hchildren | ⟨children, hchildren, hfault⟩
      · -- The fault of an operand is found in the operand.
        obtain ⟨argument, hmem, hother⟩ := exists_of_toNodes hchildren
        obtain ⟨known, hknown⟩ := exists_of_forall₂ hsolves hmem
        obtain ⟨function, operands, hnode, hrest⟩ :=
          ih argument hmem (List.Subset.trans (names_of_mem hmem) hnames) hknown hother
        exact ⟨function, operands, .tail _ (mem_nodesOfAll.mpr ⟨argument, hmem, hnode⟩), hrest⟩
      · have htyped := forall₂_of_toNodes hchildren
        have hkinds := kinds_eq_defaults hsolves htyped
          fun argument hmem known node hknown hnode =>
            hknown.kind_of_toNode (harguments argument hmem) hnode
        have hcount : children.length = op.arity := by
          rw [← htyped.length_eq, hsolves.length_eq, harity]
        rw [Node.build, if_neg (not_not.mpr hcount), hkinds] at hfault
        rcases Signature.returnKind_defaults hop.isCoherent harity hquiet hallowed with
          hdefaults | ⟨hclass, hgroup, hallows, hdefaults⟩
        · rw [hdefaults] at hfault
          cases hfault
        · rw [hdefaults] at hfault
          cases hfault
          rw [hclass] at hquiet
          rw [Signature.groupClass, Option.or_eq_none_iff] at hclass
          rcases hop.allows_numeric hgroup hclass.1 with hother | ⟨⟨function, rfl, hname⟩, hall⟩
          · rw [hallows] at hother
            cases hother
          · refine ⟨function, arguments, .head _, hname, ?_, rfl⟩
            intro argument hmem
            obtain ⟨place, hplace⟩ := List.mem_iff_getElem?.mp hmem
            obtain ⟨known, hknown⟩ := exists_getElem_of_length hsolves.length_eq hplace
            obtain ⟨requirement, hrequirement⟩ := exists_getElem_of_length harity hknown
            have hfit := (getElem_of_forall₂ hquiet hrequirement hknown).1
            rw [hall requirement (List.mem_of_getElem? hrequirement)] at hfit
            cases known with
            | none => exact getElem_of_forall₂ hsolves hplace hknown
            | some kind => cases hfit

/-- Inference and the check of the typed tree agree. For a tree of operators and standard functions
whose parameters are all there, if inference succeeds, then its last walk learned nothing, and with
the defaults every subtree that can be built as a typed tree has the kind that this walk knew, or is
a number if it knew none. The typed tree cannot be built only at a length or a concatenation of
operands that were all left undetermined. -/
theorem inferKinds_agrees {tree : Expr} (htree : tree.Over Operation.IsStandard)
    {learned : Parameters} (hnames : tree.Advertised parameters)
    (h : tree.inferKinds parameters = .ok learned) :
    (∀ subtree ∈ tree.nodes, ∃ kind, subtree.infer learned = .ok (kind, learned) ∧
      ∀ node, subtree.toNode learned.withDefaults = .ok node → node.kind = kind.getD .number) ∧
    ∀ fault, tree.toNode learned.withDefaults = .error fault →
      ∃ function arguments, .operation (.call function) arguments ∈ tree.nodes ∧
        (function.name = "len" ∨ function.name = "concat") ∧
        (∀ argument ∈ arguments, argument.infer learned = .ok (none, learned)) ∧
        fault = .typeConflict (.operands function.name (.unsupported .numeric)) := by
  rw [inferKinds_eq] at h
  obtain ⟨hlearned, kind, hsettled⟩ := settled_of_inferKinds hnames h
  have hadvertised : tree.Advertised learned := by
    rw [Advertised, hlearned.names]
    exact hnames
  have hsolves := (settled_iff hadvertised).mp hsettled
  constructor
  · intro subtree hmem
    obtain ⟨known, hknown⟩ := hsolves.of_mem_nodes hmem
    refine ⟨known, ?_, fun node hnode => hknown.kind_of_toNode (htree.of_mem_nodes hmem) hnode⟩
    rw [infer_eq]
    exact settled_of_solves (List.Subset.trans (names_of_mem_nodes hmem) hadvertised) hknown
  · intro fault hfault
    obtain ⟨function, arguments, hmem, hname, hunknown, hsame⟩ :=
      hsolves.fault_of_toNode htree hadvertised hfault
    refine ⟨function, arguments, hmem, hname, fun argument hargument => ?_, hsame⟩
    rw [infer_eq]
    have hnames := List.Subset.trans (names_of_mem hargument) (names_of_mem_nodes hmem)
    exact settled_of_solves (List.Subset.trans hnames hadvertised) (hunknown argument hargument)

/-- What is compared with an integer is a number, and the comparison is a truth value. -/
theorem inferKinds_agrees_comparison :
    let tree := operation (.binary .greater) [parameter "x", constant (.computed (.integer 1))]
    let start := Parameters.empty.mentionAll ["x"]
    let learned : Parameters := ⟨[("x", some .number)], 2⟩
    tree.Over Operation.IsStandard ∧ tree.Advertised start ∧ tree.inferKinds start = .ok learned ∧
      ∀ node, tree.toNode learned.withDefaults = .ok node → node.kind = .boolean := by
  intro tree start learned
  have htree : tree.Over Operation.IsStandard := by
    refine .operation trivial ?_
    simp only [List.forall_mem_cons]
    exact ⟨.parameter "x", .constant _, nofun⟩
  have hnames : tree.Advertised start := List.Subset.refl _
  have hlearned : tree.inferKinds start = .ok learned := rfl
  obtain ⟨hkinds, -⟩ := inferKinds_agrees htree hnames hlearned
  obtain ⟨kind, hinfer, hnode⟩ := hkinds tree (.head _)
  have hkind : tree.infer learned = .ok (some .boolean, learned) := rfl
  rw [hkind] at hinfer
  cases hinfer
  exact ⟨htree, hnames, hlearned, hnode⟩

end Expr

end Reckon
