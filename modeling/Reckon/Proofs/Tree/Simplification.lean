import Reckon.Node.Simplify
import Reckon.Proofs.Tree.Typed

/-!
# Simplification preserves evaluation

Read `evaluate_simplify` first: on every frame that fits it, a typed tree and its simplified form
evaluate alike, to the same value, the same error and the same use of draws. One operation is the
matter of `evaluate_simplifyTop`; it has three cases, an operation that a constant child decides,
one that is folded, and one that stays.
-/

namespace Reckon.Node

open List (Forall₂)

variable {frame : List Value} {op : Operation} {children : List Node} {kind : Kind}

theorem simplifyAll_eq (children : List Node) : simplifyAll children = children.map simplify := by
  induction children with
  | nil => rfl
  | cons child children ih => simp [simplifyAll, ih]

/-- A tree with a truth value is that constant. -/
theorem eq_of_truth {node : Node} {b : Bool} (h : node.truth? = some b) :
    ∃ literal, node = .constant ⟨.boolean b, literal⟩ := by
  unfold truth? at h
  split at h
  · next literal =>
      cases h
      exact ⟨literal, rfl⟩
  · cases h

/-- A constant child decides an operation, which gives way to one of its children. -/
inductive Decides : Operation → List Node → Kind → Node → Prop where
  /-- The left operand of `and` is false. -/
  | falseAnd (literal : Option Text) (right : Node) (kind : Kind) :
      Decides (.binary .and) [constant ⟨.boolean false, literal⟩, right] kind
        (constant ⟨.boolean false, literal⟩)
  /-- The left operand of `or` is true. -/
  | trueOr (literal : Option Text) (right : Node) (kind : Kind) :
      Decides (.binary .or) [constant ⟨.boolean true, literal⟩, right] kind
        (constant ⟨.boolean true, literal⟩)
  /-- The condition is known, and selects a branch of the node's kind. -/
  | branch {function : Callable} (hbody : function.body = .conditional) (b : Bool)
      (literal : Option Text) {yes no : Node} {kind : Kind}
      (hkind : (if b then yes else no).kind = kind) :
      Decides (.call function) [constant ⟨.boolean b, literal⟩, yes, no] kind
        (if b then yes else no)

/-- What an operation gives way to is what a constant child decides. -/
theorem decided_eq_some {child : Node} :
    decided? op children kind = some child ↔ Decides op children kind child := by
  constructor
  · intro h
    unfold decided? at h
    split at h
    · obtain ⟨htruth, hchild⟩ := Option.ite_none_right_eq_some.mp h
      obtain ⟨literal, rfl⟩ := eq_of_truth htruth
      cases hchild
      exact .falseAnd literal _ kind
    · obtain ⟨htruth, hchild⟩ := Option.ite_none_right_eq_some.mp h
      obtain ⟨literal, rfl⟩ := eq_of_truth htruth
      cases hchild
      exact .trueOr literal _ kind
    · split at h
      · next htruth =>
          obtain ⟨literal, rfl⟩ := eq_of_truth htruth
          obtain ⟨hkind, hchild⟩ := Option.ite_none_right_eq_some.mp h
          cases hchild
          exact .branch (b := true) rfl literal hkind
      · next htruth =>
          obtain ⟨literal, rfl⟩ := eq_of_truth htruth
          obtain ⟨hkind, hchild⟩ := Option.ite_none_right_eq_some.mp h
          cases hchild
          exact .branch (b := false) rfl literal hkind
      · cases h
    · cases h
  · intro h
    cases h with
    | falseAnd | trueOr => rfl
    | @branch function hbody b literal yes no kind hkind =>
        obtain ⟨names, signature, body, variadic⟩ := function
        cases hbody
        cases b with
        | true => exact if_pos hkind
        | false => exact if_pos hkind

theorem mem_of_decided {child : Node} (h : decided? op children kind = some child) :
    child ∈ children := by
  cases decided_eq_some.mp h with
  | falseAnd | trueOr => exact .head _
  | branch hbody b literal hkind => cases b <;> simp

/-- An operation that a constant child decides evaluates as the child that it gives way to. -/
theorem evaluate_decided {child : Node} (h : decided? op children kind = some child)
    (hframe : Fits frame child) :
    evaluate frame child = evaluate frame (operation op children kind) := by
  rw [evaluate_operation]
  cases decided_eq_some.mp h with
  | falseAnd | trueOr => simp [combine, evaluate, Value.expectBool]
  | @branch function hbody b literal yes no kind hkind =>
      obtain ⟨names, signature, body, variadic⟩ := function
      cases hbody
      have hwiden := (widen_evaluate hframe).symm
      rw [hkind] at hwiden
      cases b with
      | true => simpa [combine, evaluate, Value.expectBool] using hwiden
      | false => simpa [combine, evaluate, Value.expectBool] using hwiden

/-- The child that an operation gives way to has the kind of the operation. -/
theorem kind_of_decided {kinds : List Kind} {child : Node}
    (hcheck : op.signature.returnKind kinds = .ok kind)
    (h : decided? op children kind = some child) : child.kind = kind := by
  cases decided_eq_some.mp h with
  | falseAnd | trueOr =>
      rw [(boolean_of_returnKind hcheck).2]
      rfl
  | branch hbody b literal hkind => exact hkind

theorem eq_of_constant {node : Node} {value : Value} (h : node.constant? = some value) :
    ∃ literal, node = .constant ⟨value, literal⟩ := by
  cases node with
  | constant c =>
      cases h
      exact ⟨c.literal, rfl⟩
  | parameter | operation => cases h

/-- Trees with known values are constants with these values. -/
theorem mapM_constant {operands : List Value} :
    children.mapM constant? = some operands ↔
      ∃ constants : List Constant, children = constants.map constant ∧
        operands = constants.map (·.value) := by
  constructor
  · intro h
    have hconstants := forall₂_of_mapM h
    clear h
    induction hconstants with
    | nil => exact ⟨[], rfl, rfl⟩
    | cons hchild _ ih =>
        obtain ⟨literal, rfl⟩ := eq_of_constant hchild
        obtain ⟨constants, rfl, rfl⟩ := ih
        exact ⟨⟨_, literal⟩ :: constants, rfl, rfl⟩
  · rintro ⟨constants, rfl, rfl⟩
    induction constants with
    | nil => rfl
    | cons c constants ih => simp [constant?, ih]

/-- An operation is folded if its children are constants on which it has a value that takes the
kind. -/
theorem folded_eq_some {adjusted : Value} :
    folded? op children kind = some adjusted ↔
      ∃ (constants : List Constant) (value : Value), children = constants.map constant ∧
        op.fold? (constants.map (·.value)) = some value ∧ value.adjust? kind = some adjusted := by
  constructor
  · intro h
    obtain ⟨operands, hoperands, h⟩ := Option.bind_eq_some_iff.mp h
    obtain ⟨value, hvalue, hadjust⟩ := Option.bind_eq_some_iff.mp h
    obtain ⟨constants, rfl, rfl⟩ := mapM_constant.mp hoperands
    exact ⟨constants, value, rfl, hvalue, hadjust⟩
  · rintro ⟨constants, value, rfl, hvalue, hadjust⟩
    have hoperands := mapM_constant.mpr ⟨constants, rfl, rfl⟩
    exact Option.bind_eq_some_iff.mpr
      ⟨_, hoperands, Option.bind_eq_some_iff.mpr ⟨value, hvalue, hadjust⟩⟩

/-- Trees with known values evaluate to them. -/
theorem evaluate_constants {operands : List Value}
    (h : Forall₂ (fun child value => child.constant? = some value) children operands) :
    children.map (evaluate frame) = operands.map pure := by
  induction h with
  | nil => rfl
  | cons hchild _ ih =>
      obtain ⟨literal, rfl⟩ := eq_of_constant hchild
      rw [List.map_cons, List.map_cons, ih, evaluate]

/-- The known values of trees belong to the kinds that the trees refine. -/
theorem hasKind_constants {operands : List Value} {kinds : List Kind}
    (h : Forall₂ (fun child value => child.constant? = some value) children operands)
    (hrefines : Forall₂ (fun child kind => child.kind.Refines kind) children kinds) :
    Forall₂ Value.HasKind operands kinds := by
  induction h generalizing kinds with
  | nil =>
      cases hrefines
      exact .nil
  | cons hchild _ ih =>
      obtain ⟨literal, rfl⟩ := eq_of_constant hchild
      cases hrefines with
      | cons hkind hrefines => exact .cons (Value.hasKind_iff_refines.mpr hkind) (ih hrefines)

/-- The value of an operation over constants, widened to the kind of the node, is of that kind. -/
theorem hasKind_of_fold {kinds : List Kind} {operands : List Value} {value : Value}
    (hop : op.IsStandard) (hcheck : op.signature.returnKind kinds = .ok kind)
    (hrefines : Forall₂ (fun child kind => child.kind.Refines kind) children kinds)
    (hoperands : Forall₂ (fun child value => child.constant? = some value) children operands)
    (hvalue : op.fold? operands = some value) : (widen kind value).HasKind kind := by
  obtain ⟨groupClass, htakes, hpromise⟩ :=
    Signature.exists_takes hcheck (hasKind_constants hoperands hrefines)
  exact hpromise value (Operation.promises_of_fold hop htakes hvalue)

/-- A folded operation is an operation over constants that has a value, and gives way to what the
node would make of that value. -/
theorem eq_of_folded {kinds : List Kind} {value : Value} (hop : op.IsStandard)
    (hcheck : op.signature.returnKind kinds = .ok kind)
    (hrefines : Forall₂ (fun child kind => child.kind.Refines kind) children kinds)
    (h : folded? op children kind = some value) :
    value.HasKind kind ∧ evaluate frame (operation op children kind) = pure value := by
  obtain ⟨constants, result, rfl, hresult, hadjust⟩ := folded_eq_some.mp h
  have hconstants := forall₂_of_mapM (mapM_constant.mpr ⟨constants, rfl, rfl⟩)
  have hkind := hasKind_of_fold hop hcheck hrefines hconstants hresult
  refine ⟨Value.hasKind_of_adjust hadjust, ?_⟩
  rw [adjust_eq_widen hkind] at hadjust
  cases hadjust
  rw [evaluate_operation, evaluate_constants hconstants, combine_of_fold hresult, map_pure]

/-- An operation over simplified children is a child that it gives way to, a value that it is folded
to, or else the operation itself. -/
theorem simplifyTop_cases {motive : Node → Prop}
    (hdecided : ∀ child, decided? op children kind = some child → motive child)
    (hfolded : ∀ value, folded? op children kind = some value →
      motive (.constant (.computed value)))
    (hstays : decided? op children kind = none → folded? op children kind = none →
      motive (.operation op children kind)) : motive (simplifyTop op children kind) := by
  unfold simplifyTop
  split
  · next child h => exact hdecided child h
  · next hundecided =>
      split
      · next value h => exact hfolded value h
      · next hunfolded => exact hstays hundecided hunfolded

/-- One step of simplification preserves evaluation. -/
theorem evaluate_simplifyTop {kinds : List Kind} (hop : op.IsStandard)
    (hcheck : op.signature.returnKind kinds = .ok kind)
    (hrefines : Forall₂ (fun child kind => child.kind.Refines kind) children kinds)
    (hframe : Fits frame (operation op children kind)) :
    evaluate frame (simplifyTop op children kind) =
      evaluate frame (operation op children kind) := by
  refine simplifyTop_cases (motive := fun node => evaluate frame node = _) (fun child h => ?_)
    (fun value h => ?_) fun _ _ => rfl
  · exact evaluate_decided h (hframe.child (mem_of_decided h))
  · rw [(eq_of_folded hop hcheck hrefines h).2]
    simp [evaluate, Constant.computed]

/-- One step of simplification makes the kind more specific, if it changes it. -/
theorem refines_simplifyTop {kinds : List Kind}
    (hcheck : op.signature.returnKind kinds = .ok kind) :
    (simplifyTop op children kind).kind.Refines kind := by
  refine simplifyTop_cases (motive := fun node => node.kind.Refines kind) (fun child h => ?_)
    (fun value h => ?_) fun _ _ => .refl kind
  · rw [kind_of_decided hcheck h]
    exact .refl kind
  · obtain ⟨_, _, _, _, hadjust⟩ := folded_eq_some.mp h
    exact Value.hasKind_iff_refines.mp (Value.hasKind_of_adjust hadjust)

/-- One step of simplification keeps trees typed. -/
theorem typed_simplifyTop {ops : Operation → Prop} {kinds : List Kind} (hop : ops op)
    (hcheck : op.signature.returnKind kinds = .ok kind)
    (hrefines : Forall₂ (fun child kind => child.kind.Refines kind) children kinds)
    (hchildren : ∀ child ∈ children, Typed ops child) :
    (simplifyTop op children kind).Typed ops :=
  simplifyTop_cases (fun child h => hchildren child (mem_of_decided h)) (fun _ _ => .constant _)
    fun _ _ => .operation hop hcheck hrefines hchildren

/-- One step of simplification makes no new parameters. -/
theorem parameter_of_simplifyTop {p : Parameter}
    (h : parameter p ∈ (simplifyTop op children kind).nodes) :
    ∃ child ∈ children, parameter p ∈ child.nodes := by
  revert h
  refine simplifyTop_cases (motive := fun node => parameter p ∈ node.nodes → _)
    (fun child h hp => ⟨child, mem_of_decided h, hp⟩) (fun value h hp => ?_)
    fun _ _ => parameter_mem_operation.mp
  simp [nodes] at hp

/-- The parameters of a simplified tree are parameters of the tree. -/
theorem parameter_of_simplify {p : Parameter} {node : Node}
    (h : parameter p ∈ node.simplify.nodes) :
    parameter p ∈ node.nodes := by
  induction node using Node.induction with
  | constant c => exact h
  | parameter p => exact h
  | operation op children kind ih =>
      rw [simplify, simplifyAll_eq] at h
      obtain ⟨_, hsimple, hp⟩ := parameter_of_simplifyTop h
      obtain ⟨child, hchild, rfl⟩ := List.mem_map.mp hsimple
      exact parameter_mem_operation.mpr ⟨child, hchild, ih child hchild hp⟩

/-- The kinds that children refine are refined by their simplified forms. -/
theorem refines_children {kinds : List Kind}
    (hrefines : Forall₂ (fun child kind => child.kind.Refines kind) children kinds)
    (hsimple : ∀ child ∈ children, child.simplify.kind.Refines child.kind) :
    Forall₂ (fun child kind => child.kind.Refines kind) (children.map simplify) kinds := by
  rw [List.forall₂_map_left_iff]
  exact forall₂_imp_of_mem hrefines fun child hchild _ hk => (hsimple child hchild).trans hk

/-- A simplified tree is typed, and its kind is that of the tree or says more. -/
theorem Typed.simplify {ops : Operation → Prop} {node : Node} (h : node.Typed ops) :
    node.simplify.Typed ops ∧ node.simplify.kind.Refines node.kind := by
  induction h with
  | constant c => exact ⟨.constant c, .refl _⟩
  | parameter p => exact ⟨.parameter p, .refl _⟩
  | @operation op children kind kinds hop hcheck hrefines _ ih =>
      rw [Node.simplify, simplifyAll_eq]
      have hrefines := refines_children hrefines fun child hchild => (ih child hchild).2
      have hchildren : ∀ child ∈ children.map Node.simplify, child.Typed ops := by
        rw [List.forall_mem_map]
        exact fun child hchild => (ih child hchild).1
      exact ⟨typed_simplifyTop hop hcheck hrefines hchildren, refines_simplifyTop hcheck⟩

theorem Fits.simplify {node : Node} (h : Fits frame node) : Fits frame node.simplify :=
  fun p hp => h p (parameter_of_simplify hp)

/-- Simplification preserves the evaluation of typed trees on frames that fit them. -/
theorem evaluate_simplify {node : Node} (h : node.Typed Operation.IsStandard)
    (hframe : Fits frame node) : evaluate frame node.simplify = evaluate frame node := by
  induction h with
  | constant c => rfl
  | parameter p => rfl
  | @operation op children kind kinds hop hcheck hrefines hchildren ih =>
      -- Simplified children read no more of the frame than the children do.
      have hfits : Fits frame (operation op (children.map Node.simplify) kind) := by
        intro p hp
        obtain ⟨_, hsimple, hp⟩ := parameter_mem_operation.mp hp
        obtain ⟨child, hchild, rfl⟩ := List.mem_map.mp hsimple
        exact (hframe.child hchild).simplify p hp
      have hrefines := refines_children hrefines fun child hchild =>
        (hchildren child hchild).simplify.2
      rw [Node.simplify, simplifyAll_eq, evaluate_simplifyTop hop hcheck hrefines hfits,
        evaluate_operation, evaluate_operation, List.map_map]
      refine congrArg (fun children => widen kind <$> combine op children) ?_
      exact List.map_congr_left fun child hchild => ih child hchild (hframe.child hchild)

/-- Simplification preserves evaluation: for a tree built from constants, parameters, operators and
functions of the language, whatever the random functions draw, and for a frame that may lack slots
but holds values of the right kinds in those that it has. -/
theorem simplify_preserves_evaluation {tree : Node} (htree : tree.Built Operation.IsStandard)
    {frame : List Value} (hframe : Fits frame tree) :
    evaluate frame tree.simplify = evaluate frame tree :=
  evaluate_simplify htree.typed hframe

/-- The product of a folded sum and a parameter, on a frame with an integer for that parameter. -/
theorem simplify_preserves_product :
    let sum := operation (.binary .add)
      [constant (.computed (.integer 2)), constant (.computed (.integer 3))] .integer
    let tree := operation (.binary .mul) [sum, parameter ⟨"x", none, 0⟩] .number
    tree.Built Operation.IsStandard ∧ Fits [.integer 7] tree ∧
      evaluate [.integer 7] tree.simplify = evaluate [.integer 7] tree := by
  intro sum tree
  have hsum : sum.Built Operation.IsStandard := by
    have hbuild : build (.binary .add)
        [constant (.computed (.integer 2)), constant (.computed (.integer 3))] = .ok sum := rfl
    refine Built.operation ?_ ?_ hbuild
    · trivial
    · simp only [List.forall_mem_cons]
      exact ⟨.constant _, .constant _, nofun⟩
  have htree : tree.Built Operation.IsStandard := by
    have hbuild : build (.binary .mul) [sum, parameter ⟨"x", none, 0⟩] = .ok tree := rfl
    refine Built.operation ?_ ?_ hbuild
    · trivial
    · simp only [List.forall_mem_cons]
      exact ⟨hsum, .parameter _, nofun⟩
  have hframe : Fits [.integer 7] tree := by
    intro p hp value hvalue
    obtain rfl : p = ⟨"x", none, 0⟩ := by simpa [tree, sum, nodes, nodesOfAll] using hp
    cases hvalue
    exact .wholeNumber 7
  exact ⟨htree, hframe, simplify_preserves_evaluation htree hframe⟩

end Reckon.Node
