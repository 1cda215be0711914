import Reckon.Proofs.Typing.Narrowing

/-!
# Walks in any order

`Expr.infer` visits the operands of an operation from left to right. `Expr.inferIn` is the walk that
visits them in any order, and what can be said about all orders is said about it; `infer_eq` makes
it apply to the walk from left to right.
-/

namespace Reckon

/-- An order in which the operands of every operation are visited, each of them once. -/
structure VisitOrder where
  /-- The places of the operands, in the order of the visits. -/
  places : List Expr → List Nat
  perm : ∀ arguments, (places arguments).Perm (List.range arguments.length)

/-- The order in which the operands stand. -/
def VisitOrder.leftToRight : VisitOrder where
  places arguments := List.range arguments.length
  perm _ := .refl _

namespace Inferring

variable {α : Type} {names : List String}

/-- Take the steps at these places, in this order, and put the result of each in its place. -/
def collect (steps : List (Inferring α)) : List Nat → List α → Inferring (List α)
  | [], found => return found
  | place :: places, found =>
    match steps[place]? with
    | none => collect steps places found
    | some step => do
      let a ← step
      collect steps places (found.set place a)

/-- Take the steps at these places, in this order. -/
def perform (steps : List (Inferring Unit)) (places : List Nat) : Inferring Unit := do
  let _ ← collect steps places (steps.map fun _ => ())
  return ()

/-- There is nothing to do behind the last step. -/
theorem collect_of_le {steps : List (Inferring α)} {places : List Nat}
    (h : ∀ place ∈ places, steps.length ≤ place) (found : List α) :
    collect steps places found = return found := by
  induction places with
  | nil => rfl
  | cons place places ih =>
      rw [List.forall_mem_cons] at h
      rw [collect, List.getElem?_eq_none h.1]
      exact ih h.2

/-- Visiting the places from left to right behind a first part takes the steps there in turn. -/
theorem collect_range' {before steps : List (Inferring α)} {done found : List α} {count : Nat}
    (hdone : done.length = before.length) (hfound : found.length = steps.length)
    (hcount : steps.length ≤ count) :
    collect (before ++ steps) (List.range' before.length count) (done ++ found) = do
      let results ← steps.mapM id
      return done ++ results := by
  induction steps generalizing before done found count with
  | nil =>
      obtain rfl : found = [] := by simpa using hfound
      rw [collect_of_le]
      · simp
      · intro place hplace
        simpa using (List.mem_range'_1.mp hplace).1
  | cons step steps ih =>
      cases found with
      | nil => simp at hfound
      | cons first found =>
          cases count with
          | zero => simp at hcount
          | succ count =>
              have hset (a : α) : (done ++ first :: found).set before.length a =
                  done ++ a :: found := by
                rw [← hdone, List.set_append_right _ _ (Nat.le_refl _)]
                simp
              have hrest (a : α) : collect (before ++ step :: steps)
                  (List.range' (before.length + 1) count) (done ++ a :: found) = do
                    let results ← steps.mapM id
                    return done ++ a :: results := by
                have h := @ih (before ++ [step]) (done ++ [a]) found count (by simpa using hdone)
                  (by simpa using hfound) (by simpa using hcount)
                simpa only [List.append_assoc, List.length_append, List.length_singleton,
                  List.singleton_append] using h
              rw [List.range'_succ, collect]
              simp [hset, hrest, List.mapM_cons]

/-- Visiting all places from left to right takes the steps in turn. -/
theorem collect_range {steps : List (Inferring α)} {found : List α} {count : Nat}
    (hfound : found.length = steps.length) (hcount : steps.length ≤ count) :
    collect steps (List.range count) found = steps.mapM id := by
  have h : collect ([] ++ steps) (List.range' 0 count) ([] ++ found) = do
      let results ← steps.mapM id
      return [] ++ results := collect_range' rfl hfound hcount
  rw [List.range_eq_range']
  simpa using h

/-- Steps that learn do so together, in any order. -/
theorem learns_collect {steps : List (Inferring α)} (h : ∀ step ∈ steps, Learns names step)
    (places : List Nat) (found : List α) : Learns names (collect steps places found) := by
  induction places generalizing found with
  | nil => exact learns_pure found
  | cons place places ih =>
      unfold collect
      split
      · exact ih found
      · next step hstep =>
          exact (h step (List.mem_of_getElem? hstep)).bind fun a => ih _

/-- Steps that learn do so together, in any order. -/
theorem learns_perform {steps : List (Inferring Unit)} (h : ∀ step ∈ steps, Learns names step)
    (places : List Nat) : Learns names (perform steps places) :=
  (learns_collect h places _).bind fun _ => learns_pure ()

end Inferring

namespace Expr

variable {names : List String} {order : VisitOrder}

mutual
/-- Demand a kind of the value of a tree, in any order. -/
def demandIn (order : VisitOrder) : Expr → Kind → Inferring Unit
  | constant c, kind => (constant c).demand kind
  | parameter name, kind => (parameter name).demand kind
  | operation op arguments, kind =>
    .perform (demandDecidingIn order op.signature (passedDemand op.signature.returns kind) 0
      arguments) (order.places arguments)

/-- The demand on each operand that the kind of the result comes from, from an index on. -/
def demandDecidingIn (order : VisitOrder) (signature : Signature) (kind : Kind) (index : Nat) :
    List Expr → List (Inferring Unit)
  | [] => []
  | argument :: arguments =>
    (if signature.decidesResult index then demandIn order argument kind else return ()) ::
      demandDecidingIn order signature kind (index + 1) arguments
end

/-- Demand of a tree the kind that stands at its place, if one does. -/
def demandAnyIn (order : VisitOrder) : Expr × Option Kind → Inferring Unit
  | (tree, some kind) => tree.demandIn order kind
  | (_, none) => return ()

/-- What the signature of an operation makes of the kinds of its operands: the demands on them,
which are made in any order, and the kind of the result. -/
def resolveIn (order : VisitOrder) (op : Operation) (arguments : List Expr)
    (kinds : List (Option Kind)) : Inferring (Option Kind) :=
  match op.signature.resolve kinds with
  | .error fault => throw (.typeConflict (.operands op.name fault))
  | .ok resolution => do
    .perform ((arguments.zip resolution.demands).map (demandAnyIn order)) (order.places arguments)
    return resolution.returns

mutual
/-- The kind of the value of a tree after one walk over it, in any order. -/
def inferIn (order : VisitOrder) : Expr → Inferring (Option Kind)
  | constant c => (constant c).infer
  | parameter name => (parameter name).infer
  | operation op arguments => do
    let kinds ← .collect (inferAllIn order arguments) (order.places arguments)
      (arguments.map fun _ => none)
    resolveIn order op arguments kinds

/-- The walk over each of several trees. -/
def inferAllIn (order : VisitOrder) : List Expr → List (Inferring (Option Kind))
  | [] => []
  | argument :: arguments => inferIn order argument :: inferAllIn order arguments
end

/-- The demands on the operands are made one by one. -/
theorem demandDecidingIn_eq (signature : Signature) (kind : Kind) (index : Nat)
    (arguments : List Expr) :
    demandDecidingIn order signature kind index arguments =
      (arguments.zipIdx index).map fun (argument, place) =>
        if signature.decidesResult place then argument.demandIn order kind else return () := by
  induction arguments generalizing index with
  | nil => rfl
  | cons argument arguments ih =>
      rw [demandDecidingIn, ih, List.zipIdx_cons, List.map_cons]

theorem inferAllIn_eq (arguments : List Expr) :
    inferAllIn order arguments = arguments.map (inferIn order) := by
  induction arguments with
  | nil => rfl
  | cons argument arguments ih => rw [inferAllIn, ih, List.map_cons]

@[simp] theorem length_demandDecidingIn (signature : Signature) (kind : Kind) (index : Nat)
    (arguments : List Expr) :
    (demandDecidingIn order signature kind index arguments).length = arguments.length := by
  rw [demandDecidingIn_eq, List.length_map, List.length_zipIdx]

/-- What holds of doing nothing, and of the demands on the operands that decide the kind of the
result, holds of all steps. -/
theorem forall_demandDecidingIn {P : Inferring Unit → Prop} {arguments : List Expr}
    {signature : Signature} {kind : Kind} (hskip : P (return ()))
    (hdemand : ∀ (place : Nat) (argument : Expr), arguments[place]? = some argument →
      signature.decidesResult place = true → P (argument.demandIn order kind)) :
    ∀ step ∈ demandDecidingIn order signature kind 0 arguments, P step := by
  rw [demandDecidingIn_eq]
  intro step hstep
  obtain ⟨⟨argument, place⟩, hmem, rfl⟩ := List.mem_map.mp hstep
  show P (if signature.decidesResult place then _ else _)
  split
  · next hdecides => exact hdemand place argument (List.mem_zipIdx_iff_getElem?.mp hmem) hdecides
  · exact hskip

/-- What holds of doing nothing, and of the demands on the operands, holds of all steps. -/
theorem forall_demandAnyIn {P : Inferring Unit → Prop} {arguments : List Expr}
    {demands : List (Option Kind)} (hskip : P (return ()))
    (hdemand : ∀ (argument : Expr) (kind : Kind), (argument, some kind) ∈ arguments.zip demands →
      P (argument.demandIn order kind)) :
    ∀ step ∈ (arguments.zip demands).map (demandAnyIn order), P step := by
  intro step hstep
  obtain ⟨⟨argument, demand⟩, hmem, rfl⟩ := List.mem_map.mp hstep
  cases demand with
  | none => exact hskip
  | some kind => exact hdemand argument kind hmem

theorem demandIn_constant {c : Constant} {kind : Kind} (h : c.kind.standsFor kind = true) :
    (constant c).demandIn order kind = return () := by
  rw [demandIn, demand, if_pos h]

/-- What is demanded of a parameter constrains it. -/
theorem demandIn_parameter {name : String} {kind : Kind} {parameters learned : Parameters} :
    (parameter name).demandIn order kind parameters = .ok ((), learned) ↔
      parameters.constrain name kind = .ok learned := by
  unfold demandIn demand
  constructor
  · intro h
    cases hconstrain : parameters.constrain name kind with
    | error fault =>
        rw [hconstrain] at h
        cases h
    | ok other =>
        rw [hconstrain] at h
        cases h
        rfl
  · intro h
    rw [h]
    rfl

/-- A demand on a tree learns. -/
theorem learns_demandIn {tree : Expr} (hnames : tree.parameterNames ⊆ names) (kind : Kind) :
    Inferring.Learns names (tree.demandIn order kind) := by
  induction tree using Expr.induction generalizing kind with
  | constant c =>
      unfold demandIn demand
      split
      · exact Inferring.learns_pure ()
      · exact Inferring.learns_throw _
  | parameter name =>
      rintro parameters ⟨⟨⟩, learned⟩ hparameters hresult
      exact Parameters.learned_constrain (hparameters (hnames (.head _)))
        (demandIn_parameter.mp hresult)
  | operation op arguments ih =>
      unfold demandIn
      refine Inferring.learns_perform (forall_demandDecidingIn (Inferring.learns_pure ()) ?_) _
      intro place argument hargument _
      have hmem := List.mem_of_getElem? hargument
      exact ih argument hmem (List.Subset.trans (names_of_mem hmem) hnames) _

theorem learns_demandAnyIn {arguments : List Expr}
    (harguments : parameterNamesOfAll arguments ⊆ names) {demands : List (Option Kind)} :
    ∀ step ∈ (arguments.zip demands).map (demandAnyIn order), Inferring.Learns names step := by
  refine forall_demandAnyIn (Inferring.learns_pure ()) fun argument kind hmem => ?_
  exact learns_demandIn (List.Subset.trans (names_of_mem (List.of_mem_zip hmem).1) harguments) kind

/-- What an operation makes of the kinds of its operands is learned. -/
theorem learns_resolveIn {arguments : List Expr}
    (harguments : parameterNamesOfAll arguments ⊆ names) (op : Operation)
    (kinds : List (Option Kind)) : Inferring.Learns names (resolveIn order op arguments kinds) := by
  unfold resolveIn
  split
  · exact Inferring.learns_throw _
  · exact (Inferring.learns_perform (learns_demandAnyIn harguments) _).bind fun _ =>
      Inferring.learns_pure _

theorem learns_inferAllIn {arguments : List Expr}
    (h : ∀ argument ∈ arguments, Inferring.Learns names (argument.inferIn order)) :
    ∀ step ∈ inferAllIn order arguments, Inferring.Learns names step := by
  rw [inferAllIn_eq]
  intro step hstep
  obtain ⟨argument, hmem, rfl⟩ := List.mem_map.mp hstep
  exact h argument hmem

/-- A walk over a tree learns. -/
theorem learns_inferIn {tree : Expr} (hnames : tree.parameterNames ⊆ names) :
    Inferring.Learns names (tree.inferIn order) := by
  induction tree using Expr.induction with
  | constant c => exact Inferring.learns_pure _
  | parameter name =>
      intro parameters result _ hresult
      cases hresult
      exact .refl parameters
  | operation op arguments ih =>
      unfold inferIn
      refine (Inferring.learns_collect (learns_inferAllIn ?_) _ _).bind (learns_resolveIn hnames op)
      intro argument hmem
      exact ih argument hmem (List.Subset.trans (names_of_mem hmem) hnames)

/-- Demanding from left to right is demanding in that order. -/
theorem demand_eq (tree : Expr) (kind : Kind) :
    tree.demand kind = tree.demandIn .leftToRight kind := by
  induction tree using Expr.induction generalizing kind with
  | constant c => rw [demandIn]
  | parameter name => rw [demandIn]
  | operation op arguments ih =>
      have hdeciding (kind : Kind) (index : Nat) :
          demandDeciding op.signature kind index arguments = do
            let _ ← (demandDecidingIn .leftToRight op.signature kind index arguments).mapM id
            return () := by
        induction arguments generalizing index with
        | nil => rfl
        | cons argument arguments ihArguments =>
            rw [List.forall_mem_cons] at ih
            rw [demandDeciding, demandDecidingIn, ih.1, ihArguments ih.2]
            by_cases hdecides : op.signature.decidesResult index <;>
              simp [hdecides, List.mapM_cons]
      have hrange : VisitOrder.leftToRight.places arguments = List.range arguments.length := rfl
      rw [demand, hdeciding, demandIn, Inferring.perform, hrange,
        Inferring.collect_range (by simp) (Nat.le_of_eq (length_demandDecidingIn _ _ _ _))]

/-- Demanding of each tree from left to right is demanding in that order. -/
theorem demandEach_eq (arguments : List Expr) (demands : List (Option Kind)) :
    demandEach arguments demands =
      .perform ((arguments.zip demands).map (demandAnyIn .leftToRight))
        (List.range arguments.length) := by
  have hlength : ((arguments.zip demands).map (demandAnyIn .leftToRight)).length ≤
      arguments.length := by
    rw [List.length_map, List.length_zip]
    exact Nat.min_le_left _ _
  rw [Inferring.perform, Inferring.collect_range (by simp) hlength]
  fun_induction demandEach arguments demands with
  | case1 argument arguments kind demands ih =>
      simp [ih, demand_eq, demandAnyIn, List.mapM_cons]
  | case2 argument arguments demands ih => simp [ih, demandAnyIn, List.mapM_cons]
  | case3 arguments demands hsome hnone =>
      cases arguments with
      | nil => rfl
      | cons argument arguments =>
          cases demands with
          | nil => rfl
          | cons demand demands =>
              cases demand with
              | none => exact absurd rfl (hnone _ _ _ rfl)
              | some kind => exact absurd rfl (hsome _ _ _ _ rfl)

/-- Walking from left to right is walking in that order. -/
theorem infer_eq (tree : Expr) : tree.infer = tree.inferIn .leftToRight := by
  induction tree using Expr.induction with
  | constant c => rw [inferIn]
  | parameter name => rw [inferIn]
  | operation op arguments ih =>
      have hall : inferAll arguments = (inferAllIn .leftToRight arguments).mapM id := by
        induction arguments with
        | nil => rfl
        | cons argument arguments ihArguments =>
            rw [List.forall_mem_cons] at ih
            rw [inferAll, ih.1, ihArguments ih.2, inferAllIn, List.mapM_cons]
            rfl
      have hlength : (inferAllIn .leftToRight arguments).length = arguments.length := by
        rw [inferAllIn_eq, List.length_map]
      have hrange : VisitOrder.leftToRight.places arguments = List.range arguments.length := rfl
      rw [infer, hall, inferIn, hrange,
        Inferring.collect_range (by simp [hlength]) (Nat.le_of_eq hlength)]
      simp only [demandEach_eq]
      rfl

/-- All that the tree teaches about its parameters, when it is walked over in some order. -/
def inferKindsIn (order : VisitOrder) (tree : Expr) (parameters : Parameters) :
    Except CompileError Parameters :=
  (tree.inferIn order).settle (2 * parameters.size + 3 * tree.parameterNames.length + 1) parameters

/-- Inferring from left to right is inferring in that order. -/
theorem inferKinds_eq (tree : Expr) (parameters : Parameters) :
    tree.inferKinds parameters = tree.inferKindsIn .leftToRight parameters := by
  have hwithin (walks : Nat) (parameters : Parameters) :
      tree.inferWithin walks parameters = tree.infer.settle walks parameters := by
    induction walks generalizing parameters with
    | zero => rfl
    | succ walks ih => simp only [inferWithin, Inferring.settle, ih]
  rw [inferKinds, inferKindsIn, hwithin, infer_eq]

end Expr

end Reckon
