import Reckon.Node.Evaluate
import Reckon.Proofs.Evaluation.Functions
import Reckon.Proofs.Fallible

/-!
# Operation nodes as functions of their children's evaluations

`Node.evaluate` recurses through a tree. `Node.combine` is the part of it that one operation
contributes: it takes the evaluations of the children and runs those that the operation needs. So
`evaluate_operation` turns questions about subtrees into questions about evaluations, and what is
shown here about `combine` (on known values it is the operation itself; on typed evaluations it
yields the node's kind) is used by every proof that recurses over trees.
-/

namespace Reckon

open List (Forall₂)

/-- A function of the language; whatever it draws may be replaced by any other draws. -/
inductive Callable.IsStandard : Callable → Prop where
  | listed {function : Callable} (h : function ∈ Callable.standard) : IsStandard function
  | redrawn {function : Callable} {compute : List Value → Eval Value}
      (h : function ∈ Callable.standard) (hbody : function.body = .volatile compute)
      (other : List Value → Eval Value) : IsStandard { function with body := .volatile other }

namespace Operation

/-- An operator, or a call of a function of the language. -/
def IsStandard : Operation → Prop
  | .unary _ | .binary _ => True
  | .call function => function.IsStandard

/-- The operation keeps the promise of its signature, whatever it draws. -/
def KeepsPromise (op : Operation) : Prop :=
  ∀ groupClass operands, op.signature.Takes groupClass operands →
    Eval.Yields (op.signature.Promises groupClass operands) (op.evaluate operands)

/-- A function that keeps its promise does so as an operation. -/
theorem keepsPromise_call {function : Callable} (h : function.KeepsPromise) :
    (call function).KeepsPromise := by
  intro groupClass operands htakes
  have hlength : operands.length = function.arity := htakes.operands.length_eq.symm
  show Eval.Yields _ (function.evaluate operands)
  unfold Callable.evaluate
  rw [if_pos hlength]
  exact h groupClass operands htakes

theorem keepsPromise_unary (operator : UnaryOperator) : (unary operator).KeepsPromise := by
  intro groupClass operands htakes
  match operands, htakes.operands.length_eq with
  | [operand], _ => exact Eval.yields_ofExcept.mpr (operator.yields_apply htakes)
  | [], h | _ :: _ :: _, h =>
      cases operator <;> simp [signature, UnaryOperator.signature, Signature.fixed] at h

theorem keepsPromise_binary (operator : BinaryOperator) : (binary operator).KeepsPromise := by
  intro groupClass operands htakes
  match operands, htakes.operands.length_eq with
  | [left, right], _ => exact Eval.yields_ofExcept.mpr (operator.yields_apply htakes)
  | [], h | [_], h | _ :: _ :: _ :: _, h =>
      cases operator <;>
        simp [signature, BinaryOperator.signature, BinaryOperator.paired, Signature.fixed] at h

/-- An operation that may be folded has a result on any operands, without a draw, and folds to the
value of that result. -/
theorem exists_result {op : Operation} (hop : op.isDeterministic = true) (operands : List Value) :
    ∃ result : Except EvalError Value,
      op.evaluate operands = Eval.ofExcept result ∧ op.fold? operands = result.toOption := by
  match op, operands, hop with
  | .unary _, [_], _ => exact ⟨_, rfl, rfl⟩
  | .unary _, [], _ | .unary _, _ :: _ :: _, _ => exact ⟨_, rfl, rfl⟩
  | .binary _, [_, _], _ => exact ⟨_, rfl, rfl⟩
  | .binary _, [], _ | .binary _, [_], _ | .binary _, _ :: _ :: _ :: _, _ => exact ⟨_, rfl, rfl⟩
  | .call ⟨_, _, .volatile _, _⟩, operands, hop => cases hop
  | .call ⟨_, signature, .deterministic _, _⟩, operands, _
  | .call ⟨_, signature, .conditional, _⟩, operands, _ =>
      simp only [evaluate, fold?, Callable.evaluate, Callable.run, Callable.fold?]
      split
      · exact ⟨_, rfl, rfl⟩
      · exact ⟨_, rfl, rfl⟩

theorem isDeterministic_of_fold {op : Operation} {operands : List Value} {value : Value}
    (h : op.fold? operands = some value) : op.isDeterministic = true := by
  match op, h with
  | .unary _, _ | .binary _, _ => rfl
  | .call ⟨_, _, .deterministic _, _⟩, _ | .call ⟨_, _, .conditional, _⟩, _ => rfl
  | .call ⟨_, _, .volatile _, _⟩, h => cases (Option.ite_none_right_eq_some.mp h).2

theorem evaluate_of_fold {op : Operation} {operands : List Value} {value : Value}
    (h : op.fold? operands = some value) : op.evaluate operands = pure value := by
  obtain ⟨result, hevaluate, hfold⟩ := exists_result (isDeterministic_of_fold h) operands
  rw [hevaluate, toOption_eq_some.mp (hfold.symm.trans h), Eval.ofExcept_ok]

/-- A standard operation that folds keeps its promise: what may be replaced draws, and never
folds. -/
theorem keepsPromise_of_fold {op : Operation} (hop : op.IsStandard) {operands : List Value}
    {value : Value} (h : op.fold? operands = some value) : op.KeepsPromise := by
  cases op with
  | unary operator => exact keepsPromise_unary operator
  | binary operator => exact keepsPromise_binary operator
  | call function =>
      cases hop with
      | listed hlisted => exact keepsPromise_call (Callable.keepsPromise_standard _ hlisted)
      | redrawn hlisted hbody other => cases (Option.ite_none_right_eq_some.mp h).2

/-- What a standard operation folds to is what its signature promises. -/
theorem promises_of_fold {op : Operation} (hop : op.IsStandard) {groupClass : Option KindClass}
    {operands : List Value} {value : Value} (htakes : op.signature.Takes groupClass operands)
    (h : op.fold? operands = some value) : op.signature.Promises groupClass operands value := by
  have hyields := keepsPromise_of_fold hop h groupClass operands htakes ⟨fun _ => 0, 0⟩
  rw [evaluate_of_fold h] at hyields
  cases hyields with
  | ok hpromise => exact hpromise

end Operation

namespace Node

/-- What an operation does with the evaluations of its children: `and`, `or` and a conditional run
those that they need, and any other operation runs all of them in order. -/
def combine (op : Operation) (children : List (Eval Value)) : Eval Value :=
  match op, children with
  | .binary .and, [left, right] => do
    if ← Eval.ofExcept (← left).expectBool then
      return .boolean (← Eval.ofExcept (← right).expectBool)
    else
      return .boolean false
  | .binary .or, [left, right] => do
    if ← Eval.ofExcept (← left).expectBool then
      return .boolean true
    else
      return .boolean (← Eval.ofExcept (← right).expectBool)
  | .call ⟨_, _, .conditional, _⟩, [condition, yes, no] => do
    if ← Eval.ofExcept (← condition).expectBool then yes else no
  | .call ⟨_, _, .conditional, _⟩, children =>
      throw (.invalidArgument (.branchCount children.length))
  | op, children => do op.evaluate (← children.mapM id)

theorem evaluateAll_eq (frame : List Value) (children : List Node) :
    evaluateAll frame children = (children.map (evaluate frame)).mapM id := by
  induction children with
  | nil => simp [evaluateAll]
  | cons child children ih => simp [evaluateAll, ih]

/-- An operation that is not lazy runs all of its children. -/
theorem combine_eager {op : Operation} {children : List (Eval Value)}
    (hand : ∀ left right, op = .binary .and → children = [left, right] → False)
    (hor : ∀ left right, op = .binary .or → children = [left, right] → False)
    (hconditional : ∀ names signature variadic,
      op = .call ⟨names, signature, .conditional, variadic⟩ → False) :
    combine op children = (do op.evaluate (← children.mapM id)) := by
  unfold combine
  split
  · exact (hand _ _ rfl rfl).elim
  · exact (hor _ _ rfl rfl).elim
  · exact (hconditional _ _ _ rfl).elim
  · exact (hconditional _ _ _ rfl).elim
  · rfl

/-- An operation node combines the evaluations of its children, and widens the result. -/
theorem evaluate_operation (frame : List Value) (op : Operation) (children : List Node)
    (kind : Kind) :
    evaluate frame (operation op children kind) =
      widen kind <$> combine op (children.map (evaluate frame)) := by
  unfold evaluate
  split
  · next h => cases h
  · next h => cases h
  · next h =>
      cases h
      simp only [combine, List.map_cons, List.map_nil, map_bind]
      refine bind_congr fun value => bind_congr ?_
      intro b
      cases b <;> simp
  · next h =>
      cases h
      simp only [combine, List.map_cons, List.map_nil, map_bind]
      refine bind_congr fun value => bind_congr ?_
      intro b
      cases b <;> simp
  · next h =>
      cases h
      split
      · simp only [combine, List.map_cons, List.map_nil, map_bind]
        refine bind_congr fun value => bind_congr ?_
        intro b
        cases b <;> simp
      · next hthree =>
          match children, hthree with
          | [_, _, _], hthree => exact (hthree _ _ _ rfl).elim
          | [], _ | [_], _ | [_, _], _ => rfl
          | _ :: _ :: _ :: _ :: _, _ =>
              simp only [List.map_cons, combine, List.length_cons, List.length_map]
              rfl
  · next hand hor hconditional h =>
      cases h
      rw [combine_eager]
      · simp [evaluateAll_eq]
      · intro left right hop hmap
        obtain ⟨a, rest, rfl, -, hrest⟩ := List.map_eq_cons_iff.mp hmap
        obtain ⟨b, rest, rfl, -, hrest⟩ := List.map_eq_cons_iff.mp hrest
        exact hand a b hop (by rw [List.map_eq_nil_iff.mp hrest])
      · intro left right hop hmap
        obtain ⟨a, rest, rfl, -, hrest⟩ := List.map_eq_cons_iff.mp hmap
        obtain ⟨b, rest, rfl, -, hrest⟩ := List.map_eq_cons_iff.mp hrest
        exact hor a b hop (by rw [List.map_eq_nil_iff.mp hrest])
      · exact hconditional

theorem mapM_pure (values : List Value) :
    (values.map pure : List (Eval Value)).mapM id = pure values := by
  induction values with
  | nil => rfl
  | cons value values ih => simp [ih]

/-- On known values an operation is its value on them, unless it is a conditional: those that need
not run all their operands look at them in the same order. -/
theorem combine_pure {op : Operation}
    (hconditional : ∀ names signature variadic,
      op ≠ .call ⟨names, signature, .conditional, variadic⟩) (operands : List Value) :
    combine op (operands.map pure) = op.evaluate operands := by
  by_cases hlazy : (op = .binary .and ∨ op = .binary .or) ∧ ∃ left right, operands = [left, right]
  · obtain ⟨hop, left, right, rfl⟩ := hlazy
    cases left with
    | boolean a => rcases hop with rfl | rfl <;> cases a <;> cases right <;> rfl
    | integer | float | string | byteArray => rcases hop with rfl | rfl <;> rfl
  · have hpair {left right : Eval Value} (hop : op = .binary .and ∨ op = .binary .or)
        (hmap : operands.map pure = [left, right]) : False := by
      match operands, hmap with
      | [a, b], _ => exact hlazy ⟨hop, a, b, rfl⟩
    rw [combine_eager (fun _ _ hop => hpair (.inl hop)) (fun _ _ hop => hpair (.inr hop))
      hconditional, mapM_pure, pure_bind]

/-- On known values an operation that folds is the folded value. -/
theorem combine_of_fold {op : Operation} {operands : List Value} {value : Value}
    (h : op.fold? operands = some value) : combine op (operands.map pure) = pure value := by
  have hpure (hconditional : ∀ names signature variadic,
      op ≠ .call ⟨names, signature, .conditional, variadic⟩) :
      combine op (operands.map pure) = pure value := by
    rw [combine_pure hconditional, Operation.evaluate_of_fold h]
  match op, h, hpure with
  | .unary _, _, hpure | .binary _, _, hpure => exact hpure nofun
  | .call ⟨_, _, .deterministic _, _⟩, _, hpure => exact hpure nofun
  | .call ⟨_, _, .volatile _, _⟩, h, _ => cases (Option.ite_none_right_eq_some.mp h).2
  | .call ⟨_, _, .conditional, _⟩, h, _ =>
      have hchoose := toOption_eq_some.mp (Option.ite_none_right_eq_some.mp h).2
      match operands, hchoose with
      | [condition, yes, no], hchoose =>
          cases condition with
          | boolean b => cases b <;> cases hchoose <;> rfl
          | integer | float | string | byteArray => cases hchoose

/-- Trees of some kinds have values of these kinds. -/
theorem yields_mapM {children : List (Eval Value)} {kinds : List Kind}
    (h : Forall₂ (fun child kind => Eval.Yields (·.HasKind kind) child) children kinds) :
    Eval.Yields (Forall₂ Value.HasKind · kinds) (children.mapM id) := by
  induction h with
  | nil => exact Eval.yields_pure .nil
  | cons hchild _ ih =>
      rw [List.mapM_cons]
      refine hchild.bind ?_
      intro value hvalue
      exact ih.bind fun values hvalues => Eval.yields_pure (.cons hvalue hvalues)

/-- A conditional that keeps its promise decides on a truth value and promises the chosen branch. -/
theorem promises_branch {names : List String} {signature : Signature} {variadic : Bool}
    (hop : (Operation.call ⟨names, signature, .conditional, variadic⟩).KeepsPromise)
    {groupClass : Option KindClass} {condition yes no : Value}
    (htakes : signature.Takes groupClass [condition, yes, no]) :
    ∃ b, condition = .boolean b ∧
      signature.Promises groupClass [condition, yes, no] (if b then yes else no) := by
  have hyields := hop groupClass _ htakes
  have hlength : [condition, yes, no].length = signature.arity := htakes.operands.length_eq.symm
  have hchoose : Operation.evaluate (.call ⟨names, signature, .conditional, variadic⟩)
      [condition, yes, no] = Eval.ofExcept (Strict.choose [condition, yes, no]) :=
    if_pos hlength
  rw [hchoose, Eval.yields_ofExcept] at hyields
  cases condition with
  | boolean b =>
      cases hyields with
      | ok hpromise => exact ⟨b, rfl, hpromise⟩
  | integer | float | string | byteArray =>
      cases hyields with
      | error h => cases h

/-- The check of a connective accepts truth values only, and returns their kind. -/
theorem boolean_of_returnKind {kinds : List Kind} {kind : Kind}
    (h : (Signature.fixed [.boolean, .boolean] .boolean).returnKind kinds = .ok kind) :
    kinds = [.boolean, .boolean] ∧ kind = .boolean := by
  have hboolean {k : Kind} (hk : k.standsFor .boolean = true) : k = .boolean := by
    cases k with
    | boolean => rfl
    | numeric mode => cases mode <;> cases hk
    | string | byteArray => cases hk
  obtain ⟨_, hadmits, -, rfl⟩ := Signature.returnKind_eq_ok h
  cases hadmits with
  | cons hleft hadmits =>
      cases hadmits with
      | cons hright hadmits =>
          cases hadmits
          exact ⟨by rw [hboolean hleft, hboolean hright], rfl⟩

/-- Truth values under a connective yield a truth value. -/
theorem yields_connective {operator : BinaryOperator}
    (hoperator : operator = .and ∨ operator = .or) {left right : Eval Value}
    (hleft : Eval.Yields (·.HasKind .boolean) left)
    (hright : Eval.Yields (·.HasKind .boolean) right) :
    Eval.Yields (·.HasKind .boolean) (combine (.binary operator) [left, right]) := by
  have hvalue : Eval.Yields (·.HasKind .boolean)
      (do return Value.boolean (← Eval.ofExcept (← right).expectBool)) := by
    refine hright.bind ?_
    intro b hb
    cases hb with
    | boolean b => exact Eval.yields_pure (.boolean b)
  rcases hoperator with rfl | rfl
  · refine hleft.bind ?_
    intro a ha
    cases ha with
    | boolean a =>
        cases a with
        | false => exact Eval.yields_pure (.boolean false)
        | true => exact hvalue
  · refine hleft.bind ?_
    intro a ha
    cases ha with
    | boolean a =>
        cases a with
        | false => exact hvalue
        | true => exact Eval.yields_pure (.boolean true)

/-- Typed evaluations under an operation that keeps its promise yield, after widening, the kind that
its signature returned for them. A branch that is not run is stood in for by any value of its
kind. -/
theorem yields_combine {op : Operation} (hop : op.KeepsPromise) {kinds : List Kind} {kind : Kind}
    (hcheck : op.signature.returnKind kinds = .ok kind) {children : List (Eval Value)}
    (hchildren : Forall₂ (fun child kind => Eval.Yields (·.HasKind kind) child) children kinds) :
    Eval.Yields (fun value => (widen kind value).HasKind kind) (combine op children) := by
  have hconnective {operator : BinaryOperator} (hoperator : operator = .and ∨ operator = .or)
      (hop : op = .binary operator) {left right : Eval Value} (hpair : children = [left, right]) :
      Eval.Yields (fun value => (widen kind value).HasKind kind)
        (combine (.binary operator) [left, right]) := by
    subst hop hpair
    obtain ⟨rfl, rfl⟩ : kinds = [.boolean, .boolean] ∧ kind = .boolean := by
      rcases hoperator with rfl | rfl <;> exact boolean_of_returnKind hcheck
    cases hchildren with
    | cons hleft hrest =>
        cases hrest with
        | cons hright _ => exact (yields_connective hoperator hleft hright).mono fun _ h => h
  unfold combine
  split
  · exact hconnective (.inl rfl) rfl rfl
  · exact hconnective (.inr rfl) rfl rfl
  · next condition yes no =>
      obtain ⟨c, rest, hcondition, hrest, rfl⟩ := List.forall₂_cons_left_iff.mp hchildren
      obtain ⟨y, last, hyes, hlast, rfl⟩ := List.forall₂_cons_left_iff.mp hrest
      obtain ⟨n, none, hno, hnone, rfl⟩ := List.forall₂_cons_left_iff.mp hlast
      cases hnone
      -- Only one branch runs. For the other one any value of its kind is put in, so that the
      -- promise of the conditional applies.
      obtain ⟨anyYes, hanyYes⟩ := y.exists_hasKind
      obtain ⟨anyNo, hanyNo⟩ := n.exists_hasKind
      have hbranch {condition yes no : Value} (hcondition : condition.HasKind c)
          (hyes : yes.HasKind y) (hno : no.HasKind n) : ∃ b, condition = .boolean b ∧
            (widen kind (if b then yes else no)).HasKind kind := by
        obtain ⟨groupClass, htakes, hpromise⟩ :=
          Signature.exists_takes hcheck (.cons hcondition (.cons hyes (.cons hno .nil)))
        obtain ⟨b, hb, hchosen⟩ := promises_branch hop htakes
        exact ⟨b, hb, hpromise _ hchosen⟩
      refine hcondition.bind ?_
      intro value hvalue
      obtain ⟨b, rfl, -⟩ := hbranch hvalue hanyYes hanyNo
      cases b with
      | true =>
          refine hyes.mono ?_
          intro yes hyes
          obtain ⟨_, hb, hkind⟩ := hbranch hvalue hyes hanyNo
          cases hb
          exact hkind
      | false =>
          refine hno.mono ?_
          intro no hno
          obtain ⟨_, hb, hkind⟩ := hbranch hvalue hanyYes hno
          cases hb
          exact hkind
  · exact fun _ => .error trivial
  · refine (yields_mapM hchildren).bind ?_
    intro values hvalues
    obtain ⟨groupClass, htakes, hpromise⟩ := Signature.exists_takes hcheck hvalues
    exact (hop groupClass values htakes).mono hpromise

end Node

end Reckon
