import Reckon.Proofs.Typing.Orders

/-!
# Inference ends by itself

`Expr.inferWithin` takes a bound on its walks, but it is not the bound that stops it. A walk that
learns something narrows a state, and no state is widened again, so there comes a walk that learns
nothing. The next one would learn nothing either: what inference ends with is stable
(`Expr.inferKinds_terminates`).
-/

namespace Reckon

namespace Inferring

/-- Repeating a walk until one learns nothing ends with this result, after so many walks. The one
that learns nothing counts, and so does one that fails. -/
inductive Settles {α : Type} (walk : Inferring α) :
    Parameters → Nat → Except CompileError Parameters → Prop
  | failed {parameters : Parameters} {fault : CompileError} (h : walk parameters = .error fault) :
      Settles walk parameters 1 (.error fault)
  | last {parameters learned : Parameters} {a : α} (h : walk parameters = .ok (a, learned))
      (hsame : learned.changes = parameters.changes) : Settles walk parameters 1 (.ok learned)
  | more {parameters learned : Parameters} {a : α} {walks : Nat}
      {result : Except CompileError Parameters} (h : walk parameters = .ok (a, learned))
      (hchanged : learned.changes ≠ parameters.changes)
      (hrest : Settles walk learned walks result) : Settles walk parameters (walks + 1) result

variable {α : Type} {names : List String} {walk : Inferring α} {parameters learned : Parameters}
  {walks bound : Nat} {result : Except CompileError Parameters}

/-- A bound that the walks do not exceed changes nothing. -/
theorem Settles.settle_eq (h : Settles walk parameters walks result) (hbound : walks ≤ bound) :
    walk.settle bound parameters = result := by
  induction h generalizing bound with
  | failed h =>
      obtain ⟨bound, rfl⟩ := Nat.exists_eq_add_of_le' hbound
      rw [settle, h]
      rfl
  | last h hsame =>
      obtain ⟨bound, rfl⟩ := Nat.exists_eq_add_of_le' hbound
      rw [settle, h]
      exact if_pos hsame
  | more h hchanged _ ih =>
      obtain ⟨bound, rfl⟩ := Nat.exists_eq_add_of_le' (Nat.le_of_add_left_le hbound)
      rw [settle, h]
      exact (if_neg hchanged).trans (ih (by omega))

/-- Repeating a walk ends, after at most one walk more than states can be narrowed. -/
theorem exists_settles (hwalk : Learns names walk) (hparameters : names ⊆ parameters.names) :
    ∃ walks ≤ parameters.openness + 1, ∃ result, Settles walk parameters walks result := by
  induction hopen : parameters.openness using Nat.strongRecOn generalizing parameters with
  | _ opened ih =>
      cases hfirst : walk parameters with
      | error fault => exact ⟨1, by omega, .error fault, .failed hfirst⟩
      | ok outcome =>
          obtain ⟨a, learned⟩ := outcome
          have hlearned := hwalk _ _ hparameters hfirst
          by_cases hsame : learned.changes = parameters.changes
          · exact ⟨1, by omega, .ok learned, .last hfirst hsame⟩
          · have hmore := hlearned.changes
            have hpaid := hlearned.openness
            have hless : learned.openness < opened := by
              simp only at hmore hpaid
              omega
            obtain ⟨walks, hwalks, result, hrest⟩ :=
              ih _ hless (hlearned.names ▸ hparameters) rfl
            exact ⟨walks + 1, by omega, result, .more hfirst hsame hrest⟩

/-- What the walks end with has been learned, and the next walk would learn nothing. -/
theorem Settles.stable (h : Settles walk parameters walks (.ok learned))
    (hwalk : Learns names walk) (hparameters : names ⊆ parameters.names) :
    parameters.Learned learned ∧ ∃ a, walk learned = .ok (a, learned) := by
  generalize hresult : (Except.ok learned : Except CompileError Parameters) = result at h
  induction h with
  | failed => cases hresult
  | @last parameters _ a h hsame =>
      cases hresult
      have hlearned := hwalk _ _ hparameters h
      obtain rfl := hlearned.eq_of_changes hsame
      exact ⟨.refl learned, a, h⟩
  | more h _ _ ih =>
      have hlearned := hwalk _ _ hparameters h
      obtain ⟨hlast, hsettled⟩ := ih (hlearned.names ▸ hparameters) hresult
      exact ⟨hlearned.trans hlast, hsettled⟩

end Inferring

namespace Expr

variable {tree : Expr} {parameters : Parameters}

/-- The walks of inference end, in any order of visits, before its bound. -/
theorem exists_settles_inferIn (order : VisitOrder) (hnames : tree.Advertised parameters) :
    ∃ walks ≤ 2 * parameters.size + 1, ∃ result,
      (tree.inferIn order).Settles parameters walks result ∧
        tree.inferKindsIn order parameters = result := by
  obtain ⟨walks, hwalks, result, hsettles⟩ :=
    Inferring.exists_settles (learns_inferIn (List.Subset.refl _)) hnames
  have hopen := parameters.openness_le
  exact ⟨walks, by omega, result, hsettles, hsettles.settle_eq (by omega)⟩

/-- Where inference ends, the next walk would learn nothing. -/
theorem settled_of_inferKinds {order : VisitOrder} {learned : Parameters}
    (hnames : tree.Advertised parameters) (h : tree.inferKindsIn order parameters = .ok learned) :
    parameters.Learned learned ∧ ∃ kind, tree.inferIn order learned = .ok (kind, learned) := by
  obtain ⟨walks, -, result, hsettles, hresult⟩ := exists_settles_inferIn order hnames
  obtain rfl := hresult.symm.trans h
  exact hsettles.stable (learns_inferIn (List.Subset.refl _)) hnames

/-- Inference ends, for every tree and whatever is already known of the parameters. Walks are
repeated without a bound until one fails or learns nothing, and there are at most two for each
parameter and one more. Where they end without an error, another inference takes a single walk and
leaves all parameters as they are, with their states, their slots and the count of their changes. -/
theorem inferKinds_terminates (hnames : tree.Advertised parameters) :
    ∃ walks ≤ 2 * parameters.size + 1, ∃ result,
      tree.infer.Settles parameters walks result ∧ tree.inferKinds parameters = result ∧
        ∀ learned, result = .ok learned →
          tree.infer.Settles learned 1 (.ok learned) ∧ tree.inferKinds learned = .ok learned := by
  rw [infer_eq, inferKinds_eq]
  obtain ⟨walks, hwalks, result, hsettles, hresult⟩ :=
    exists_settles_inferIn .leftToRight hnames
  refine ⟨walks, hwalks, result, hsettles, hresult, ?_⟩
  rintro learned rfl
  obtain ⟨-, kind, hsettled⟩ := settled_of_inferKinds hnames hresult
  have hstable : (tree.inferIn .leftToRight).Settles learned 1 (.ok learned) := .last hsettled rfl
  rw [inferKinds_eq]
  exact ⟨hstable, hstable.settle_eq (Nat.le_add_left _ _)⟩

/-- A comparison of two parameters, and then of the second one with a number: the first one learns
its kind from the second one on a later walk. -/
theorem inferKinds_terminates_chain :
    let tree := operation (.binary .and)
      [operation (.binary .equal) [parameter "x", parameter "y"],
        operation (.binary .equal) [parameter "y", constant (.computed (.integer 1))]]
    let start := Parameters.empty.mentionAll ["x", "y"]
    let learned : Parameters := ⟨[("x", some .number), ("y", some .number)], 4⟩
    tree.Advertised start ∧
      (∃ walks ≤ 5, tree.infer.Settles start walks (.ok learned)) ∧
      tree.inferKinds learned = .ok learned := by
  intro tree start learned
  have hnames : tree.Advertised start := by
    unfold Advertised
    decide
  have hlearned : tree.inferKinds start = .ok learned := rfl
  obtain ⟨walks, hwalks, result, hsettles, hresult, hstable⟩ := inferKinds_terminates hnames
  obtain rfl := hresult.symm.trans hlearned
  exact ⟨hnames, ⟨walks, hwalks, hsettles⟩, (hstable learned rfl).2⟩

end Expr

end Reckon
