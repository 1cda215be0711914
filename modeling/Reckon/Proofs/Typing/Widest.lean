import Reckon.Proofs.Typing.Agreement

/-!
# Inference finds the widest solution

A walk that starts with parameters no narrower than in some solution succeeds, and ends with
parameters no narrower than in it, in whatever order it visits operands. So inference, which starts
where nothing is known, ends with a solution that is wider than every other one:
`Expr.inferKinds_widest`.
-/

namespace Reckon

open List (Forall₂)

namespace Parameters

/-- The parameters have these names, and no more is known of them than in the assignment. -/
structure WiderThan (parameters : Parameters) (names : List String) (assignment : Parameters) :
    Prop where
  names : names ⊆ parameters.names
  kinds : ∀ name, Kind.Wider (parameters.kind? name) (assignment.kind? name)

/-- A demand that a kind meets does not contradict a wider state, nor narrow it any further. -/
theorem narrow_of_wider {state : Option Kind} {known kind : Kind}
    (hstate : Kind.Wider state (some known)) (h : known.Refines kind) :
    ∃ narrowed, narrow? state kind = some narrowed ∧ Kind.Wider (some narrowed) (some known) := by
  cases hstate with
  | unknown => exact ⟨kind, rfl, .known h⟩
  | @known current _ hcurrent =>
      cases hcurrent with
      | refl => exact ⟨known, narrow_eq_self.mpr h, .refl _⟩
      | number mode =>
          refine ⟨kind, narrow_some.mpr (.inr ⟨?_, rfl⟩), .known h⟩
          cases h with
          | refl => exact .number mode
          | number => exact .refl _

/-- A demand that is met in the assignment leaves wider parameters wider. -/
theorem WiderThan.constrain {names : List String} {assignment parameters : Parameters}
    (h : parameters.WiderThan names assignment) {name : String} (hname : name ∈ names)
    {known kind : Kind} (hknown : assignment.kind? name = some known)
    (hrefines : known.Refines kind) :
    ∃ learned, parameters.constrain name kind = .ok learned ∧
      learned.WiderThan names assignment := by
  obtain ⟨slot, hslot, hiff⟩ := constrain_eq (h.names hname) kind
  obtain ⟨narrowed, hnarrow, hwider⟩ := narrow_of_wider (hknown ▸ h.kinds name) hrefines
  refine ⟨_, (hiff _).mpr ⟨narrowed, hnarrow, rfl⟩, ?_, ?_⟩
  · rw [names_setState hslot]
    exact h.names
  · intro other
    rw [kind_setState hslot]
    by_cases hother : other = name
    · rw [if_pos hother, hother, hknown]
      exact hwider
    · rw [if_neg hother]
      exact h.kinds other

/-- A name that is mentioned is there, and so are those that were there before. -/
theorem mem_names_mention {parameters : Parameters} {name other : String} :
    other ∈ (parameters.mention name).names ↔ other = name ∨ other ∈ parameters.names := by
  rw [names_mention]
  by_cases hname : name ∈ parameters.names
  · rw [if_pos hname]
    constructor
    · exact .inr
    · rintro (rfl | hother)
      · exact hname
      · exact hother
  · rw [if_neg hname, List.mem_append, List.mem_singleton, or_comm]

/-- Names that are mentioned are there, and so are those that were there before. -/
theorem mem_names_mentionAll {parameters : Parameters} {names : List String} {other : String} :
    other ∈ (parameters.mentionAll names).names ↔ other ∈ names ∨ other ∈ parameters.names := by
  rw [names_mentionAll, List.mem_append, List.mem_eraseDups, List.removeAll, List.mem_filter]
  by_cases hother : other ∈ parameters.names
  · simp [hother]
  · simp [hother]

/-- Nothing is known of parameters that are only mentioned. -/
theorem state_mentionAll {parameters : Parameters}
    (h : ∀ entry ∈ parameters.entries, entry.2 = none) (names : List String) :
    ∀ entry ∈ (parameters.mentionAll names).entries, entry.2 = none := by
  induction names generalizing parameters with
  | nil => exact h
  | cons name names ih =>
      refine ih ?_
      unfold mention
      split
      · exact h
      · intro entry hentry
        rcases List.mem_append.mp hentry with hentry | hentry
        · exact h entry hentry
        · obtain rfl := List.mem_singleton.mp hentry
          rfl

/-- Parameters that are only mentioned are wider than in any assignment. -/
theorem widerThan_mentionAll (names : List String) (assignment : Parameters) :
    (empty.mentionAll names).WiderThan names assignment where
  names _ hname := mem_names_mentionAll.mpr (.inl hname)
  kinds name := by
    have hkind : (empty.mentionAll names).kind? name = none := by
      unfold kind?
      cases hfound : (empty.mentionAll names).get? name with
      | none => rfl
      | some found =>
          have hempty : ∀ entry ∈ empty.entries, entry.2 = none := List.forall_mem_nil _
          exact state_mentionAll hempty names _ (List.mem_of_getElem? (entry_of_get hfound))
    rw [hkind]
    exact .unknown _

end Parameters

/-- From parameters that are wider than in the assignment, the computation succeeds with such a
result and leaves them wider. -/
def Inferring.Follows {α : Type} (names : List String) (assignment : Parameters) (P : α → Prop)
    (inferring : Inferring α) : Prop :=
  ∀ parameters, parameters.WiderThan names assignment → ∃ a learned,
    inferring parameters = .ok (a, learned) ∧ P a ∧ learned.WiderThan names assignment

namespace Inferring

variable {α β : Type} {names : List String} {assignment : Parameters}

theorem follows_pure {P : α → Prop} {a : α} (h : P a) : Follows names assignment P (pure a) :=
  fun parameters hparameters => ⟨a, parameters, rfl, h, hparameters⟩

/-- One computation may follow the assignment after another. -/
theorem Follows.bind {P : α → Prop} {Q : β → Prop} {first : Inferring α} {next : α → Inferring β}
    (h : Follows names assignment P first)
    (hnext : ∀ a, P a → Follows names assignment Q (next a)) :
    Follows names assignment Q (first >>= next) := by
  intro parameters hparameters
  obtain ⟨a, middle, hfirst, ha, hmiddle⟩ := h parameters hparameters
  obtain ⟨b, learned, hsecond, hb, hlearned⟩ := hnext a ha middle hmiddle
  exact ⟨b, learned, bind_eq_ok.mpr ⟨(a, middle), hfirst, hsecond⟩, hb, hlearned⟩

/-- An element in its place may be replaced by another one that is related as well. -/
theorem forall₂_set {P : α → β → Prop} {as : List α} {bs : List β} (h : Forall₂ P as bs)
    {place : Nat} {b : β} (hplace : bs[place]? = some b) {a : α} (ha : P a b) :
    Forall₂ P (as.set place a) bs := by
  induction h generalizing place with
  | nil => cases hplace
  | cons hfirst hrest ih =>
      cases place with
      | zero =>
          cases hplace
          exact .cons ha hrest
      | succ place => exact .cons hfirst (ih hplace)

/-- Steps that follow the assignment do so together, in any order. -/
theorem follows_collect {P : α → β → Prop} {steps : List (Inferring α)} {bs : List β}
    (hsteps : Forall₂ (fun step b => Follows names assignment (P · b) step) steps bs)
    (places : List Nat) {found : List α} (hfound : Forall₂ P found bs) :
    Follows names assignment (Forall₂ P · bs) (collect steps places found) := by
  induction places generalizing found with
  | nil => exact follows_pure hfound
  | cons place places ih =>
      cases hstep : steps[place]? with
      | none =>
          rw [collect, hstep]
          exact ih hfound
      | some step =>
          rw [collect, hstep]
          obtain ⟨b, hb⟩ := exists_getElem_of_length hsteps.length_eq hstep
          exact (getElem_of_forall₂ hsteps hstep hb).bind fun a ha =>
            ih (forall₂_set hfound hb ha)

/-- Steps that follow the assignment do so together, in any order. -/
theorem follows_perform {steps : List (Inferring Unit)}
    (h : ∀ step ∈ steps, Follows names assignment (fun _ => True) step) (places : List Nat) :
    Follows names assignment (fun _ => True) (perform steps places) := by
  have hsteps : Forall₂ (fun step _ => Follows names assignment (fun _ => True) step) steps
      (steps.map fun _ => ()) := by
    rw [List.forall₂_map_right_iff, List.forall₂_same]
    exact h
  have hfound : Forall₂ (fun _ _ => True) (steps.map fun _ => ()) (steps.map fun _ => ()) := by
    rw [List.forall₂_same]
    exact fun _ _ => trivial
  exact (follows_collect hsteps places hfound).bind fun _ _ => follows_pure trivial

/-- If every walk follows the assignment, then so does their repetition. -/
theorem exists_settle {walk : Inferring α} {P : α → Prop} (hwalk : Follows names assignment P walk)
    (walks : Nat) {parameters : Parameters} (h : parameters.WiderThan names assignment) :
    ∃ result, walk.settle walks parameters = .ok result ∧
      result.WiderThan names assignment := by
  induction walks generalizing parameters with
  | zero => exact ⟨parameters, rfl, h⟩
  | succ walks ih =>
      obtain ⟨a, learned, hfirst, -, hlearned⟩ := hwalk parameters h
      by_cases hsame : learned.changes = parameters.changes
      · exact ⟨learned, bind_eq_ok.mpr ⟨(a, learned), hfirst, if_pos hsame⟩, hlearned⟩
      · obtain ⟨result, hresult, hwider⟩ := ih hlearned
        refine ⟨result, bind_eq_ok.mpr ⟨(a, learned), hfirst, ?_⟩, hwider⟩
        show (if learned.changes = parameters.changes then _ else _) = _
        rw [if_neg hsame, hresult]

end Inferring

namespace Expr

variable {names : List String} {assignment : Parameters} {order : VisitOrder}

/-- A demand that is met in the assignment succeeds where less is known, and narrows nothing any
further than in it. -/
theorem follows_demandIn {tree : Expr} {kind : Kind} (hnames : tree.parameterNames ⊆ names)
    (h : tree.Meets assignment kind) :
    Inferring.Follows names assignment (fun _ => True) (tree.demandIn order kind) := by
  induction h with
  | constant h =>
      rw [demandIn_constant h]
      exact Inferring.follows_pure trivial
  | @parameter name known kind hknown hrefines =>
      intro parameters hparameters
      obtain ⟨learned, hconstrain, hwider⟩ :=
        hparameters.constrain (hnames (.head _)) hknown hrefines
      exact ⟨(), learned, demandIn_parameter.mpr hconstrain, trivial, hwider⟩
  | @operation op arguments kind _ ih =>
      unfold demandIn
      refine Inferring.follows_perform
        (forall_demandDecidingIn (Inferring.follows_pure trivial) ?_) _
      intro place argument hargument hdecides
      exact ih place argument hargument hdecides
        (List.Subset.trans (names_of_mem (List.mem_of_getElem? hargument)) hnames)

/-- What an operation makes of kinds that are wider than in a solution follows the solution. -/
theorem follows_resolveIn {op : Operation} {arguments : List Expr}
    {kinds others : List (Option Kind)} {resolution : Resolution}
    (harguments : ∀ argument ∈ arguments, argument.Over Operation.IsStandard)
    (hnames : parameterNamesOfAll arguments ⊆ names)
    (hkinds : Forall₂ (Solves assignment) arguments kinds)
    (hresolve : op.signature.resolve kinds = .ok resolution)
    (hdemands : Forall₂ (fun argument demand => ∀ kind, demand = some kind →
      argument.Meets assignment kind) arguments resolution.demands)
    (hothers : Forall₂ Kind.Wider others kinds) :
    Inferring.Follows names assignment (Kind.Wider · resolution.returns)
      (resolveIn order op arguments others) := by
  obtain ⟨answer, hanswer, hreturns, hmeets⟩ := Signature.resolve_of_wider hothers hresolve
  -- An operand that is known in the solution meets what may be demanded of it when it is not.
  have hknown : Forall₂ (fun argument kind => ∀ known, kind = some known →
      argument.Meets assignment known.toClass.widest) arguments kinds := by
    refine forall₂_imp_of_mem hkinds fun argument hmem kind hsolves => ?_
    rintro known rfl
    exact hsolves.meets_widest (harguments argument hmem)
  have hasked := hmeets hdemands hknown
  rw [resolveIn, hanswer]
  refine (Inferring.follows_perform (forall_demandAnyIn (Inferring.follows_pure trivial) ?_)
    _).bind fun _ _ => Inferring.follows_pure hreturns
  intro argument kind hmem
  exact follows_demandIn (List.Subset.trans (names_of_mem (List.of_mem_zip hmem).1) hnames)
    ((List.forall₂_iff_zip.mp hasked).2 hmem kind rfl)

/-- A walk follows every solution: it succeeds where no more is known than in the solution, finds a
kind that is no narrower, and leaves the parameters no narrower. -/
theorem follows_inferIn {tree : Expr} (htree : tree.Over Operation.IsStandard)
    (hnames : tree.parameterNames ⊆ names) {kind : Option Kind} (h : tree.Solves assignment kind) :
    Inferring.Follows names assignment (Kind.Wider · kind) (tree.inferIn order) := by
  induction htree generalizing kind with
  | constant c =>
      cases h
      exact Inferring.follows_pure (.refl _)
  | parameter name =>
      intro parameters hparameters
      refine ⟨parameters.kind? name, parameters, rfl, ?_, hparameters⟩
      rw [solves_parameter.mp h]
      exact hparameters.kinds name
  | @operation op arguments hop harguments ih =>
      cases h with
      | @operation _ _ kinds resolution hlength hkinds hresolve hdemands =>
          have hsolves := forall₂_of_getElem hlength hkinds
          have hwalks : Forall₂ (fun step kind =>
              Inferring.Follows names assignment (Kind.Wider · kind) step)
              (inferAllIn order arguments) kinds := by
            rw [inferAllIn_eq, List.forall₂_map_left_iff]
            exact forall₂_imp_of_mem hsolves fun argument hmem kind hknown =>
              ih argument hmem (List.Subset.trans (names_of_mem hmem) hnames) hknown
          have hunknown : Forall₂ Kind.Wider (arguments.map fun _ => none) kinds := by
            rw [List.forall₂_map_left_iff]
            exact hsolves.imp fun _ _ _ => .unknown _
          have hmeets : Forall₂ (fun argument demand => ∀ kind, demand = some kind →
              argument.Meets assignment kind) arguments resolution.demands := by
            have hcount : arguments.length = resolution.demands.length := by
              obtain ⟨harity, -, -, rfl⟩ := Signature.resolve_iff.mp hresolve
              rw [List.length_zipWith, hlength, harity]
              exact (Nat.min_self _).symm
            refine forall₂_of_getElem hcount fun place argument demand hargument hdemand => ?_
            rintro kind rfl
            exact hdemands place argument kind hargument hdemand
          unfold inferIn
          exact (Inferring.follows_collect hwalks _ hunknown).bind fun others hothers =>
            follows_resolveIn harguments hnames hsolves hresolve hmeets hothers

/-- The parameters of the tree, of which nothing is known. -/
def unknowns (tree : Expr) : Parameters :=
  Parameters.empty.mentionAll tree.parameterNames

theorem advertised_unknowns (tree : Expr) : tree.Advertised tree.unknowns :=
  fun _ hname => Parameters.mem_names_mentionAll.mpr (.inl hname)

/-- If there is a solution, then inference in any order finds one that is wider. -/
theorem exists_inferKindsIn (order : VisitOrder) {tree : Expr}
    (htree : tree.Over Operation.IsStandard) {kind : Option Kind}
    (h : tree.Solves assignment kind) :
    ∃ result known, tree.inferKindsIn order tree.unknowns = .ok result ∧
      tree.Advertised result ∧ tree.Solves result known ∧
      ∀ name, Kind.Wider (result.kind? name) (assignment.kind? name) := by
  have hwalk : Inferring.Follows tree.parameterNames assignment (Kind.Wider · kind)
      (tree.inferIn order) := follows_inferIn htree (List.Subset.refl _) h
  obtain ⟨result, hresult, hwider⟩ := Inferring.exists_settle hwalk _
    (Parameters.widerThan_mentionAll tree.parameterNames assignment)
  obtain ⟨-, known, hsettled⟩ := settled_of_inferKinds (advertised_unknowns tree) hresult
  exact ⟨result, known, hresult, hwider.names, (settled_iff hwider.names).mp hsettled,
    hwider.kinds⟩

/-- Inference does not depend on the order in which operands are visited: where it succeeds in one
order, it succeeds in every other one and says the same about all parameters. -/
theorem inferKindsIn_agree (order other : VisitOrder) {tree : Expr}
    (htree : tree.Over Operation.IsStandard) {result : Parameters}
    (h : tree.inferKindsIn order tree.unknowns = .ok result) :
    ∃ same, tree.inferKindsIn other tree.unknowns = .ok same ∧
      ∀ name, same.kind? name = result.kind? name := by
  obtain ⟨hlearned, known, hsettled⟩ := settled_of_inferKinds (advertised_unknowns tree) h
  have hadvertised : tree.Advertised result := by
    rw [Advertised, hlearned.names]
    exact advertised_unknowns tree
  -- Each of the two results is a solution, so each is wider than the other.
  obtain ⟨same, found, hsame, -, hfound, hwider⟩ :=
    exists_inferKindsIn other htree ((settled_iff hadvertised).mp hsettled)
  obtain ⟨again, -, hagain, -, -, hback⟩ := exists_inferKindsIn order htree hfound
  rw [h] at hagain
  cases hagain
  exact ⟨same, hsame, fun name => (hwider name).antisymm (hback name)⟩

/-- Inference finds the widest solution. For a tree of operators and standard functions, whenever
there are states of its parameters that a walk does not change, inference from parameters of which
nothing is known succeeds; its result is not changed by a walk either, and says no more about any
parameter than those states do. In any other order of visits it finds the same. -/
theorem inferKinds_widest {tree : Expr} (htree : tree.Over Operation.IsStandard)
    (hnames : tree.Advertised assignment) {kind : Option Kind}
    (h : tree.infer assignment = .ok (kind, assignment)) :
    ∃ result, tree.inferKinds tree.unknowns = .ok result ∧
      (∃ known, tree.infer result = .ok (known, result)) ∧
      (∀ name, Kind.Wider (result.kind? name) (assignment.kind? name)) ∧
      ∀ order, ∃ other, tree.inferKindsIn order tree.unknowns = .ok other ∧
        ∀ name, other.kind? name = result.kind? name := by
  rw [infer_eq, settled_iff hnames] at h
  obtain ⟨result, known, hresult, hadvertised, hsolves, hwider⟩ :=
    exists_inferKindsIn .leftToRight htree h
  refine ⟨result, ?_, ⟨known, ?_⟩, hwider, fun order => inferKindsIn_agree _ order htree hresult⟩
  · rw [inferKinds_eq, hresult]
  · rw [infer_eq, settled_iff hadvertised]
    exact hsolves

/-- One of two summands may be an integer and the other a float, but then both may be any number. -/
theorem inferKinds_widest_sum :
    let tree := operation (.binary .add) [parameter "x", parameter "y"]
    let assignment : Parameters := ⟨[("x", some .integer), ("y", some .float)], 0⟩
    tree.Over Operation.IsStandard ∧ tree.Advertised assignment ∧
      tree.infer assignment = .ok (some .float, assignment) ∧
      ∃ result, tree.inferKinds tree.unknowns = .ok result ∧
        Kind.Wider (result.kind? "x") (some .integer) := by
  intro tree assignment
  have htree : tree.Over Operation.IsStandard := by
    refine .operation trivial ?_
    simp only [List.forall_mem_cons]
    exact ⟨.parameter "x", .parameter "y", nofun⟩
  have hnames : tree.Advertised assignment := List.Subset.refl _
  have hsettled : tree.infer assignment = .ok (some .float, assignment) := rfl
  obtain ⟨result, hresult, -, hwider, -⟩ := inferKinds_widest htree hnames hsettled
  exact ⟨htree, hnames, hsettled, result, hresult, hwider "x"⟩

end Expr

end Reckon
