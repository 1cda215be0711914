import Reckon.Proofs.Typing.Orders

/-!
# Solutions of the constraints of a tree

`Expr.Solves` says, without a walk, that states of the parameters satisfy all constraints of a tree,
and which kind the tree has by them. The states that a walk does not change are the solutions, in
whatever order it goes (`settled_iff`). In a solution a tree of unknown kind cannot meet any demand
(`Solves.not_meets`), and one of a known kind meets the widest of its class (`Solves.meets_widest`).
-/

namespace Reckon

open List (Forall₂)

theorem exists_getElem_of_length {α β : Type} {as : List α} {bs : List β}
    (h : as.length = bs.length) {place : Nat} {a : α} (ha : as[place]? = some a) :
    ∃ b, bs[place]? = some b := by
  obtain ⟨hlt, -⟩ := List.getElem?_eq_some_iff.mp ha
  exact ⟨bs[place], List.getElem?_eq_getElem (h ▸ hlt)⟩

/-- Lists are related if they have the same length and their elements at each place are related. -/
theorem forall₂_of_getElem {α β : Type} {R : α → β → Prop} {as : List α} {bs : List β}
    (hlength : as.length = bs.length)
    (h : ∀ (place : Nat) (a : α) (b : β), as[place]? = some a → bs[place]? = some b → R a b) :
    Forall₂ R as bs := by
  refine List.forall₂_iff_get.mpr ⟨hlength, fun place ha hb => h place _ _ ?_ ?_⟩
  · exact List.getElem?_eq_getElem ha
  · exact List.getElem?_eq_getElem hb

theorem getElem_of_forall₂ {α β : Type} {R : α → β → Prop} {as : List α} {bs : List β}
    (h : Forall₂ R as bs) {place : Nat} {a : α} {b : β} (ha : as[place]? = some a)
    (hb : bs[place]? = some b) : R a b :=
  (List.forall₂_iff_zip.mp h).2 (List.mem_of_getElem? (List.getElem?_zip_eq_some.mpr ⟨ha, hb⟩))

namespace Inferring

variable {α : Type} {names : List String}

/-- If steps that are taken in some order change nothing, then each of them changes nothing, and its
result is put in its place. -/
theorem settled_collect {steps : List (Inferring α)} (hsteps : ∀ step ∈ steps, Learns names step)
    {parameters : Parameters} (hparameters : names ⊆ parameters.names) {places : List Nat}
    {found results : List α}
    (h : collect steps places found parameters = .ok (results, parameters)) :
    results.length = found.length ∧
      (∀ place, place ∉ places → results[place]? = found[place]?) ∧
      ∀ (place : Nat) (step : Inferring α), place ∈ places → steps[place]? = some step →
        ∃ a, step parameters = .ok (a, parameters) ∧
          (place < found.length → results[place]? = some a) := by
  induction places generalizing found with
  | nil =>
      cases h
      exact ⟨rfl, fun _ _ => rfl, nofun⟩
  | cons place places ih =>
      cases hstep : steps[place]? with
      | none =>
          rw [collect, hstep] at h
          obtain ⟨hlength, hothers, hplaces⟩ := ih h
          refine ⟨hlength, fun other hother => hothers other (by simp_all), ?_⟩
          intro other step hother hfound
          rcases List.mem_cons.mp hother with rfl | hother
          · rw [hstep] at hfound
            cases hfound
          · exact hplaces other step hother hfound
      | some step =>
          rw [collect, hstep] at h
          have hmem := List.mem_of_getElem? hstep
          obtain ⟨a, hfirst, hrest⟩ := settled_of_bind (hsteps step hmem)
            (fun a => learns_collect hsteps places _) hparameters h
          obtain ⟨hlength, hothers, hplaces⟩ := ih hrest
          rw [List.length_set] at hlength hplaces
          refine ⟨hlength, ?_, ?_⟩
          · intro other hother
            rw [List.mem_cons, not_or] at hother
            obtain ⟨hne, hother⟩ := hother
            rw [hothers other hother, List.getElem?_set_ne (Ne.symm hne)]
          · intro other taken hother hfound
            by_cases hlater : other ∈ places
            · exact hplaces other taken hlater hfound
            · obtain rfl := (List.mem_cons.mp hother).resolve_right hlater
              rw [hstep] at hfound
              cases hfound
              refine ⟨a, hfirst, fun hlt => ?_⟩
              rw [hothers other hlater, List.getElem?_set_self hlt]

/-- If steps that are all taken in some order change nothing, then each of them changes nothing. -/
theorem settled_perform {steps : List (Inferring Unit)}
    (hsteps : ∀ step ∈ steps, Learns names step) {parameters : Parameters}
    (hparameters : names ⊆ parameters.names) {places : List Nat}
    (hplaces : ∀ place < steps.length, place ∈ places)
    (h : perform steps places parameters = .ok ((), parameters)) :
    ∀ step ∈ steps, step parameters = .ok ((), parameters) := by
  obtain ⟨results, hcollect, -⟩ := settled_of_bind (learns_collect hsteps places _)
    (fun _ => learns_pure ()) hparameters h
  obtain ⟨-, -, hsettled⟩ := settled_collect hsteps hparameters hcollect
  intro step hstep
  obtain ⟨place, hplace⟩ := List.mem_iff_getElem?.mp hstep
  obtain ⟨hlt, -⟩ := List.getElem?_eq_some_iff.mp hplace
  obtain ⟨a, ha, -⟩ := hsettled place step (hplaces place hlt) hplace
  exact ha

/-- Steps of which none changes anything change nothing when they are taken in some order. -/
theorem exists_collect {steps : List (Inferring α)} {parameters : Parameters}
    (h : ∀ step ∈ steps, ∃ a, step parameters = .ok (a, parameters)) (places : List Nat)
    (found : List α) :
    ∃ results, collect steps places found parameters = .ok (results, parameters) := by
  induction places generalizing found with
  | nil => exact ⟨found, rfl⟩
  | cons place places ih =>
      cases hstep : steps[place]? with
      | none =>
          rw [collect, hstep]
          exact ih found
      | some step =>
          rw [collect, hstep]
          obtain ⟨a, ha⟩ := h step (List.mem_of_getElem? hstep)
          obtain ⟨results, hresults⟩ := ih (found.set place a)
          exact ⟨results, bind_eq_ok.mpr ⟨(a, parameters), ha, hresults⟩⟩

/-- Steps that are all taken, and of which none changes anything, have their results together. -/
theorem collect_of_settled {steps : List (Inferring α)}
    (hsteps : ∀ step ∈ steps, Learns names step) {parameters : Parameters}
    (hparameters : names ⊆ parameters.names) {places : List Nat} {found results : List α}
    (hplaces : ∀ place < steps.length, place ∈ places) (hlength : found.length = steps.length)
    (h : Forall₂ (fun step a => step parameters = .ok (a, parameters)) steps results) :
    collect steps places found parameters = .ok (results, parameters) := by
  obtain ⟨others, hothers⟩ := exists_collect (fun step hstep => exists_of_forall₂ h hstep) places
    found
  obtain ⟨hcount, -, hsettled⟩ := settled_collect hsteps hparameters hothers
  have hsame : others = results := by
    refine List.ext_getElem? fun place => ?_
    cases hstep : steps[place]? with
    | none =>
        have hle := List.getElem?_eq_none_iff.mp hstep
        rw [List.getElem?_eq_none (by omega), List.getElem?_eq_none (h.length_eq ▸ hle)]
    | some step =>
        have hlt := (List.getElem?_eq_some_iff.mp hstep).1
        obtain ⟨result, hresult⟩ := exists_getElem_of_length h.length_eq hstep
        obtain ⟨a, ha, hplace⟩ := hsettled place step (hplaces place hlt) hstep
        rw [hplace (hlength ▸ hlt), hresult]
        have hstep := getElem_of_forall₂ h hstep hresult
        rw [ha] at hstep
        cases hstep
        rfl
  rw [hothers, hsame]

theorem perform_of_settled {steps : List (Inferring Unit)} {parameters : Parameters}
    (h : ∀ step ∈ steps, step parameters = .ok ((), parameters)) (places : List Nat) :
    perform steps places parameters = .ok ((), parameters) := by
  obtain ⟨results, hresults⟩ := exists_collect (fun step hstep => ⟨(), h step hstep⟩) places
    (steps.map fun _ => ())
  exact bind_eq_ok.mpr ⟨(results, parameters), hresults, rfl⟩

end Inferring

theorem VisitOrder.mem_places {order : VisitOrder} {arguments : List Expr} {place : Nat} :
    place ∈ order.places arguments ↔ place < arguments.length := by
  rw [(order.perm arguments).mem_iff, List.mem_range]

namespace Expr

/-- The states of the parameters say already what is demanded of the tree. -/
inductive Meets (parameters : Parameters) : Expr → Kind → Prop where
  | constant {c : Constant} {kind : Kind} (h : c.kind.standsFor kind = true) :
      Meets parameters (.constant c) kind
  | parameter {name : String} {known kind : Kind} (hknown : parameters.kind? name = some known)
      (h : known.Refines kind) : Meets parameters (.parameter name) kind
  | operation {op : Operation} {arguments : List Expr} {kind : Kind}
      (h : ∀ (place : Nat) (argument : Expr), arguments[place]? = some argument →
        op.signature.decidesResult place = true →
        Meets parameters argument (passedDemand op.signature.returns kind)) :
      Meets parameters (.operation op arguments) kind

/-- By the states of the parameters the tree has this kind, if any, and they satisfy its
constraints. -/
inductive Solves (parameters : Parameters) : Expr → Option Kind → Prop where
  | constant (c : Constant) : Solves parameters (.constant c) (some c.kind)
  | parameter (name : String) : Solves parameters (.parameter name) (parameters.kind? name)
  | operation {op : Operation} {arguments : List Expr} {kinds : List (Option Kind)}
      {resolution : Resolution} (hlength : arguments.length = kinds.length)
      (hkinds : ∀ (place : Nat) (argument : Expr) (kind : Option Kind),
        arguments[place]? = some argument → kinds[place]? = some kind →
        Solves parameters argument kind)
      (hresolve : op.signature.resolve kinds = .ok resolution)
      (hdemands : ∀ (place : Nat) (argument : Expr) (kind : Kind),
        arguments[place]? = some argument → resolution.demands[place]? = some (some kind) →
        Meets parameters argument kind) :
      Solves parameters (.operation op arguments) resolution.returns

variable {names : List String} {order : VisitOrder} {parameters : Parameters}

/-- To constrain a parameter changes nothing, if its state says already what is demanded. -/
theorem constrain_eq_self {name : String} {kind : Kind} (hname : name ∈ parameters.names) :
    parameters.constrain name kind = .ok parameters ↔
      ∃ known, parameters.kind? name = some known ∧ known.Refines kind := by
  obtain ⟨slot, hslot, hiff⟩ := Parameters.constrain_eq hname kind
  constructor
  · intro h
    obtain ⟨known, hnarrow, hsame⟩ := (hiff parameters).mp h
    have hknown := Parameters.kind_setState hslot (some known) name
    rw [← hsame, if_pos rfl] at hknown
    rw [hknown] at hnarrow
    exact ⟨known, hknown, Parameters.narrow_eq_self.mp hnarrow⟩
  · rintro ⟨known, hknown, hrefines⟩
    refine (hiff parameters).mpr ⟨known, ?_, ?_⟩
    · rw [hknown, Parameters.narrow_eq_self.mpr hrefines]
    · rw [Parameters.setState, if_pos hknown]

/-- A demand that changes nothing is met already. -/
theorem meets_of_settled {tree : Expr} {kind : Kind} (hnames : tree.parameterNames ⊆ names)
    (hparameters : names ⊆ parameters.names)
    (h : tree.demandIn order kind parameters = .ok ((), parameters)) :
    tree.Meets parameters kind := by
  induction tree using Expr.induction generalizing kind with
  | constant c =>
      unfold demandIn demand at h
      split at h
      · next hstands => exact .constant hstands
      · cases h
  | parameter name =>
      obtain ⟨known, hknown, hrefines⟩ :=
        (constrain_eq_self (hparameters (hnames (.head _)))).mp (demandIn_parameter.mp h)
      exact .parameter hknown hrefines
  | operation op arguments ih =>
      refine .operation fun place argument hplace hdecides => ?_
      have hmem := List.mem_of_getElem? hplace
      refine ih argument hmem (List.Subset.trans (names_of_mem hmem) hnames) ?_
      unfold demandIn at h
      refine Inferring.settled_perform (forall_demandDecidingIn (Inferring.learns_pure ()) ?_)
        hparameters ?_ h _ ?_
      · intro place argument hargument _
        have hmem := List.mem_of_getElem? hargument
        exact learns_demandIn (List.Subset.trans (names_of_mem hmem) hnames) _
      · intro place hlt
        rw [length_demandDecidingIn] at hlt
        exact VisitOrder.mem_places.mpr hlt
      · rw [demandDecidingIn_eq, List.mem_map]
        refine ⟨(argument, place), List.mem_zipIdx_iff_getElem?.mpr hplace, ?_⟩
        simp [hdecides]

/-- States that a walk does not change are a solution. -/
theorem solves_of_settled {tree : Expr} {kind : Option Kind} (hnames : tree.parameterNames ⊆ names)
    (hparameters : names ⊆ parameters.names)
    (h : tree.inferIn order parameters = .ok (kind, parameters)) : tree.Solves parameters kind := by
  induction tree using Expr.induction generalizing kind with
  | constant c =>
      cases h
      exact .constant c
  | parameter name =>
      cases h
      exact .parameter name
  | operation op arguments ih =>
      have hlearns : ∀ step ∈ inferAllIn order arguments, Inferring.Learns names step :=
        learns_inferAllIn fun argument hmem =>
          learns_inferIn (List.Subset.trans (names_of_mem hmem) hnames)
      unfold inferIn at h
      obtain ⟨kinds, hcollect, h⟩ := Inferring.settled_of_bind
        (Inferring.learns_collect hlearns _ _) (learns_resolveIn hnames op) hparameters h
      obtain ⟨hlength, -, hsettled⟩ := Inferring.settled_collect hlearns hparameters hcollect
      rw [List.length_map] at hlength hsettled
      cases hresolve : op.signature.resolve kinds with
      | error fault =>
          rw [resolveIn, hresolve] at h
          cases h
      | ok resolution =>
          rw [resolveIn, hresolve] at h
          obtain ⟨⟨⟩, hperform, hresult⟩ := Inferring.settled_of_bind
            (Inferring.learns_perform (learns_demandAnyIn hnames) _)
            (fun _ => Inferring.learns_pure _) hparameters h
          cases hresult
          refine .operation hlength.symm ?_ hresolve ?_
          · intro place argument kind hargument hkind
            have hmem := List.mem_of_getElem? hargument
            have hlt := (List.getElem?_eq_some_iff.mp hargument).1
            obtain ⟨known, hknown, hresult⟩ := hsettled place (argument.inferIn order)
              (VisitOrder.mem_places.mpr hlt)
              (by rw [inferAllIn_eq, List.getElem?_map, hargument]; rfl)
            rw [hresult hlt] at hkind
            cases hkind
            exact ih argument hmem (List.Subset.trans (names_of_mem hmem) hnames) hknown
          · intro place argument kind hargument hdemand
            have hmem := List.mem_of_getElem? hargument
            have hplaces : ∀ place < ((arguments.zip resolution.demands).map
                (demandAnyIn order)).length, place ∈ order.places arguments := by
              intro place hlt
              rw [List.length_map, List.length_zip] at hlt
              exact VisitOrder.mem_places.mpr (Nat.lt_of_lt_of_le hlt (Nat.min_le_left _ _))
            have hstep : argument.demandIn order kind ∈
                (arguments.zip resolution.demands).map (demandAnyIn order) :=
              List.mem_map.mpr ⟨(argument, some kind), List.mem_of_getElem?
                (List.getElem?_zip_eq_some.mpr ⟨hargument, hdemand⟩), rfl⟩
            exact meets_of_settled (List.Subset.trans (names_of_mem hmem) hnames) hparameters
              (Inferring.settled_perform (learns_demandAnyIn hnames) hparameters hplaces hperform
                _ hstep)

/-- A demand that is met changes nothing. -/
theorem settled_of_meets {tree : Expr} {kind : Kind} (hnames : tree.Advertised parameters)
    (h : tree.Meets parameters kind) :
    tree.demandIn order kind parameters = .ok ((), parameters) := by
  induction h with
  | constant h =>
      rw [demandIn_constant h]
      rfl
  | @parameter name known kind hknown hrefines =>
      exact demandIn_parameter.mpr
        ((constrain_eq_self (hnames (.head _))).mpr ⟨known, hknown, hrefines⟩)
  | @operation op arguments kind _ ih =>
      unfold demandIn
      refine Inferring.perform_of_settled (forall_demandDecidingIn rfl ?_) _
      intro place argument hargument hdecides
      exact ih place argument hargument hdecides
        (List.Subset.trans (names_of_mem (List.mem_of_getElem? hargument)) hnames)

/-- A walk does not change a solution. -/
theorem settled_of_solves {tree : Expr} {kind : Option Kind} (hnames : tree.Advertised parameters)
    (h : tree.Solves parameters kind) : tree.inferIn order parameters = .ok (kind, parameters) := by
  induction h with
  | constant c => rfl
  | parameter name => rfl
  | @operation op arguments kinds resolution hlength _ hresolve hdemands ih =>
      have harguments : ∀ argument ∈ arguments, argument.Advertised parameters :=
        fun argument hmem => List.Subset.trans (names_of_mem hmem) hnames
      have hwalks : Forall₂ (fun step kind => step parameters = .ok (kind, parameters))
          (inferAllIn order arguments) kinds := by
        rw [inferAllIn_eq, List.forall₂_map_left_iff]
        refine forall₂_of_getElem hlength fun place argument kind hargument hkind => ?_
        exact ih place argument kind hargument hkind
          (harguments argument (List.mem_of_getElem? hargument))
      have hperform : Inferring.perform ((arguments.zip resolution.demands).map (demandAnyIn order))
          (order.places arguments) parameters = .ok ((), parameters) := by
        refine Inferring.perform_of_settled (forall_demandAnyIn rfl fun argument kind hmem => ?_) _
        obtain ⟨place, hplace⟩ := List.mem_iff_getElem?.mp hmem
        obtain ⟨hargument, hdemand⟩ := List.getElem?_zip_eq_some.mp hplace
        exact settled_of_meets (harguments argument (List.mem_of_getElem? hargument))
          (hdemands place argument kind hargument hdemand)
      unfold inferIn
      refine bind_eq_ok.mpr ⟨(kinds, parameters), ?_, ?_⟩
      · refine Inferring.collect_of_settled (learns_inferAllIn fun argument hmem => learns_inferIn
          (names_of_mem hmem)) hnames ?_ ?_ hwalks
        · intro place hlt
          rw [inferAllIn_eq, List.length_map] at hlt
          exact VisitOrder.mem_places.mpr hlt
        · rw [inferAllIn_eq, List.length_map, List.length_map]
      · show resolveIn order op arguments kinds parameters = _
        rw [resolveIn, hresolve]
        exact bind_eq_ok.mpr ⟨((), parameters), hperform, rfl⟩

/-- The states that a walk does not change are the solutions, in whatever order it goes. -/
theorem settled_iff {tree : Expr} {kind : Option Kind} (hnames : tree.Advertised parameters) :
    tree.inferIn order parameters = .ok (kind, parameters) ↔ tree.Solves parameters kind :=
  ⟨solves_of_settled (List.Subset.refl _) hnames, settled_of_solves hnames⟩

/-- An operand in a solution: its own constraints are satisfied, its kind fits the requirement, and
what the operation demands of it is met. -/
structure SolvesOperand (parameters : Parameters) (groupClass : Option KindClass)
    (requirement : Requirement) (argument : Expr) (known : Option Kind) : Prop where
  solves : argument.Solves parameters known
  fits : requirement.Fits groupClass known
  meets : ∀ kind, Signature.demand groupClass requirement known = some kind →
    argument.Meets parameters kind

/-- An operation in a solution has operands of as many kinds as its signature asks for, a class for
its group that is allowed, and the kind that follows from both. -/
theorem Solves.operands {op : Operation} {arguments : List Expr} {kind : Option Kind}
    (h : (Expr.operation op arguments).Solves parameters kind) :
    ∃ kinds, arguments.length = kinds.length ∧ kinds.length = op.arity ∧
      kind = op.signature.result (op.signature.groupClass kinds) kinds ∧
      (∀ found, op.signature.groupClass kinds = some found → op.signature.allows found = true) ∧
      ∀ (place : Nat) (requirement : Requirement) (argument : Expr),
        op.signature.arguments[place]? = some requirement → arguments[place]? = some argument →
        ∃ known, kinds[place]? = some known ∧
          SolvesOperand parameters (op.signature.groupClass kinds) requirement argument known := by
  cases h with
  | @operation _ _ kinds resolution hlength hkinds hresolve hdemands =>
      obtain ⟨harity, hfits, hallowed, rfl⟩ := Signature.resolve_iff.mp hresolve
      refine ⟨kinds, hlength, harity, rfl, hallowed, ?_⟩
      intro place requirement argument hrequirement hargument
      obtain ⟨known, hknown⟩ := exists_getElem_of_length hlength hargument
      refine ⟨known, hknown, hkinds place argument known hargument hknown,
        getElem_of_forall₂ hfits hrequirement hknown, ?_⟩
      intro demanded hdemanded
      refine hdemands place argument demanded hargument ?_
      simp [List.getElem?_zipWith, hrequirement, hknown, hdemanded]

/-- The kind of a parameter in a solution is its state. -/
theorem solves_parameter {name : String} {known : Option Kind} :
    (parameter name).Solves parameters known ↔ known = parameters.kind? name := by
  constructor
  · intro h
    cases h
    rfl
  · rintro rfl
    exact .parameter name

/-- Whoever meets a demand on a parameter knows its state. -/
theorem meets_parameter {name : String} {kind : Kind} :
    (parameter name).Meets parameters kind ↔
      ∃ known, parameters.kind? name = some known ∧ known.Refines kind := by
  constructor
  · intro h
    cases h with
    | parameter hknown hrefines => exact ⟨_, hknown, hrefines⟩
  · rintro ⟨known, hknown, hrefines⟩
    exact .parameter hknown hrefines

/-- A demand for the widest kind of the result is passed on as one for the widest kind of the group.
-/
theorem exists_passedDemand {signature : Signature} {kinds : List (Option Kind)} {kind : Kind}
    (hcoherent : signature.isCoherent = true) (hreturns : ∀ fixed, signature.returns ≠ .kind fixed)
    (h : signature.result (signature.groupClass kinds) kinds = some kind) :
    ∃ found, signature.groupClass kinds = some found ∧
      passedDemand signature.returns kind.toClass.widest = found.widest := by
  unfold Signature.result at h
  unfold Signature.isCoherent at hcoherent
  cases hrule : signature.returns with
  | kind fixed => exact absurd hrule (hreturns fixed)
  | group =>
      simp only [hrule] at h
      obtain ⟨found, hfound, hkind⟩ := Option.map_eq_some_iff.mp h
      refine ⟨found, hfound, ?_⟩
      rw [← hkind]
      cases found <;> rfl
  | widened =>
      simp only [hrule, Bool.and_eq_true, decide_eq_true_eq] at h hcoherent
      obtain ⟨found, hfound, hkind⟩ := Option.map_eq_some_iff.mp h
      have hnumeric : found = .numeric := by
        have honly : signature.onlyClass? = some .numeric := by
          rw [Signature.onlyClass?, hcoherent.2]
        rw [Signature.groupClass, honly] at hfound
        exact (Option.some.inj hfound).symm
      refine ⟨found, hfound, ?_⟩
      rw [← hkind, hnumeric]
      split <;> rfl

/-- A result is unknown only if it comes from a group of unknown class. -/
theorem group_of_result_none {signature : Signature} {kinds : List (Option Kind)}
    (hcoherent : signature.isCoherent = true)
    (h : signature.result (signature.groupClass kinds) kinds = none) :
    signature.groupClass kinds = none ∧ ∃ place, signature.arguments[place]? = some .group ∧
      signature.decidesResult place = true := by
  have hexists (hmem : signature.arguments.contains .group = true)
      (hreturns : ∀ fixed, signature.returns ≠ .kind fixed) :
      ∃ place, signature.arguments[place]? = some .group ∧
        signature.decidesResult place = true := by
    obtain ⟨place, hplace⟩ := List.mem_iff_getElem?.mp (List.contains_iff_mem.mp hmem)
    refine ⟨place, hplace, ?_⟩
    unfold Signature.decidesResult
    cases hrule : signature.returns with
    | kind fixed => exact absurd hrule (hreturns fixed)
    | group | widened => simp [hplace]
  unfold Signature.result at h
  unfold Signature.isCoherent at hcoherent
  cases hrule : signature.returns with
  | kind fixed =>
      simp only [hrule] at h
      cases h
  | group =>
      simp only [hrule, Option.map_eq_none_iff] at h hcoherent
      exact ⟨h, hexists hcoherent (by simp [hrule])⟩
  | widened =>
      simp only [hrule, Option.map_eq_none_iff, Bool.and_eq_true] at h hcoherent
      exact ⟨h, hexists hcoherent.1 (by simp [hrule])⟩

/-- The result takes its kind only from the group, and only if its kind is not fixed. -/
theorem group_of_decidesResult {signature : Signature} {place : Nat}
    (h : signature.decidesResult place = true) :
    signature.arguments[place]? = some .group ∧ ∀ fixed, signature.returns ≠ .kind fixed := by
  unfold Signature.decidesResult at h
  split at h
  · cases h
  · next hrule => exact ⟨by simpa using h, by simp [hrule]⟩
  · next hrule => exact ⟨by simpa using h, by simp [hrule]⟩

/-- A tree of a known kind meets the demand for the widest kind of its class. -/
theorem Solves.meets_widest {tree : Expr} (htree : tree.Over Operation.IsStandard) {kind : Kind}
    (h : tree.Solves parameters (some kind)) : tree.Meets parameters kind.toClass.widest := by
  induction htree generalizing kind with
  | constant c =>
      cases h
      exact .constant (Kind.standsFor_widest c.kind)
  | parameter name =>
      refine .parameter (solves_parameter.mp h).symm ?_
      cases kind with
      | numeric mode => exact .number mode
      | string | boolean | byteArray => exact .refl _
  | @operation op arguments hop _ ih =>
      obtain ⟨kinds, -, -, hkind, -, hoperands⟩ := h.operands
      refine .operation fun place argument hargument hdecides => ?_
      obtain ⟨hgroup, hreturns⟩ := group_of_decidesResult hdecides
      obtain ⟨found, hfound, hpassed⟩ := exists_passedDemand hop.isCoherent hreturns hkind.symm
      obtain ⟨known, -, hoperand⟩ := hoperands place .group argument hgroup hargument
      rw [hpassed]
      cases known with
      | none => exact hoperand.meets _ (by rw [hfound]; rfl)
      | some known =>
          have hclass : op.signature.groupClass kinds = some known.toClass := hoperand.fits
          rw [hfound] at hclass
          rw [Option.some.inj hclass]
          exact ih argument (List.mem_of_getElem? hargument) hoperand.solves

/-- A tree of unknown kind meets no demand. -/
theorem Solves.not_meets {tree : Expr} (htree : tree.Over Operation.IsStandard)
    (h : tree.Solves parameters none) (kind : Kind) : ¬ tree.Meets parameters kind := by
  induction htree generalizing kind with
  | constant c => cases h
  | parameter name =>
      intro hmeets
      obtain ⟨known, hknown, -⟩ := meets_parameter.mp hmeets
      rw [← solves_parameter.mp h] at hknown
      cases hknown
  | @operation op arguments hop _ ih =>
      intro hmeets
      obtain ⟨kinds, hlength, harity, hkind, -, hoperands⟩ := h.operands
      obtain ⟨hnone, place, hplace, hdecides⟩ :=
        group_of_result_none hop.isCoherent hkind.symm
      obtain ⟨argument, hargument⟩ :=
        exists_getElem_of_length (harity.symm.trans hlength.symm) hplace
      obtain ⟨known, -, hoperand⟩ := hoperands place .group argument hplace hargument
      cases known with
      | some known =>
          have hclass : op.signature.groupClass kinds = some known.toClass := hoperand.fits
          rw [hnone] at hclass
          cases hclass
      | none =>
          cases hmeets with
          | operation harguments =>
              exact ih argument (List.mem_of_getElem? hargument) hoperand.solves _
                (harguments place argument hargument hdecides)

end Expr

end Reckon
