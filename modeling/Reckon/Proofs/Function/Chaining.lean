import Mathlib.Data.List.Basic
import Reckon.Proofs.Function.Lookup

/-!
# Chained calls

A call with more arguments than its function takes is built from the left: the first application
takes as many arguments as the function, and every further one takes what is built so far and the
next portion of the arguments. `ResolvedCall.buildM_of_resolve` says so for any maker of
applications, whatever its effects are; no argument is lost, moved or taken twice.
-/

namespace Reckon

/-- The arguments are cut into portions of one size, in their order. Only the last portion may be
smaller, and none is empty. -/
structure IsPortioned {α : Type} (size : Nat) (arguments : List α) (portions : List (List α)) :
    Prop where
  flatten_eq : portions.flatten = arguments
  ne_nil : ∀ portion ∈ portions, portion ≠ []
  length_le : ∀ portion ∈ portions, portion.length ≤ size
  full : ∀ portion ∈ portions.dropLast, portion.length = size
  full_iff : (∀ portion ∈ portions, portion.length = size) ↔ size ∣ arguments.length

namespace ResolvedCall

variable {α : Type} {size : Nat}

/-- How a chain of applications that may fail goes: each one that succeeds is the first operand of
the next one, together with the next portion, and the first one that fails is the outcome. -/
inductive Runs (attempt : List α → Except CompileError α) :
    List α → List (List α) → Except CompileError α → Prop where
  | fault {operands : List α} {portions : List (List α)} {fault : CompileError}
      (h : attempt operands = .error fault) : Runs attempt operands portions (.error fault)
  | last {operands : List α} {made : α} (h : attempt operands = .ok made) :
      Runs attempt operands [] (.ok made)
  | next {operands portion : List α} {portions : List (List α)} {made : α}
      {outcome : Except CompileError α} (h : attempt operands = .ok made)
      (hrest : Runs attempt (made :: portion) portions outcome) :
      Runs attempt operands (portion :: portions) outcome

/-- The portions in which a chain takes its further arguments. -/
def portions (hsize : 0 < size) : List α → List (List α)
  | [] => []
  | argument :: rest =>
    (argument :: rest).take size :: portions hsize ((argument :: rest).drop size)
termination_by arguments => arguments.length
decreasing_by
  rw [List.length_drop, List.length_cons]
  omega

/-- A chain takes its further arguments portion by portion. -/
theorem chain_eq_foldlM {m : Type → Type} [Monad m] (make : List α → m α) (hsize : 0 < size)
    (made : α) (arguments : List α) :
    chain make hsize made arguments =
      (portions hsize arguments).foldlM (fun made portion => make (made :: portion)) made := by
  fun_induction portions hsize arguments generalizing made with
  | case1 => rw [chain, List.foldlM_nil]
  | case2 argument rest ih =>
      rw [chain, List.foldlM_cons]
      exact bind_congr fun made => ih made

theorem portions_of_le (hsize : 0 < size) {arguments : List α} (hne : arguments ≠ [])
    (h : arguments.length ≤ size) : portions hsize arguments = [arguments] := by
  obtain ⟨argument, rest, rfl⟩ := List.exists_cons_of_ne_nil hne
  rw [portions, List.take_of_length_le h, List.drop_of_length_le h, portions]

/-- The portions of more arguments: a full one, and those of the others. -/
theorem portions_of_lt (hsize : 0 < size) {arguments : List α} (h : size < arguments.length) :
    portions hsize arguments =
      arguments.take size :: portions hsize (arguments.drop size) := by
  cases arguments with
  | nil => exact absurd h (Nat.not_lt_zero _)
  | cons argument rest => rw [portions]

/-- The portions hold the arguments, in their order. -/
theorem flatten_portions (hsize : 0 < size) (arguments : List α) :
    (portions hsize arguments).flatten = arguments := by
  fun_induction portions hsize arguments with
  | case1 => rfl
  | case2 argument rest ih => rw [List.flatten_cons, ih, List.take_append_drop]

/-- No portion is empty, and none is too large. -/
theorem length_of_mem_portions (hsize : 0 < size) (arguments : List α) :
    ∀ portion ∈ portions hsize arguments, portion ≠ [] ∧ portion.length ≤ size := by
  fun_induction portions hsize arguments with
  | case1 => nofun
  | case2 argument rest ih =>
      refine List.forall_mem_cons.mpr ⟨⟨?_, List.length_take_le _ _⟩, ih⟩
      rw [ne_eq, List.take_eq_nil_iff, not_or]
      exact ⟨Nat.ne_of_gt hsize, List.cons_ne_nil _ _⟩

/-- All portions but the last one are full, and the last one is if the size divides the number of
arguments. -/
theorem full_portions (hsize : 0 < size) (arguments : List α) :
    (∀ portion ∈ (portions hsize arguments).dropLast, portion.length = size) ∧
      ((∀ portion ∈ portions hsize arguments, portion.length = size) ↔
        size ∣ arguments.length) := by
  induction hlength : arguments.length using Nat.strongRecOn generalizing arguments with
  | ind length ih =>
      subst hlength
      by_cases hnil : arguments = []
      · subst hnil
        rw [portions]
        exact ⟨nofun, by simp⟩
      by_cases hle : arguments.length ≤ size
      · rw [portions_of_le hsize hnil hle, List.forall_mem_singleton]
        refine ⟨by simp, ?_, ?_⟩
        · intro heq
          exact heq ▸ Nat.dvd_refl _
        · intro hdvd
          exact Nat.le_antisymm hle (Nat.le_of_dvd (List.length_pos_iff.mpr hnil) hdvd)
      · have hlt := Nat.lt_of_not_le hle
        have hfirst : (arguments.take size).length = size :=
          List.length_take_of_le (Nat.le_of_lt hlt)
        have hne : portions hsize (arguments.drop size) ≠ [] := by
          intro hempty
          have hflatten := flatten_portions hsize (arguments.drop size)
          rw [hempty, List.flatten_nil, eq_comm, List.drop_eq_nil_iff] at hflatten
          exact hle hflatten
        obtain ⟨hfull, hdvd⟩ := ih _ (by rw [List.length_drop]; omega) (arguments.drop size) rfl
        rw [portions_of_lt hsize hlt, List.dropLast_cons_of_ne_nil hne]
        refine ⟨List.forall_mem_cons.mpr ⟨hfirst, hfull⟩, ?_⟩
        rw [List.forall_mem_cons, and_iff_right hfirst, hdvd, List.length_drop]
        exact Nat.dvd_sub_iff_left (Nat.le_of_lt hlt) (Nat.dvd_refl _)

/-- The further arguments of a chain are cut into portions. -/
theorem isPortioned_portions (hsize : 0 < size) (arguments : List α) :
    IsPortioned size arguments (portions hsize arguments) where
  flatten_eq := flatten_portions hsize arguments
  ne_nil portion h := (length_of_mem_portions hsize arguments portion h).1
  length_le portion h := (length_of_mem_portions hsize arguments portion h).2
  full := (full_portions hsize arguments).1
  full_iff := (full_portions hsize arguments).2

/-- A chain of applications that may fail goes through its portions, up to the first failure. -/
theorem runs_chain {attempt : List α → Except CompileError α} (hsize : 0 < size)
    (operands arguments : List α) :
    Runs attempt operands (portions hsize arguments)
      (attempt operands >>= fun made => chain attempt hsize made arguments) := by
  fun_induction portions hsize arguments generalizing operands with
  | case1 =>
      cases hmade : attempt operands with
      | error fault => exact .fault hmade
      | ok made =>
          have hend : (Except.ok made >>= fun made => chain attempt hsize made []) = .ok made := by
            show chain attempt hsize made [] = _
            rw [chain]
            rfl
          rw [hend]
          exact .last hmade
  | case2 argument rest ih =>
      cases hmade : attempt operands with
      | error fault => exact .fault hmade
      | ok made =>
          have hnext : (Except.ok made >>= fun made =>
              chain attempt hsize made (argument :: rest)) =
              (attempt (made :: (argument :: rest).take size) >>= fun made =>
                chain attempt hsize made ((argument :: rest).drop size)) := by
            show chain attempt hsize made (argument :: rest) = _
            rw [chain]
          rw [hnext]
          exact .next hmade (ih _)

/-- A chain reads from the left as the call so far, followed by the further arguments, if every
application reads as its operands do. -/
theorem read_of_chain {β : Type} {read : α → List β} {attempt : List α → Except CompileError α}
    (hread : ∀ operands made, attempt operands = .ok made → read made = operands.flatMap read)
    (hsize : 0 < size) {made result : α} {arguments : List α}
    (h : chain attempt hsize made arguments = .ok result) :
    read result = read made ++ arguments.flatMap read := by
  fun_induction chain attempt hsize made arguments with
  | case1 made =>
      cases h
      rw [List.flatMap_nil, List.append_nil]
  | case2 made argument rest ih =>
      obtain ⟨next, hnext, hrest⟩ := bind_eq_ok.mp h
      rw [ih next hrest, hread _ _ hnext, List.flatMap_cons, List.append_assoc,
        ← List.flatMap_append, List.take_append_drop]

/-- A call reads from the left as its arguments, if every application reads as its operands do. -/
theorem read_of_build {β : Type} {read : α → List β} {call : ResolvedCall}
    {attempt : Operation → List α → Except CompileError α}
    (hread : ∀ operands made, attempt (.call call.function) operands = .ok made →
      read made = operands.flatMap read)
    {arguments : List α} {result : α} (h : call.build arguments attempt = .ok result) :
    read result = arguments.flatMap read := by
  have hcount := length_of_build h
  by_cases harity : call.count = call.function.arity
  · rw [build, buildM_of_arity hcount harity] at h
    exact hread _ _ h
  · rw [build, buildM_of_ne hcount harity] at h
    obtain ⟨first, hfirst, hchain⟩ := bind_eq_ok.mp h
    rw [read_of_chain hread _ hchain, hread _ _ hfirst, ← List.flatMap_append,
      List.take_append_drop]

/-- The portions of a chain that takes one further argument at a time. -/
theorem portions_one (hsize : 0 < size) (hone : size = 1) (arguments : List α) :
    portions hsize arguments = arguments.map ([·]) := by
  subst hone
  induction arguments with
  | nil => rw [portions, List.map_nil]
  | cons argument rest ih =>
      rw [portions, List.take_succ_cons, List.take_zero, List.drop_succ_cons, List.drop_zero, ih,
        List.map_cons]

section Maker

variable {m : Type → Type} [Monad m] [LawfulMonad m] [MonadLiftT (Except CompileError) m]
variable {call : ResolvedCall}

/-- A call of a function of two arguments folds the arguments from the left. -/
theorem buildM_of_two {first : α} {rest : List α} (make : Operation → List α → m α)
    (hcount : (first :: rest).length = call.count) (htwo : call.function.arity = 2) :
    call.buildM (first :: rest) make =
      rest.foldlM (fun made argument => make (.call call.function) [made, argument]) first := by
  have hlength : rest.length + 1 = call.count := hcount
  have hfits := call.fits
  obtain ⟨second, rest, rfl⟩ : ∃ second others, rest = second :: others := by
    refine List.exists_cons_of_ne_nil (List.ne_nil_of_length_pos ?_)
    omega
  rw [List.foldlM_cons]
  by_cases harity : call.count = call.function.arity
  · have hnil : rest = [] := by
      rw [List.length_cons] at hlength
      exact List.length_eq_zero_iff.mp (by omega)
    rw [buildM_of_arity hcount harity, hnil]
    exact (bind_pure _).symm
  · rw [buildM_of_ne hcount harity]
    have hone := portions_one (call.more_pos harity) (by rw [htwo]) rest
    simp only [chain_eq_foldlM, htwo, List.take_succ_cons, List.take_zero, List.drop_succ_cons,
      List.drop_zero] at hone ⊢
    rw [hone]
    exact bind_congr fun made => List.foldlM_map ..

/-- A call that is resolved for some number of arguments is built from exactly so many. If the
function takes so many, the call is one application. Otherwise the function takes fewer, but two at
least: then the first application takes as many arguments as the function, and each further one
takes what is made so far and the next portion of one argument less, so that the applications end
with the arguments, and the first one that fails is the outcome. Read from the left, what is built
consists of the arguments, each once and in order, and a function of two arguments folds them. -/
theorem buildM_of_resolve {registry : Registry} {name : String} {n : Nat}
    (h : registry.resolve name n = .ok call) (arguments : List α)
    (make : Operation → List α → m α) (attempt : Operation → List α → Except CompileError α) :
    (arguments.length ≠ n →
      call.buildM arguments make =
        liftM (Except.error (.wrongArity call.function.name [call.function.arity]
          arguments.length) : Except CompileError α)) ∧
    (arguments.length = n → n = call.function.arity →
      call.buildM arguments make = make (.call call.function) arguments) ∧
    (arguments.length = n → n ≠ call.function.arity →
      2 ≤ call.function.arity ∧ call.function.arity < n ∧
      ∃ portions, IsPortioned (call.function.arity - 1) (arguments.drop call.function.arity)
          portions ∧
        ((∀ portion ∈ portions, portion.length = call.function.arity - 1) ↔
          call.function.arity - 1 ∣ n - call.function.arity) ∧
        call.buildM arguments make = (do
          let first ← make (.call call.function) (arguments.take call.function.arity)
          portions.foldlM (fun made portion => make (.call call.function) (made :: portion))
            first) ∧
        Runs (attempt (.call call.function)) (arguments.take call.function.arity) portions
          (call.build arguments attempt)) ∧
    (∀ {β : Type} (read : α → List β) (result : α),
      (∀ operands made, attempt (.call call.function) operands = .ok made →
        read made = operands.flatMap read) →
      call.build arguments attempt = .ok result → read result = arguments.flatMap read) ∧
    (∀ first rest, arguments = first :: rest → arguments.length = n → call.function.arity = 2 →
      call.buildM arguments make =
        rest.foldlM (fun made argument => make (.call call.function) [made, argument]) first) := by
  have hcount := Registry.count_of_resolve h
  subst hcount
  refine ⟨buildM_of_length_ne, buildM_of_arity, ?_, ?_, ?_⟩
  · intro hlength harity
    obtain ⟨-, htwo, hlt⟩ := call.fits.resolve_left harity
    have hsize := call.more_pos harity
    have hportioned := isPortioned_portions hsize (arguments.drop call.function.arity)
    refine ⟨htwo, hlt, portions hsize (arguments.drop call.function.arity), hportioned, ?_, ?_, ?_⟩
    · rw [hportioned.full_iff, List.length_drop, hlength]
    · simp only [buildM_of_ne hlength harity, chain_eq_foldlM]
    · rw [build, buildM_of_ne hlength harity]
      exact runs_chain hsize _ _
  · intro β read result hread hresult
    exact read_of_build hread hresult
  · rintro first rest rfl hlength htwo
    exact buildM_of_two make hlength htwo

/-- A variadic function of three arguments. -/
def choosing : Callable :=
  Callable.folding ["choose"] Callable.conditionalSignature Strict.choose

/-- Six arguments of a function of three are cut into the first three, the next two and the last
one. -/
theorem buildM_of_resolve_choosing :
    ∃ call, (Registry.empty.register choosing).resolve "choose" 6 = .ok call ∧
      call.function = choosing ∧ ∃ portions, IsPortioned 2 [[4], [5], [6]] portions ∧
        Runs (fun operands => .ok operands.flatten) [[1], [2], [3]] portions
          (call.build [[1], [2], [3], [4], [5], [6]] fun _ operands =>
            .ok (operands.flatten : List Nat)) := by
  have hfolds : (Registry.empty.register choosing).Folds "choose" 6 choosing :=
    ⟨rfl, rfl, by decide, by decide⟩
  obtain ⟨call, hcall⟩ := Registry.exists_resolve (.inr hfolds)
  have hfunction : call.function = choosing := by
    rcases Registry.function_of_resolve hcall with hexact | ⟨-, hfound, -⟩
    · cases hexact
    · rw [Registry.get_register] at hfound
      split at hfound
      · exact (Option.some.inj hfound).symm
      · cases hfound
  refine ⟨call, hcall, hfunction, ?_⟩
  obtain ⟨-, -, hchained, -, -⟩ := buildM_of_resolve (m := Except CompileError) hcall
    [[1], [2], [3], [4], [5], [6]] (fun _ operands => .ok (operands.flatten : List Nat))
    (fun _ operands => .ok operands.flatten)
  obtain ⟨-, -, portions, hportioned, -, -, hruns⟩ := hchained rfl (by rw [hfunction]; decide)
  rw [hfunction] at hportioned hruns
  exact ⟨portions, hportioned, hruns⟩

end Maker

end ResolvedCall

end Reckon
