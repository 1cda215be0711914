import Reckon.Expr.Build
import Reckon.Proofs.Expr.Stacks
import Reckon.Proofs.Fallible
import Reckon.Proofs.Function.Building
import Reckon.Proofs.Source.Operands

/-!
# Operations and names of parsed trees

A parsed tree applies operators, and functions that its registry lists, to constants and to
parameters with names. `Expr.Inherited` is what a property of trees needs to hold of all parsed
trees and `Building.Returns` carries it through the pass that builds them; `Expr.inherited_parse` is
the main statement, from which `Expr.over_parse` and `Expr.isName_parse` are read.
-/

namespace Reckon

/-- An operator, or a call of a function that the registry lists. -/
inductive Operation.From (registry : Registry) : Operation → Prop where
  | unary (operator : UnaryOperator) : From registry (.unary operator)
  | binary (operator : BinaryOperator) : From registry (.binary operator)
  | call {name : String} {function : Callable} (h : (name, function) ∈ registry.entries) :
      From registry (.call function)

/-- All operations of the tree are of some sort. -/
inductive Expr.Over (ops : Operation → Prop) : Expr → Prop where
  | constant (c : Constant) : Over ops (.constant c)
  | parameter (name : String) : Over ops (.parameter name)
  | operation {op : Operation} {arguments : List Expr} (hop : ops op)
      (harguments : ∀ argument ∈ arguments, Over ops argument) : Over ops (.operation op arguments)

/-- A property that trees have if their subtrees do: constants have it, parameters with names have
it, and operators and functions of the registry pass it on. -/
structure Expr.Inherited (registry : Registry) (P : Expr → Prop) : Prop where
  constant (c : Constant) : P (.constant c)
  parameter {name : Text} (h : Literal.isName name = true) : P (.parameter (String.ofList name))
  operation {op : Operation} {arguments : List Expr} (hop : op.From registry)
    (harguments : ∀ argument ∈ arguments, P argument) : P (.operation op arguments)

/-- Whatever literals are known, a result has the property. -/
def Building.Returns {α : Type} (P : α → Prop) (building : Building α) : Prop :=
  ∀ constants result, building constants = .ok result → P result.1

namespace Building

variable {α β : Type} {P : α → Prop} {Q : β → Prop}

theorem returns_pure {a : α} (h : P a) : Returns P (pure a : Building α) := by
  intro constants result hresult
  cases hresult
  exact h

theorem returns_throw {fault : CompileError} : Returns P (throw fault : Building α) :=
  nofun

theorem returns_lift {result : Except CompileError α} (h : ∀ a, result = .ok a → P a) :
    Returns P (liftM result : Building α) := by
  intro constants found hfound
  obtain ⟨a, ha, hrest⟩ := bind_eq_ok.mp hfound
  cases hrest
  exact h a ha

/-- Builders compose. -/
theorem Returns.bind {building : Building α} {next : α → Building β} (h : Returns P building)
    (hnext : ∀ a, P a → Returns Q (next a)) : Returns Q (building >>= next) := by
  intro constants result hresult
  obtain ⟨⟨a, constants⟩, hfirst, hrest⟩ := bind_eq_ok.mp hresult
  exact hnext a (h _ _ hfirst) _ _ hrest

end Building

namespace Registry

theorem mem_of_get {registry : Registry} {name : String} {arity : Nat} {function : Callable}
    (h : registry.get? name arity = some function) : ∃ key, (key, function) ∈ registry.entries := by
  obtain ⟨⟨key, found⟩, hfind, rfl⟩ := Option.map_eq_some_iff.mp h
  exact ⟨key, List.mem_of_find?_eq_some hfind⟩

/-- A function that a call is resolved to is listed in the registry. -/
theorem mem_of_resolve {registry : Registry} {name : String} {count : Nat} {call : ResolvedCall}
    (h : registry.resolve name count = .ok call) :
    ∃ key, (key, call.function) ∈ registry.entries := by
  unfold resolve at h
  split at h
  · next function hfunction =>
      cases h
      exact mem_of_get hfunction
  · split at h
    · next function hfunction =>
        cases h
        exact mem_of_get (get_of_variadic hfunction).1
    · split at h <;> cases h

end Registry

namespace ResolvedCall

variable {α : Type} {P : α → Prop}

/-- A chain of applications that never fail does not fail. -/
theorem exists_chain {make : List α → Except CompileError α}
    (hmake : ∀ arguments, ∃ made, make arguments = .ok made) {more : Nat} (hmore : 0 < more)
    (made : α) (arguments : List α) : ∃ result, chain make hmore made arguments = .ok result := by
  fun_induction chain make hmore made arguments with
  | case1 made => exact ⟨made, rfl⟩
  | case2 made argument rest ih =>
      obtain ⟨next, hnext⟩ := hmake (made :: (argument :: rest).take more)
      obtain ⟨result, hresult⟩ := ih next
      exact ⟨result, bind_eq_ok.mpr ⟨next, hnext, hresult⟩⟩

/-- A resolved call is built over as many arguments as it was resolved for, if no application
fails. -/
theorem exists_build {registry : Registry} {name : String} {arguments : List α}
    {call : ResolvedCall} (h : registry.resolve name arguments.length = .ok call)
    {make : Operation → List α → Except CompileError α}
    (hmake : ∀ op arguments, ∃ made, make op arguments = .ok made) :
    ∃ result, call.build arguments make = .ok result := by
  have hcount := (Registry.count_of_resolve h).symm
  by_cases harity : call.count = call.function.arity
  · rw [build, buildM_of_arity hcount harity]
    exact hmake _ arguments
  · rw [build, buildM_of_ne hcount harity]
    obtain ⟨first, hfirst⟩ := hmake (.call call.function) (arguments.take call.function.arity)
    obtain ⟨result, hresult⟩ := exists_chain (hmake (.call call.function))
      (call.more_pos harity) first (arguments.drop call.function.arity)
    exact ⟨result, bind_eq_ok.mpr ⟨first, hfirst, hresult⟩⟩

/-- What every application has, a chain of applications has. -/
theorem chain_ok {make : List α → Except CompileError α} {more : Nat} {hmore : 0 < more}
    (hmake : ∀ arguments made, (∀ argument ∈ arguments, P argument) →
      make arguments = .ok made → P made)
    {arguments : List α} {made result : α} (hmade : P made)
    (harguments : ∀ argument ∈ arguments, P argument)
    (h : chain make hmore made arguments = .ok result) : P result := by
  fun_induction chain make hmore made arguments with
  | case1 =>
      cases h
      exact hmade
  | case2 made argument rest ih =>
      obtain ⟨next, hnext, hrest⟩ := bind_eq_ok.mp h
      refine ih next (hmake _ next ?_ hnext)
        (fun a ha => harguments a (List.mem_of_mem_drop ha)) hrest
      exact List.forall_mem_cons.mpr ⟨hmade, fun a ha => harguments a (List.mem_of_mem_take ha)⟩

/-- What every application of the function has, the built call has. -/
theorem build_ok {call : ResolvedCall} {arguments : List α}
    {make : Operation → List α → Except CompileError α}
    (hmake : ∀ arguments made, (∀ argument ∈ arguments, P argument) →
      make (.call call.function) arguments = .ok made → P made)
    (harguments : ∀ argument ∈ arguments, P argument) {result : α}
    (h : call.build arguments make = .ok result) : P result := by
  have hcount := length_of_build h
  by_cases harity : call.count = call.function.arity
  · rw [build, buildM_of_arity hcount harity] at h
    exact hmake _ _ harguments h
  · rw [build, buildM_of_ne hcount harity] at h
    obtain ⟨first, hfirst, hrest⟩ := bind_eq_ok.mp h
    refine chain_ok hmake (hmake _ _ ?_ hfirst) ?_ hrest
    · exact fun a ha => harguments a (List.mem_of_mem_take ha)
    · exact fun a ha => harguments a (List.mem_of_mem_drop ha)

end ResolvedCall

namespace Expr

variable {registry : Registry} {grammar : Grammar} {P : Expr → Prop}

/-- Prefix operators pass an inherited property on. -/
theorem Inherited.applyPrefixes (hP : Inherited registry P) {prefixes : List UnaryOperator}
    {operand : Expr} (h : P operand) : P (applyPrefixes prefixes operand) := by
  induction prefixes generalizing operand with
  | nil => exact h
  | cons operator prefixes ih =>
      refine ih (hP.operation (.unary operator) ?_)
      rw [List.forall_mem_singleton]
      exact h

/-- A binary operation has an inherited property if its operands do. -/
theorem Inherited.binary (hP : Inherited registry P) (operator : BinaryOperator)
    {left right : Expr} (hleft : P left) (hright : P right) :
    P (.operation (.binary operator) [left, right]) := by
  refine hP.operation (.binary operator) ?_
  simp only [List.forall_mem_cons]
  exact ⟨hleft, hright, nofun⟩

/-- Completing waiting operators passes an inherited property on. -/
theorem Inherited.closeWhile (hP : Inherited registry P) {operator : BinaryOperator} {level : Nat}
    {pending : List Pending} {right : Expr} (hpending : ∀ p ∈ pending, P p.left)
    (hright : P right) :
    (∀ p ∈ (Pending.closeWhile grammar.precedence operator level pending right).1, P p.left) ∧
      P (Pending.closeWhile grammar.precedence operator level pending right).2 := by
  induction pending generalizing right with
  | nil => exact ⟨nofun, hright⟩
  | cons first rest ih =>
      rw [List.forall_mem_cons] at hpending
      unfold Pending.closeWhile
      split
      · exact ih hpending.2 (hP.binary _ hpending.1 hright)
      · exact ⟨List.forall_mem_cons.mpr hpending, hright⟩

/-- Completing all waiting operators passes an inherited property on. -/
theorem Inherited.closeAll (hP : Inherited registry P) {pending : List Pending} {right : Expr}
    (hpending : ∀ p ∈ pending, P p.left) (hright : P right) :
    P (pending.foldl (fun right pending => pending.close right) right) := by
  induction pending generalizing right with
  | nil => exact hright
  | cons first rest ih =>
      rw [List.forall_mem_cons] at hpending
      exact ih hpending.2 (hP.binary _ hpending.1 hright)

mutual
/-- Reading from an operand on passes an inherited property on. -/
theorem Inherited.returns_readOperand (hP : Inherited registry P) {leaf : Text → Building Expr}
    (hleaf : ∀ text, Building.Returns P (leaf text)) (pending : List Pending)
    (prefixes : List UnaryOperator) (last : Option Text) (pieces : List Piece)
    (hpending : ∀ p ∈ pending, P p.left) :
    Building.Returns P (readOperand grammar leaf pending prefixes last pieces) :=
  match pieces with
  | [] => by
      unfold readOperand
      split <;> exact Building.returns_throw
  | .operand text :: rest => by
      unfold readOperand
      refine (hleaf text).bind ?_
      intro operand hoperand
      exact hP.returns_readOperator hleaf pending _ rest hpending (hP.applyPrefixes hoperand)
  | .operator occurrence :: rest => by
      unfold readOperand
      split
      · exact hP.returns_readOperand hleaf pending _ _ rest hpending
      · exact Building.returns_throw

/-- Reading from behind an operand on passes an inherited property on. -/
theorem Inherited.returns_readOperator (hP : Inherited registry P) {leaf : Text → Building Expr}
    (hleaf : ∀ text, Building.Returns P (leaf text)) (pending : List Pending)
    (operand : Expr) (pieces : List Piece) (hpending : ∀ p ∈ pending, P p.left)
    (hoperand : P operand) :
    Building.Returns P (readOperator grammar leaf pending operand pieces) :=
  match pieces with
  | [] => by
      unfold readOperator
      exact Building.returns_pure (hP.closeAll hpending hoperand)
  | .operand text :: rest => by
      unfold readOperator
      exact Building.returns_throw
  | .operator occurrence :: rest => by
      unfold readOperator
      split
      · next operator level _ =>
          obtain ⟨hclosed, hleft⟩ := hP.closeWhile hpending hoperand
          exact hP.returns_readOperand hleaf _ _ _ rest
            (List.forall_mem_cons.mpr ⟨hleft, hclosed⟩)
      · exact Building.returns_throw
end

/-- An operand is one of the trees before it, a constant, or a parameter with a name. -/
theorem Inherited.returns_ofOperand (hP : Inherited registry P) {symbols : SymbolTable}
    {trees : List Expr} (htrees : ∀ tree ∈ trees, P tree) (text : Text) :
    Building.Returns P (ofOperand symbols trees text) := by
  intro constants result h
  unfold ofOperand at h
  split at h
  · split at h
    · next tree htree =>
        cases h
        exact htrees tree (List.mem_of_getElem? htree)
    · cases h
  · split at h
    · cases h
      exact hP.constant _
    · split at h
      · cases h
      · split at h
        · cases h
          exact hP.constant _
        · cases h
      · split at h
        · cases h
        · next hname =>
            cases h
            exact hP.parameter (Literal.isName_of_ofText hname)
        · cases h

/-- A symbol is an operator expression over the trees before it, or a call of a listed function. -/
theorem Inherited.returns_ofSymbol (hP : Inherited registry P) {symbols : SymbolTable}
    {trees : List Expr} {symbol : Symbol} (htrees : ∀ tree ∈ trees, P tree) :
    Building.Returns P (ofSymbol grammar registry symbols trees symbol) := by
  unfold ofSymbol
  split
  · rw [ofFlat_eq_readOperand]
    exact hP.returns_readOperand (hP.returns_ofOperand htrees) _ _ _ _ nofun
  · split
    · exact Building.returns_throw
    · next function ids arguments harguments =>
        have harguments : ∀ argument ∈ arguments, P argument :=
          forall_of_mapM (fun id tree h => htrees tree (List.mem_of_getElem? h)) harguments
        refine (Building.returns_lift fun call hcall => hcall).bind ?_
        intro call hcall
        refine Building.returns_lift ?_
        intro tree htree
        obtain ⟨key, hkey⟩ := Registry.mem_of_resolve hcall
        refine ResolvedCall.build_ok (fun arguments made harguments hmade => ?_) harguments htree
        cases hmade
        exact hP.operation (.call hkey) harguments

/-- The trees of all symbols have an inherited property. -/
theorem Inherited.returns_ofSymbols (hP : Inherited registry P) {symbols : SymbolTable}
    {trees : List Expr} {rest : List Symbol} (htrees : ∀ tree ∈ trees, P tree) :
    Building.Returns (fun trees => ∀ tree ∈ trees, P tree)
      (ofSymbols grammar registry symbols trees rest) := by
  induction rest generalizing trees with
  | nil => exact Building.returns_pure htrees
  | cons symbol rest ih =>
      refine (hP.returns_ofSymbol htrees).bind fun tree htree => ih ?_
      rw [List.forall_mem_append, List.forall_mem_singleton]
      exact ⟨htrees, htree⟩

/-- A parsed tree has every inherited property. -/
theorem inherited_parse (hP : Inherited registry P) {source : Text} {tree : Expr}
    (h : parse grammar registry source = .ok tree) : P tree := by
  obtain ⟨⟨symbols, constants⟩, -, h⟩ := bind_eq_ok.mp h
  obtain ⟨⟨found, rest⟩, hfound, h⟩ := bind_eq_ok.mp h
  cases h
  refine Building.Returns.bind (hP.returns_ofSymbols (List.forall_mem_nil _))
    (fun trees htrees => ?_) _ _ hfound
  split
  · next tree htree =>
      obtain ⟨id, -, htree⟩ := Option.bind_eq_some_iff.mp htree
      exact Building.returns_pure (htrees _ (List.mem_of_getElem? htree))
  · exact Building.returns_throw

/-- A parsed tree applies operators and functions of the registry. -/
theorem over_parse {source : Text} {tree : Expr} (h : parse grammar registry source = .ok tree) :
    tree.Over (Operation.From registry) :=
  inherited_parse ⟨.constant, fun _ => .parameter _, .operation⟩ h

theorem mem_parameterNamesOfAll {name : String} {trees : List Expr} :
    name ∈ parameterNamesOfAll trees ↔ ∃ tree ∈ trees, name ∈ tree.parameterNames := by
  induction trees with
  | nil => simp [parameterNamesOfAll]
  | cons tree trees ih => simp [parameterNamesOfAll, ih]

/-- That all parameters have names is inherited. -/
theorem inherited_isName (registry : Registry) : Inherited registry fun tree =>
    ∀ name ∈ tree.parameterNames, Literal.isName name.toList = true where
  constant _ := nofun
  parameter htext name hname := by
    rw [parameterNames, List.mem_singleton] at hname
    rwa [hname, String.toList_ofList]
  operation _ harguments name hname := by
    rw [parameterNames, mem_parameterNamesOfAll] at hname
    obtain ⟨argument, hargument, hname⟩ := hname
    exact harguments argument hargument name hname

/-- The parameters of a parsed tree have names. -/
theorem isName_parse {source : Text} {tree : Expr} (h : parse grammar registry source = .ok tree) :
    ∀ name ∈ tree.parameterNames, Literal.isName name.toList = true :=
  inherited_parse (inherited_isName registry) h

end Expr

end Reckon
