import Reckon.Proofs.Expr.Climbing
import Reckon.Proofs.Expr.Operations
import Reckon.Proofs.Source.Boundaries
import Reckon.Proofs.Source.Termination

/-!
# A resolved source never refers to what is not there

`Grammar.cut_closed` is the statement to read first. It collects what is known of a table that was
cut out of a source, in any grammar that can be compiled against, and concludes that building its
trees never meets a symbol before its tree or an argument without one. Trees are built in the order
of the symbols, so what this takes is that operands which name symbols are words of their text
(`Grammar.operand_mem_words`), and that such words name earlier symbols (`Closed.depends`).
-/

namespace Reckon

deriving instance DecidableEq for SymbolContent

/-- The error says that a symbol refers to something that is not there. -/
inductive CompileError.IsDangling : CompileError → Prop where
  | usedBeforeDefined (name : Text) : IsDangling (.malformed (.usedBeforeDefined name))
  | unresolvedArgument (function : Text) : IsDangling (.malformed (.unresolvedArgument function))

namespace Expr

variable {grammar : Grammar} {registry : Registry} {symbols : SymbolTable} {trees : List Expr}
  {constants : ConstantTable} {fault : CompileError}

/-- An operand refers to what is there if it names a symbol that has its tree, or none. -/
theorem not_isDangling_ofOperand {operand : Text}
    (hoperand : ∀ id, symbols.lookup? operand = some id → id < trees.length)
    (h : ofOperand symbols trees operand constants = .error fault) : ¬ fault.IsDangling := by
  cases operandFault_of_eq_error h with
  | usedBeforeDefined hid hbehind => exact absurd (hoperand _ hid) (Nat.not_lt.mpr hbehind)
  | unrecognized => nofun
  | literal hliteral => cases hliteral <;> nofun

/-- A flat expression refers to what is there if its operands do. -/
theorem not_isDangling_ofFlat {leaf : Text → Building Expr} {text : Text}
    (hleaf : ∀ operand, .operand operand ∈ Piece.ofOccurrences text 0 (grammar.occurrences text) →
      ∀ constants fault, leaf operand constants = .error fault → ¬ fault.IsDangling)
    (h : ofFlat grammar leaf text constants = .error fault) : ¬ fault.IsDangling := by
  cases flatFault_of_ofFlat h with
  | leaf hmem h => exact hleaf _ hmem _ _ h
  | emptyExpression | missingOperator | missingLeftOperand | missingRightOperand
  | cannotFollowOperand => nofun

/-- Finding an overload fails by the name or the number of the arguments. -/
theorem not_isDangling_resolve {name : String} {count : Nat}
    (h : registry.resolve name count = .error fault) : ¬ fault.IsDangling := by
  unfold Registry.resolve at h
  split at h
  · cases h
  · split at h
    · cases h
    · split at h <;> cases h <;> nofun

/-- Trees are found under numbers that there are trees for. -/
theorem exists_mapM_getElem {ids : List Nat} (h : ∀ id ∈ ids, id < trees.length) :
    ∃ arguments, ids.mapM (trees[·]?) = some arguments := by
  induction ids with
  | nil => exact ⟨[], rfl⟩
  | cons id ids ih =>
      rw [List.forall_mem_cons] at h
      obtain ⟨arguments, harguments⟩ := ih h.2
      refine ⟨trees.get ⟨id, h.1⟩ :: arguments, ?_⟩
      simp [h.1, harguments]

/-- A symbol refers to what is there, if the symbols before it have their trees. -/
theorem not_isDangling_ofSymbol (hgrammar : grammar.check = .ok ()) {source : Text}
    (hclosed : symbols.Closed grammar source) {symbol : Symbol}
    (hid : symbols.get? trees.length = some symbol)
    (h : ofSymbol grammar registry symbols trees symbol constants = .error fault) :
    ¬ fault.IsDangling := by
  unfold ofSymbol at h
  obtain ⟨name, content⟩ := symbol
  cases content with
  | expression text dependencies =>
      refine not_isDangling_ofFlat (fun operand hoperand constants fault hfault => ?_) h
      refine not_isDangling_ofOperand (fun d hd => ?_) hfault
      -- An operand that names a symbol is a word, and the words of the text name earlier symbols.
      obtain ⟨hlt, hname, -⟩ := List.findIdx?_eq_some_iff_getElem.mp hd
      rw [beq_iff_eq] at hname
      have hgenerated := hclosed.regular.generated _ (List.getElem_mem hlt)
      have hword : operand ∈ Text.words text := by
        refine Grammar.operand_mem_words hgrammar hoperand fun c hc => ?_
        exact hgenerated.isWordChar_of_mem (hname ▸ hc)
      exact hclosed.lt_of_depends hid
        (hclosed.depends hid (List.getElem?_eq_getElem hlt) (hname ▸ hword))
  | call function ids =>
      obtain ⟨arguments, harguments⟩ := exists_mapM_getElem (hclosed.lt_of_argument hid)
      simp only [harguments] at h
      rcases bindState_eq_error.mp h with hresolve | ⟨call, middle, hresolve, hbuild⟩
      · exact not_isDangling_resolve (liftState_eq_error.mp hresolve)
      · -- A call that is found is built.
        obtain ⟨result, hresult⟩ := ResolvedCall.exists_build (liftState_eq_ok.mp hresolve).1
          fun op arguments => ⟨Expr.operation op arguments, rfl⟩
        cases hresult.symm.trans (liftState_eq_error.mp hbuild)

/-- Trees of further symbols refer to what is there. -/
theorem not_isDangling_ofSymbols (hgrammar : grammar.check = .ok ()) {source : Text}
    (hclosed : symbols.Closed grammar source) {rest : List Symbol}
    (hrest : symbols.symbols.drop trees.length = rest)
    (h : ofSymbols grammar registry symbols trees rest constants = .error fault) :
    ¬ fault.IsDangling := by
  induction rest generalizing trees constants with
  | nil => cases h
  | cons symbol rest ih =>
      have hid : symbols.get? trees.length = some symbol := by
        rw [SymbolTable.get?, ← List.head?_drop, hrest]
        rfl
      rcases bindState_eq_error.mp h with hfirst | ⟨tree, middle, -, hnext⟩
      · exact not_isDangling_ofSymbol hgrammar hclosed hid hfirst
      · refine ih ?_ hnext
        rw [List.length_append, List.length_singleton, ← List.drop_drop, hrest]
        rfl

/-- The trees of a closed table refer to what is there. -/
theorem not_isDangling_ofTable (hgrammar : grammar.check = .ok ()) {source : Text}
    (hclosed : symbols.Closed grammar source)
    (h : ofTable grammar registry symbols constants = .error fault) : ¬ fault.IsDangling := by
  rcases bindState_eq_error.mp h with htrees | ⟨trees, middle, -, hroot⟩
  · exact not_isDangling_ofSymbols hgrammar hclosed rfl htrees
  · cases hfound : symbols.root.bind (trees[·]?) with
    | some tree =>
        rw [hfound] at hroot
        cases hroot
    | none =>
        rw [hfound] at hroot
        cases hroot
        nofun

end Expr

/-- In a table that is cut out of a source, the root is a symbol, texts are flat, symbols refer to
earlier ones, and every word of a text that names a symbol is one of its dependencies. So no tree of
the table misses a symbol or an argument that it refers to. -/
theorem Grammar.cut_closed {grammar : Grammar} (hgrammar : grammar.check = .ok ()) {source : Text}
    {symbols : SymbolTable} {constants : ConstantTable}
    (h : grammar.cut source = .ok (symbols, constants)) :
    (∃ root < symbols.size, symbols.root = some root) ∧
    (∀ id name text dependencies,
      symbols.get? id = some ⟨name, .expression text dependencies⟩ →
        grammar.IsFlat text ∧ (∀ d ∈ dependencies, d < id) ∧
          ∀ d symbol, symbols.get? d = some symbol → symbol.name ∈ Text.words text →
            d ∈ dependencies) ∧
    (∀ id name function arguments,
      symbols.get? id = some ⟨name, .call function arguments⟩ →
        ∀ argument ∈ arguments, argument < id) ∧
    ∀ registry name,
      Expr.ofTable grammar registry symbols constants ≠
          .error (.malformed (.usedBeforeDefined name)) ∧
        Expr.ofTable grammar registry symbols constants ≠
          .error (.malformed (.unresolvedArgument name)) := by
  obtain ⟨hclosed, hroot⟩ := closed_cut (punctuated_of_check hgrammar) h
  refine ⟨hroot, fun id name text dependencies hid => ?_, fun id name function arguments hid => ?_,
    fun registry name => ?_⟩
  · have hflat := (hclosed.inOrder.admits hid).1
    exact ⟨hflat, fun d => hclosed.lt_of_depends hid, fun d symbol => hclosed.depends hid⟩
  · exact hclosed.lt_of_argument hid
  · have hbuilt {fault : CompileError}
        (hfault : Expr.ofTable grammar registry symbols constants = .error fault) :
        ¬ fault.IsDangling := Expr.not_isDangling_ofTable hgrammar hclosed hfault
    exact ⟨fun hfault => hbuilt hfault (.usedBeforeDefined name),
      fun hfault => hbuilt hfault (.unresolvedArgument name)⟩

/-- A call with a group in its second argument: the text around the group refers to the group, the
call to its arguments, and trees are there for both. -/
theorem Grammar.cut_closed_call :
    ∃ symbols constants, Grammar.standard.cut "min(a, 1 + (b))".toList = .ok (symbols, constants) ∧
      symbols.root = some 3 ∧
      symbols.symbols.map (·.content) =
        [.expression "b".toList [], .expression "a".toList [],
          .expression "1 +  __s0".toList [0], .call "min".toList [1, 2]] ∧
      (∀ d symbol, symbols.get? d = some symbol →
        symbol.name ∈ Text.words "1 +  __s0".toList → d ∈ [0]) ∧
      ∀ name, Expr.ofTable Grammar.standard Registry.standard symbols constants ≠
        .error (.malformed (.usedBeforeDefined name)) := by
  have hcut : ((Grammar.standard.cut "min(a, 1 + (b))".toList).toOption.map fun result =>
      (result.1.root, result.1.symbols.map (·.content))) =
        some (some 3, [.expression "b".toList [], .expression "a".toList [],
          .expression "1 +  __s0".toList [0], .call "min".toList [1, 2]]) := by decide +kernel
  cases h : Grammar.standard.cut "min(a, 1 + (b))".toList with
  | error fault =>
      rw [h] at hcut
      cases hcut
  | ok result =>
      rw [h] at hcut
      obtain ⟨symbols, constants⟩ := result
      obtain ⟨hroot, hcontents⟩ := Prod.mk.inj (Option.some.inj hcut)
      obtain ⟨-, htexts, -, hbuilt⟩ := Grammar.cut_closed (by rfl) h
      refine ⟨symbols, constants, rfl, hroot, hcontents, ?_, fun name =>
        (hbuilt Registry.standard name).1⟩
      have hcontent : symbols.symbols[2]?.map (·.content) =
          some (.expression "1 +  __s0".toList [0]) := by
        rw [← List.getElem?_map, hcontents]
        rfl
      obtain ⟨⟨name, content⟩, hsymbol, rfl⟩ := Option.map_eq_some_iff.mp hcontent
      exact (htexts 2 name _ _ hsymbol).2.2

end Reckon
