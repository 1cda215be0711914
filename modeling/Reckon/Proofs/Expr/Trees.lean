import Reckon.Proofs.Source.Tables

/-!
# Building the trees of a table

The trees of a table are built in the order of its symbols, and each is the one that its symbol has
by the trees before it (`follows_ofTable`). Literals that are met on the way are entered as
constants, which changes no tree.
-/

namespace Reckon

open Sketch (Written Tidy)
open SymbolTable (known Denotes Covers)
open Building (Follows)

/-- The literals that are known after building: those of the table, and others of the source. -/
structure ConstantTable.Learned (source : Text) (constants learned : ConstantTable) : Prop where
  regular : learned.Regular source
  kept : constants.entries <+: learned.entries

/-- A literal without quotes has the value that it is read as. -/
theorem ConstantTable.valueOf_unquoted {table : ConstantTable} (hquote : table.quote = ['"'])
    {text : Text} (h : '"' ∉ text) :
    table.valueOf? text = (Literal.ofText text).map fun literal => literal.bind (·.value?) := by
  have hbody : StringLiteral.body? ['"'] text = none := by
    unfold StringLiteral.body?
    split
    · next hfirst =>
        obtain ⟨rest, rfl⟩ := List.isPrefixOf_iff_prefix.mp hfirst
        exact absurd (.head _) h
    · rfl
  rw [valueOf?, hquote, hbody]

namespace Expr

variable {registry : Registry} {source : Text} {constants : ConstantTable} {table : SymbolTable}
  {found trees : List (Option Expr)} {built : List Expr} {symbols : List Symbol}

/-- An operand that is no generated name is a literal or a parameter. -/
theorem follows_leaf (h : table.Covers registry source constants found)
    (hconstants : constants.Regular source) (built : List Expr) {operand : Text}
    (hgenerated : ¬ Generated source operand) (htrim : Text.trim operand = operand)
    (hquote : '"' ∉ operand) :
    Follows (ConstantTable.Learned source constants) (ofOperand table built operand)
      (ofLeaf? operand) := by
  intro learned hlearned
  have hlookup : table.lookup? operand = none := by
    have hnone := h.lookup_eq operand
    rw [Written.known_of_not_generated (h.generated hconstants) hgenerated, Option.isSome_none,
      Bool.or_eq_false_iff] at hnone
    simpa using hnone.1
  have hget : learned.get? operand = none := by
    cases hget : learned.get? operand with
    | none => rfl
    | some entry => exact absurd (hlearned.regular.generated hget) hgenerated
  have hvalue := ConstantTable.valueOf_unquoted hlearned.regular.quote hquote
  have hother (h : ∀ value, learned.valueOf? operand ≠ .ok (some value)) :
      learned.enter operand = (learned.valueOf? operand).map fun _ => (none, learned) := by
    have henter := hlearned.regular.enter_other operand (by rwa [htrim])
    rwa [htrim] at henter
  -- Only a literal with a value is entered; whatever fails to be read fails either way.
  simp only [ofOperand, hlookup, hget, ofLeaf?]
  cases hread : Literal.ofText operand with
  | error fault =>
      rw [hread] at hvalue
      rw [hother (by rw [hvalue]; rintro _ ⟨⟩), hvalue]
      exact ⟨_, rfl⟩
  | ok literal =>
      rw [hread] at hvalue
      cases literal with
      | none =>
          rw [hother (by rw [hvalue]; rintro _ ⟨⟩), hvalue]
          exact ⟨_, rfl⟩
      | some literal =>
          cases hliteral : literal.value? with
          | some value =>
              have hsome : learned.valueOf? (Text.trim operand) = .ok (some value) := by
                rw [htrim, hvalue]
                exact congrArg Except.ok hliteral
              obtain ⟨name, more, henter, hmore, hkept, hentry⟩ :=
                hlearned.regular.enter_literal hsome
              rw [henter]
              simp only [hentry, htrim]
              cases literal with
              | name => cases hliteral
              | float | integer | bytes | boolean =>
                  simp only [hliteral]
                  exact ⟨_, rfl, hmore, hlearned.kept.trans hkept⟩
          | none =>
              have hnone : learned.valueOf? operand = .ok none := by
                rw [hvalue]
                exact congrArg Except.ok hliteral
              rw [hother (by rw [hnone]; rintro _ ⟨⟩), hnone]
              cases literal with
              | name name => exact ⟨_, rfl, hlearned⟩
              | float | integer | bytes | boolean =>
                  simp only [hliteral]
                  exact ⟨_, rfl⟩

/-- A known name is the operand that it stands for. -/
theorem follows_known (h : table.Covers registry source constants found)
    (hconstants : constants.Regular source) (hsymbols : symbols <+: table.symbols)
    {operand : Text} {tree : Option Expr}
    (hoperand : known constants symbols (built.map some) operand = some tree) :
    Follows (ConstantTable.Learned source constants) (ofOperand table built operand) tree := by
  intro learned hlearned
  unfold known at hoperand
  -- Symbols that were added later leave the first symbol of this name in its place.
  cases hfind : symbols.findIdx? (·.name == operand) with
  | some id =>
      rw [hfind] at hoperand
      have hlookup : table.lookup? operand = some id := by
        obtain ⟨more, hmore⟩ := hsymbols
        rw [SymbolTable.lookup?, ← hmore, List.findIdx?_append, hfind, Option.some_or]
      simp only [List.getElem?_map, Option.map_eq_some_iff] at hoperand
      obtain ⟨node, hnode, rfl⟩ := hoperand
      simp only [ofOperand, hlookup, hnode]
      exact ⟨_, rfl, hlearned⟩
  | none =>
      rw [hfind] at hoperand
      obtain ⟨entry, hget, rfl⟩ := Option.map_eq_some_iff.mp hoperand
      have hlookup : table.lookup? operand = none := by
        cases hlookup : table.lookup? operand with
        | none => rfl
        | some id =>
            obtain ⟨hid, hsymbol, -⟩ := List.findIdx?_eq_some_iff_getElem.mp hlookup
            have hname : table.symbols[id].name = operand := by simpa using hsymbol
            have hmem : operand ∈ table.symbols.map (·.name) :=
              List.mem_map.mpr ⟨_, List.getElem_mem hid, hname⟩
            exact absurd (ConstantTable.mem_names_of_get hget)
              (h.regular.not_mem_constants hconstants hmem)
      simp only [ofOperand, hlookup, ConstantTable.get_of_isPrefix hlearned.kept hget]
      exact ⟨_, rfl, hlearned⟩

/-- The operands of a text are built as its sketch says. -/
theorem follows_operand (h : table.Covers registry source constants found)
    (hconstants : constants.Regular source) (hsymbols : symbols <+: table.symbols)
    {piece operand : Text} {sketch : Sketch}
    (hwritten : Written (known constants symbols (built.map some)) piece sketch)
    (htidy : Tidy source sketch) (hflat : .char ',' ∉ sketch)
    (hoperand : .operand operand ∈ Grammar.standard.lexemes (Text.trim piece)) :
    Follows (ConstantTable.Learned source constants) (ofOperand table built operand)
      (Sketch.leafOf (known constants symbols (built.map some)) operand) := by
  have hknown := SymbolTable.generated_of_known (built.map some)
    (fun symbol hsymbol => h.regular.generated symbol (hsymbols.subset hsymbol)) hconstants
  rw [Grammar.lexemes_trim Grammar.lexical_standard] at hoperand
  obtain ⟨-, htrim, hpart⟩ := Grammar.operand_of_mem_lexemes hoperand
  have hplain (hgenerated : ¬ Generated source operand) :
      Follows (ConstantTable.Learned source constants) (ofOperand table built operand)
        (Sketch.leafOf (known constants symbols (built.map some)) operand) := by
    have hquote : '"' ∉ operand := fun hmem => htidy.unquoted
      ((hwritten.mem_iff hknown (by decide)).mp (hpart.subset hmem))
    rw [Sketch.leafOf, Written.known_of_not_generated hknown hgenerated]
    exact follows_leaf h hconstants built hgenerated htrim hquote
  rcases hwritten.operand_cases Grammar.lexical_standard hknown htidy hflat hoperand with
    hdivided | ⟨tree, htree⟩ | hsaid
  · exact hplain (Written.not_generated_of_divided hdivided)
  · rw [Sketch.leafOf, htree]
    exact follows_known h hconstants hsymbols htree
  · exact hplain (Written.not_generated_of_said htidy hsaid)

/-- Trees are looked up among those that were built. -/
theorem mapM_getElem_map {ids : List Nat} {arguments : List (Option Expr)}
    (h : ids.mapM ((built.map some)[·]?) = some arguments) :
    ∃ nodes, ids.mapM (built[·]?) = some nodes ∧ arguments = nodes.map some := by
  induction ids generalizing arguments with
  | nil =>
      cases h
      exact ⟨[], rfl, rfl⟩
  | cons id ids ih =>
      rw [List.mapM_cons] at h
      simp only [Option.bind_eq_bind, Option.bind_eq_some_iff, Option.pure_def,
        Option.some.injEq, List.getElem?_map, Option.map_eq_some_iff] at h
      obtain ⟨_, ⟨node, hnode, rfl⟩, rest, hrest, rfl⟩ := h
      obtain ⟨nodes, hnodes, rfl⟩ := ih (by simpa [List.getElem?_map] using hrest)
      refine ⟨node :: nodes, ?_, rfl⟩
      rw [List.mapM_cons, hnode, hnodes]
      rfl

theorem follows_lift {α : Type} {invariant : ConstantTable → Prop}
    (result : Except CompileError α) :
    Follows invariant (liftM result : Building α) result.toOption := by
  intro learned hlearned
  cases result with
  | error fault => exact ⟨fault, rfl⟩
  | ok a => exact ⟨learned, rfl, hlearned⟩

/-- The trees of symbols are built one after the other. -/
theorem ofSymbols_append (before after : List Symbol) (built : List Expr) :
    ofSymbols Grammar.standard registry table built (before ++ after) =
      ofSymbols Grammar.standard registry table built before >>= fun built =>
        ofSymbols Grammar.standard registry table built after := by
  induction before generalizing built with
  | nil => simp [ofSymbols]
  | cons symbol before ih =>
      rw [List.cons_append, ofSymbols, ofSymbols, bind_assoc]
      exact bind_congr fun tree => ih (built ++ [tree])

/-- One more tree is built, if it is there. -/
theorem follows_concat (hbuilt : Follows (ConstantTable.Learned source constants)
      (ofSymbols Grammar.standard registry table [] symbols) (trees.mapM id))
    {symbol : Symbol} {tree : Option Expr}
    (hsymbol : ∀ built, trees = built.map some → Follows (ConstantTable.Learned source constants)
      (ofSymbol Grammar.standard registry table built symbol) tree) :
    Follows (ConstantTable.Learned source constants)
      (ofSymbols Grammar.standard registry table [] (symbols ++ [symbol]))
      ((trees ++ [tree]).mapM id) := by
  have hresult : (trees ++ [tree]).mapM id =
      (trees.mapM id).bind fun built => tree.bind fun node => some (built ++ [node]) := by
    rw [List.mapM_append, List.mapM_cons, List.mapM_nil]
    cases trees.mapM id with
    | none => rfl
    | some built =>
        cases tree with
        | none => rfl
        | some node => rfl
  rw [ofSymbols_append, hresult]
  refine hbuilt.bind ?_
  intro built hall
  rw [ofSymbols]
  refine (hsymbol built (eq_map_of_mapM_id hall)).bind ?_
  intro node _
  exact Building.follows_pure _

/-- The trees of symbols are built as the symbols denote them. -/
theorem follows_ofSymbols (h : table.Covers registry source constants found)
    (hconstants : constants.Regular source)
    (hdenotes : Denotes registry source constants symbols trees)
    (hsymbols : symbols <+: table.symbols) :
    Follows (ConstantTable.Learned source constants)
      (ofSymbols Grammar.standard registry table [] symbols) (trees.mapM id) := by
  -- The last symbol is built over the trees of those before it.
  induction hdenotes with
  | nil => exact Building.follows_pure []
  | @expression symbols trees piece sketch name dependencies before hwritten htidy hflat ih =>
      have hbefore : symbols <+: table.symbols := (List.prefix_append _ _).trans hsymbols
      refine follows_concat (ih hbefore) ?_
      intro built hall
      rw [hall] at hwritten
      have hknown := SymbolTable.generated_of_known (built.map some)
        (fun symbol hsymbol => h.regular.generated symbol (hbefore.subset hsymbol)) hconstants
      rw [← hwritten.read_eq Grammar.lexical_standard hknown htidy hflat,
        ← Grammar.lexemes_trim Grammar.lexical_standard]
      exact follows_ofFlat fun operand hoperand =>
        follows_operand h hconstants hbefore hwritten htidy hflat hoperand
  | @call symbols trees ids arguments name function before hids ih =>
      refine follows_concat (ih ((List.prefix_append _ _).trans hsymbols)) ?_
      intro built hall
      rw [hall] at hids
      obtain ⟨nodes, hnodes, rfl⟩ := mapM_getElem_map hids
      have hcall : ofSymbol Grammar.standard registry table built ⟨name, .call function ids⟩ =
          liftM (registry.resolve (String.ofList function) nodes.length) >>= fun call =>
            liftM (call.build nodes fun op arguments => .ok (.operation op arguments)) := by
        rw [ofSymbol]
        simp only [hnodes]
      rw [hcall, ofCall, mapM_id_map]
      exact (follows_lift _).bind fun call _ => follows_lift _

/-- The tree of a table is the one that its root denotes, if all its symbols have trees. -/
theorem follows_ofTable (h : table.Covers registry source constants found)
    (hconstants : constants.Regular source) :
    Follows (ConstantTable.Learned source constants)
      (ofTable Grammar.standard registry table)
      ((found.mapM id).bind fun built => table.root.bind (built[·]?)) := by
  refine (follows_ofSymbols h hconstants h.denotes (List.prefix_refl _)).bind ?_
  intro built _
  cases table.root.bind (built[·]?) with
  | some tree => exact Building.follows_pure tree
  | none => exact Building.follows_throw _

variable (h : table.Covers registry source constants found) (hconstants : constants.Regular source)
  {root : Nat} (hroot : table.root = some root)
include h hconstants hroot

/-- A table of which each symbol has a tree has the tree of its root. -/
theorem ofTable_complete {tree : Expr} (hall : none ∉ found)
    (htree : found[root]? = some (some tree)) :
    ∃ learned, ofTable Grammar.standard registry table constants = .ok (tree, learned) := by
  have hrun := follows_ofTable h hconstants constants ⟨hconstants, List.prefix_refl _⟩
  obtain ⟨built, rfl⟩ := exists_map_some hall
  rw [List.getElem?_map, Option.map_eq_some_iff] at htree
  obtain ⟨node, hnode, heq⟩ := htree
  cases heq
  rw [mapM_id_map, Option.bind_some, hroot, Option.bind_some, hnode] at hrun
  obtain ⟨learned, hrun, -⟩ := hrun
  exact ⟨learned, hrun⟩

/-- The tree of a table is that of its root. -/
theorem ofTable_sound {tree : Expr} {learned : ConstantTable} {denoted : Option Expr}
    (hrun : ofTable Grammar.standard registry table constants = .ok (tree, learned))
    (htree : found[root]? = some denoted) : denoted = some tree := by
  have hfollows := follows_ofTable h hconstants constants ⟨hconstants, List.prefix_refl _⟩
  cases hbuilt : found.mapM id with
  | none =>
      rw [hbuilt] at hfollows
      obtain ⟨fault, hfault⟩ := hfollows
      cases hrun.symm.trans hfault
  | some built =>
      obtain rfl := eq_map_of_mapM_id hbuilt
      rw [List.getElem?_map, Option.map_eq_some_iff] at htree
      obtain ⟨node, hnode, rfl⟩ := htree
      rw [hbuilt, Option.bind_some, hroot, Option.bind_some, hnode] at hfollows
      obtain ⟨_, hfollows, -⟩ := hfollows
      cases hrun.symm.trans hfollows
      rfl

end Expr

end Reckon
