import Reckon.Proofs.Source.Tables

/-!
# Entering symbols

A text is entered as a symbol with the tree that the text is read as, whether the symbol is new, was
entered with the same text before, or is named by the text (`Covers.enterExpression`); a call is
entered as a symbol with the tree of the call. Several texts are entered one by one, and that fails
only if one of them is blank.
-/

namespace Reckon

open Sketch (Written Tidy)

theorem readLexemes_operand (grammar : Grammar) (leaf : Text → Option Expr) (operand : Text) :
    readLexemes grammar leaf [.operand operand] = leaf operand := by
  rw [readLexemes, mapM_item_cons, Lexeme.item?]
  cases leaf operand with
  | none => rfl
  | some tree => rfl

namespace SymbolTable

variable {registry : Registry} {source : Text} {constants : ConstantTable} {table : SymbolTable}
  {trees : List (Option Expr)}

/-- A new symbol has the tree that its content gives. -/
theorem Covers.push (h : table.Covers registry source constants trees) {content : SymbolContent}
    {tree : Option Expr}
    (hcontent : ∀ name, Denotes registry source constants (table.symbols ++ [⟨name, content⟩])
      (trees ++ [tree])) :
    Grows registry source constants table trees (table.push content).2 (trees ++ [tree]) [tree] ∧
      (trees ++ [tree])[(table.push content).1]? = some tree := by
  refine ⟨⟨⟨h.regular.push content, hcontent _⟩, List.prefix_append _ _, List.prefix_append _ _,
    fun other hother => List.mem_append.mp hother⟩, ?_⟩
  show (trees ++ [tree])[table.symbols.length]? = some tree
  rw [← h.denotes.length_eq, List.getElem?_concat_length]

variable (hconstants : constants.Regular source)
include hconstants

/-- Reading a text with the known trees gives the tree of its sketch. -/
theorem Covers.read_eq (h : table.Covers registry source constants trees) {piece : Text}
    {sketch : Sketch} (hwritten : Written (known constants table.symbols trees) piece sketch)
    (htidy : Tidy source sketch) (hflat : .char ',' ∉ sketch) :
    readLexemes Grammar.standard (Sketch.leafOf (known constants table.symbols trees))
      (Grammar.standard.lexemes (Text.trim piece)) = sketch.read Grammar.standard := by
  rw [Grammar.lexemes_trim Grammar.lexical_standard]
  exact hwritten.read_eq Grammar.lexical_standard (h.generated hconstants) htidy hflat

/-- A text that is the name of a symbol is read as the tree of that symbol. -/
theorem Covers.tree_of_lookup (h : table.Covers registry source constants trees) {piece : Text}
    {sketch : Sketch} (hwritten : Written (known constants table.symbols trees) piece sketch)
    (htidy : Tidy source sketch) (hflat : .char ',' ∉ sketch) {id : Nat}
    (hlookup : table.lookup? (Text.trim piece) = some id) :
    trees[id]? = some (sketch.read Grammar.standard) := by
  have hread := h.read_eq hconstants hwritten htidy hflat
  obtain ⟨hlt, -⟩ := List.findIdx?_eq_some_iff_getElem.mp hlookup
  rw [← h.denotes.length_eq] at hlt
  have hknown : known constants table.symbols trees (Text.trim piece) = some trees[id] := by
    unfold lookup? at hlookup
    rw [known, hlookup]
    exact List.getElem?_eq_getElem hlt
  have hgenerated := h.generated hconstants _ _ hknown
  have htoken := Written.token_ne_of_generated Grammar.lexical_standard hgenerated
  rw [Grammar.lexemes_word Grammar.lexical_standard hgenerated.word htoken,
    readLexemes_operand, Sketch.leafOf, hknown] at hread
  rw [← hread]
  exact List.getElem?_eq_getElem hlt

/-- A text that was entered before is read now as it was then. -/
theorem Covers.tree_of_isExpression (h : table.Covers registry source constants trees)
    {piece : Text} {sketch : Sketch}
    (hwritten : Written (known constants table.symbols trees) piece sketch)
    (htidy : Tidy source sketch) (hflat : .char ',' ∉ sketch) {id : Nat}
    (hfind : table.symbols.findIdx? (·.isExpression (Text.trim piece)) = some id) :
    trees[id]? = some (sketch.read Grammar.standard) := by
  have hread := h.read_eq hconstants hwritten htidy hflat
  obtain ⟨hlt, hsame, -⟩ := List.findIdx?_eq_some_iff_getElem.mp hfind
  obtain ⟨tree, htree, hexplains⟩ := h.explains hconstants hlt
  cases hcontent : table.symbols[id].content with
  | call => simp [Symbol.isExpression, hcontent] at hsame
  | expression text dependencies =>
      have htext : text = Text.trim piece := by
        simpa [Symbol.isExpression, hcontent] using hsame
      rw [hcontent] at hexplains
      obtain ⟨other, shape, heq, hother, hshape, hplain, rfl⟩ := hexplains
      rw [← htext, heq, h.read_eq hconstants hother hshape hplain] at hread
      rw [← hread]
      exact htree

/-- A text is entered as a symbol with its tree. -/
theorem Covers.enterExpression (h : table.Covers registry source constants trees) {piece : Text}
    {sketch : Sketch} (hwritten : Written (known constants table.symbols trees) piece sketch)
    (htidy : Tidy source sketch) (hflat : .char ',' ∉ sketch) :
    ∃ others, Grows registry source constants table trees (table.enterExpression piece).2 others
        [sketch.read Grammar.standard] ∧
      others[(table.enterExpression piece).1]? = some (sketch.read Grammar.standard) := by
  cases hlookup : table.lookup? (Text.trim piece) with
  | some id =>
      have hresult : table.enterExpression piece = (id, table) := by
        simp [SymbolTable.enterExpression, hlookup]
      rw [hresult]
      exact ⟨trees, .refl h _, h.tree_of_lookup hconstants hwritten htidy hflat hlookup⟩
  | none =>
      cases hfind : table.symbols.findIdx? (·.isExpression (Text.trim piece)) with
      | some id =>
          have hresult : table.enterExpression piece = (id, table) := by
            simp [SymbolTable.enterExpression, hlookup, hfind]
          rw [hresult]
          exact ⟨trees, .refl h _, h.tree_of_isExpression hconstants hwritten htidy hflat hfind⟩
      | none =>
          have hresult : table.enterExpression piece = table.push (.expression (Text.trim piece)
              ((Text.words (Text.trim piece)).filterMap table.lookup?)) := by
            simp [SymbolTable.enterExpression, hlookup, hfind]
          rw [hresult]
          refine ⟨trees ++ [sketch.read Grammar.standard], h.push fun name => ?_⟩
          exact .expression name _ h.denotes hwritten htidy hflat

/-- A call is entered as a symbol with its tree. -/
theorem Covers.enterCall (h : table.Covers registry source constants trees) (function : Text)
    {ids : List Nat} {arguments : List (Option Expr)}
    (hids : ids.mapM (trees[·]?) = some arguments) :
    ∃ others, Grows registry source constants table trees (table.enterCall function ids).2 others
        [Expr.ofCall registry function arguments] ∧
      others[(table.enterCall function ids).1]? =
        some (Expr.ofCall registry function arguments) := by
  unfold SymbolTable.enterCall
  cases hfind : table.symbols.findIdx? (·.isCall function ids) with
  | some id =>
      refine ⟨trees, .refl h _, ?_⟩
      obtain ⟨hlt, hsame, -⟩ := List.findIdx?_eq_some_iff_getElem.mp hfind
      obtain ⟨tree, htree, hexplains⟩ := h.explains hconstants hlt
      cases hcontent : table.symbols[id].content with
      | expression => simp [Symbol.isCall, hcontent] at hsame
      | call other others =>
          have hcall : other = function ∧ others = ids := by
            simpa [Symbol.isCall, hcontent] using hsame
          rw [hcontent, hcall.1, hcall.2] at hexplains
          obtain ⟨found, hfound, rfl⟩ := hexplains
          cases hids.symm.trans hfound
          exact htree
  | none =>
      refine ⟨trees ++ [Expr.ofCall registry function arguments], h.push fun name => ?_⟩
      exact .call name function h.denotes hids

/-- Texts that are not blank are entered as symbols with their trees. -/
theorem Covers.pieceSymbols (h : table.Covers registry source constants trees)
    (fault : SyntaxFault) {pieces : List Text} {sketches : List Sketch}
    (hwritten : List.Forall₂ (Written (known constants table.symbols trees)) pieces sketches)
    (htidy : ∀ sketch ∈ sketches, Tidy source sketch)
    (hflat : ∀ sketch ∈ sketches, .char ',' ∉ sketch)
    (hblank : ∀ piece ∈ pieces, Text.isBlank piece = false) :
    ∃ ids other others, Grammar.pieceSymbols fault table pieces = .ok (ids, other) ∧
      Grows registry source constants table trees other others
        (sketches.map (Sketch.read Grammar.standard)) ∧
      ids.mapM (others[·]?) = some (sketches.map (Sketch.read Grammar.standard)) := by
  induction pieces generalizing table trees sketches with
  | nil =>
      cases hwritten
      exact ⟨[], table, trees, rfl, .refl h _, rfl⟩
  | cons piece pieces ih =>
      cases hwritten with
      | cons hpiece hpieces =>
          rename_i sketch sketches
          rw [List.forall_mem_cons] at htidy hflat hblank
          obtain ⟨middle, hfirst, hid⟩ := h.enterExpression hconstants hpiece htidy.1 hflat.1
          have hwritten := hpieces.imp fun _ _ hwritten =>
            hwritten.mono (hfirst.known_of_known hconstants)
          obtain ⟨ids, other, others, hrun, hrest, hids⟩ :=
            ih hfirst.covers hwritten htidy.2 hflat.2 hblank.2
          refine ⟨(table.enterExpression piece).1 :: ids, other, others, ?_, hfirst.trans hrest, ?_⟩
          · simp only [Grammar.pieceSymbols, hblank.1, Bool.false_eq_true, if_false, hrun]
            rfl
          · rw [List.mapM_cons, getElem_of_isPrefix hrest.kept hid, hids]
            rfl

end SymbolTable

/-- Texts are entered only if none of them is blank. -/
theorem Grammar.isBlank_of_pieceSymbols {fault : SyntaxFault} {table : SymbolTable}
    {pieces : List Text} {result : List Nat × SymbolTable}
    (h : Grammar.pieceSymbols fault table pieces = .ok result) :
    ∀ piece ∈ pieces, Text.isBlank piece = false := by
  induction pieces generalizing table result with
  | nil => exact List.forall_mem_nil _
  | cons piece pieces ih =>
      rw [Grammar.pieceSymbols] at h
      split at h
      · cases h
      · next hblank =>
          obtain ⟨rest, hrest, -⟩ := bind_eq_ok.mp h
          exact List.forall_mem_cons.mpr ⟨by simpa using hblank, ih hrest⟩

/-- A call is entered only if none of its arguments is blank. -/
theorem Grammar.isBlank_of_callSymbol {table : SymbolTable} {name text : Text}
    {result : Text × SymbolTable} (h : Grammar.standard.callSymbol table name text = .ok result) :
    ∀ piece ∈ (if Text.isBlank text then [] else Text.splitOn [','] text),
      Text.isBlank piece = false := by
  rw [Grammar.callSymbol] at h
  obtain ⟨_, hpieces, -⟩ := bind_eq_ok.mp h
  exact isBlank_of_pieceSymbols hpieces

/-- A group is entered only if none of its operands is blank. -/
theorem Grammar.isBlank_of_groupSymbols {table : SymbolTable} {text : Text}
    {result : Text × SymbolTable} (h : Grammar.standard.groupSymbols table text = .ok result) :
    ∀ piece ∈ Text.splitOn [','] text, Text.isBlank piece = false := by
  rw [Grammar.groupSymbols] at h
  split at h
  · cases h
  · obtain ⟨_, hpieces, -⟩ := bind_eq_ok.mp h
    exact isBlank_of_pieceSymbols hpieces

end Reckon
