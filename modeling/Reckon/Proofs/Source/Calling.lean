import Reckon.Proofs.Source.Rewriting

/-!
# Groups and what calls them

Whether a group is called shows in what the sketch says before it: a word is the name of a function
or it is not (`Covers.callee_of_head`), and a tree calls nothing (`Covers.callee_of_tree`). The
parts of a group, called or not, are entered as symbols with the trees that their sketches read as
(`Covers.callSymbol`, `Covers.groupSymbols`).
-/

namespace Reckon

open Sketch (Written Tidy Head)
open SymbolTable (known Covers Grows)

variable {registry : Registry} {source : Text} {constants : ConstantTable}
  {table : SymbolTable} {trees : List (Option Expr)}

namespace Sketch

variable {known : Text → Option (Option Expr)} {text : Text} {sketch : Sketch}

/-- A text whose sketch does not end in a word ends as the sketch does. -/
theorem Written.getLast (h : Written known text sketch)
    (hedge : sketch.getLast?.any Atom.isWordChar = false) :
    text.getLast?.map Atom.char = sketch.getLast? := by
  rcases List.eq_nil_or_concat sketch with rfl | ⟨front, atom, rfl⟩
  · cases h
    rfl
  · rw [List.concat_eq_append, List.getLast?_concat] at hedge
    rw [List.concat_eq_append] at h
    obtain ⟨before, behind, rfl, -, hlast⟩ := h.exists_append
    cases hlast with
    | name => cases hedge
    | char c rest =>
        cases rest
        simp

/-- The texts that write the parts of a sketch that ends in a word. -/
theorem Written.exists_head (h : Written known text sketch)
    (hknown : ∀ name tree, known name = some tree → Generated source name) {before : Sketch}
    {name : Text} (hhead : Head sketch before name) :
    ∃ stem, Written known stem before ∧
      Text.dropEndWhile Text.isWordChar (Text.trimEnd text) = stem ∧
      Text.takeEndWhile Text.isWordChar (Text.trimEnd text) = name := by
  obtain ⟨blanks, rfl, hblanks⟩ := hhead.split
  obtain ⟨stem, rest, rfl, hstem, hrest⟩ := h.exists_append
  obtain ⟨word, tail, rfl, hword, htail⟩ := hrest.exists_append
  obtain rfl := hword.eq_of_plain
  have hlast := hstem.getLast hhead.edge
  refine ⟨stem, hstem, Text.endWord_append hhead.word ?_ (fun hnil => ?_) ?_⟩
  · have hedge := hhead.edge
    rw [← hlast, Option.any_map] at hedge
    exact hedge
  · have hmark := hhead.mark hnil
    rw [← hlast, Option.any_map] at hmark
    exact hmark
  · rw [← htail.isBlank_eq hknown, Text.isBlank, List.all_eq_true] at hblanks
    exact hblanks

/-- Names between separators write a row of trees. -/
theorem Written.intercalate {names : List Text} {trees : List (Option Expr)}
    (h : List.Forall₂ (fun name tree => known name = some tree) names trees) :
    Written known (List.intercalate [','] names) (row trees) := by
  induction h with
  | nil => exact .nil
  | @cons name tree names trees hfirst hrest ih =>
      cases hrest with
      | nil =>
          rw [List.intercalate_singleton]
          exact .singleton hfirst
      | cons hsecond hrest =>
          rw [List.intercalate_cons_cons, List.append_assoc]
          exact .name hfirst (.char ',' ih)

/-- The operands of a tidy group are tidy, and without separators. -/
theorem Tidy.operands {inner : Sketch} (h : Tidy source inner) :
    (∀ piece ∈ inner.operands, Tidy source piece) ∧
      ∀ piece ∈ inner.operands, .char ',' ∉ piece := by
  refine ⟨fun piece hpiece => h.of_part (Text.infix_of_mem_splitOnP hpiece).1,
    fun piece hpiece hmem => ?_⟩
  have hnot := (Text.infix_of_mem_splitOnP hpiece).2 _ hmem
  rw [Atom.isChar_self] at hnot
  cases hnot

theorem mem_operands_of_mem_arguments {inner piece : Sketch} (h : piece ∈ inner.arguments) :
    piece ∈ inner.operands := by
  unfold arguments at h
  split at h
  · cases h
  · exact h

/-- A blank group has one blank operand. -/
theorem operands_of_isBlank {inner : Sketch} (h : inner.isBlank = true) :
    inner.operands = [inner] := by
  rw [isBlank, List.all_eq_true] at h
  refine List.splitOnP_eq_singleton ?_
  intro atom hatom
  have hblank := h atom hatom
  cases atom with
  | tree => rfl
  | char c =>
      have hcomma : c ≠ ',' :=
        Unicode.forall_blank (P := fun c => c ≠ ',') (by decide) hblank
      rw [Atom.isChar, beq_eq_false_iff_ne]
      exact hcomma

/-- The arguments of a call are written between separators. -/
theorem Written.splitArguments (h : Written known text sketch)
    (hknown : ∀ name tree, known name = some tree → Generated source name) :
    List.Forall₂ (Written known) (if Text.isBlank text then [] else Text.splitOn [','] text)
      sketch.arguments := by
  rw [h.isBlank_eq hknown, arguments]
  cases sketch.isBlank with
  | true => exact .nil
  | false => exact h.splitOn hknown (by decide)

/-- Every sketch ends in some word, perhaps an empty one, behind something that is no character of
a word. -/
theorem exists_word (sketch : Sketch) : ∃ (before : Sketch) (name : Text),
    sketch = before ++ ofText name ∧ (∀ c ∈ name, Text.isWordChar c = true) ∧
      ∀ c, before.getLast? = some (.char c) → Text.isWordChar c = false := by
  induction sketch using List.reverseRecOn with
  | nil => exact ⟨[], [], rfl, by simp, by simp⟩
  | append_singleton front atom ih =>
      by_cases hatom : ∃ c, atom = .char c ∧ Text.isWordChar c = true
      · obtain ⟨c, rfl, hc⟩ := hatom
        obtain ⟨before, name, rfl, hname, hbefore⟩ := ih
        refine ⟨before, name ++ [c], by simp [ofText], ?_, hbefore⟩
        exact List.forall_mem_append.mpr ⟨hname, List.forall_mem_singleton.mpr hc⟩
      · refine ⟨front ++ [atom], [], by simp [ofText], by simp, fun c hc => ?_⟩
        rw [List.getLast?_concat, Option.some.injEq] at hc
        cases hword : Text.isWordChar c with
        | false => rfl
        | true => exact absurd ⟨c, hc, hword⟩ hatom

/-- Nothing but a gap stands directly behind a tree, so a word does not. -/
theorem edge_of_tidy {before : Sketch} {name : Text} (h : Tidy source (before ++ ofText name))
    (hname : ∀ c ∈ name, Text.isWordChar c = true)
    (hbefore : ∀ c, before.getLast? = some (.char c) → Text.isWordChar c = false)
    (hlast : ∀ tree, (before ++ ofText name).getLast? ≠ some (.tree tree)) :
    before.getLast?.any Atom.isWordChar = false := by
  rcases List.eq_nil_or_concat before with rfl | ⟨ahead, last, rfl⟩
  · rfl
  · rw [List.concat_eq_append] at h hlast hbefore ⊢
    rw [List.getLast?_concat] at hbefore ⊢
    cases last with
    | char d => exact hbefore d rfl
    | tree tree =>
        cases name with
        | nil => exact absurd (by simp [ofText]) (hlast tree)
        | cons d name =>
            have hapart := h.apart
            rw [List.append_assoc, List.singleton_append] at hapart
            have hgap := (List.isChain_cons.mp hapart.right_of_append).1 _ rfl
            have hd := hname d (.head _)
            rw [Atom.isWordChar_of_isGap (hgap.1 rfl)] at hd
            cases hd

/-- A tidy sketch ends in a word or in a tree, up to blanks. -/
theorem exists_head (h : Tidy source sketch) :
    (∃ before name, Head sketch before name) ∨
      ∃ (before : Sketch) (tree : Option Expr) (blanks : Sketch),
        sketch = before ++ .tree tree :: blanks ∧ blanks.isBlank = true := by
  induction sketch using List.reverseRecOn with
  | nil => exact .inl ⟨[], [], ⟨[], rfl, rfl⟩, by simp, rfl, fun _ => rfl⟩
  | append_singleton front atom ih =>
      cases hblank : atom.isBlank with
      | true =>
          have hmore {blanks : Sketch} (hblanks : blanks.isBlank = true) :
              isBlank (blanks ++ [atom]) = true := by
            rw [isBlank, List.all_append, Bool.and_eq_true]
            exact ⟨hblanks, by simp [hblank]⟩
          -- A blank at the end is passed over.
          rcases ih (h.of_part (List.prefix_append front [atom]).isInfix) with
            ⟨before, name, hhead⟩ | ⟨before, tree, blanks, rfl, hblanks⟩
          · obtain ⟨blanks, rfl, hblanks⟩ := hhead.split
            exact .inl ⟨before, name, ⟨blanks ++ [atom], by simp, hmore hblanks⟩, hhead.word,
              hhead.edge, hhead.mark⟩
          · exact .inr ⟨before, tree, blanks ++ [atom], by simp, hmore hblanks⟩
      | false =>
          cases atom with
          | tree tree => exact .inr ⟨front, tree, [], rfl, rfl⟩
          | char c =>
              obtain ⟨before, name, hsplit, hname, hbefore⟩ := exists_word (front ++ [.char c])
              have hedge := edge_of_tidy (hsplit ▸ h) hname hbefore fun tree htree => by
                rw [← hsplit, List.getLast?_concat] at htree
                cases htree
              refine .inl ⟨before, name, ⟨[], by simpa using hsplit, rfl⟩, hname, hedge, ?_⟩
              rintro rfl
              rw [ofText, List.map_nil, List.append_nil] at hsplit
              rw [← hsplit, List.getLast?_concat]
              exact hblank

end Sketch

namespace SymbolTable

/-- The word before a group decides whether the group is called. -/
theorem callee_eq {head stem name : Text}
    (hdrop : Text.dropEndWhile Text.isWordChar (Text.trimEnd head) = stem)
    (htake : Text.takeEndWhile Text.isWordChar (Text.trimEnd head) = name) :
    Grammar.standard.callee? table constants head =
      if Sketch.isCallable name then
        if (table.lookup? name).isSome || constants.hasName name then .error .calledNoName
        else .ok (some (stem, name))
      else .ok none := by
  rw [Grammar.callee?, Sketch.isCallable]
  simp only [hdrop, htake]
  cases name.isEmpty || name.head?.any Decimal.isDigit ||
      Grammar.standard.wordTokens.contains name with
  | true => rfl
  | false => rfl

/-- A generated name could be called, if it were not one. -/
theorem isCallable_of_generated {name : Text} (h : Generated source name) :
    Sketch.isCallable name = true := by
  have htoken : ∀ token ∈ Grammar.standard.wordTokens, token.head? ≠ some '_' := by
    decide
  have hcontains : Grammar.standard.wordTokens.contains name = false := by
    rw [List.contains_eq_mem, decide_eq_false_iff_not]
    exact fun hmem => htoken name hmem h.head
  have hempty : name.isEmpty = false := by
    cases name with
    | nil => cases h.head
    | cons => rfl
  rw [Sketch.isCallable, hcontains, hempty, h.head]
  decide

variable (hconstants : constants.Regular source)
include hconstants

/-- A group is called by the word before it, if that can be the name of a function. -/
theorem Covers.callee_of_head (h : table.Covers registry source constants trees) {text : Text}
    {sketch before : Sketch} {name : Text}
    (hwritten : Written (known constants table.symbols trees) text sketch)
    (htidy : Tidy source sketch) (hhead : Head sketch before name) :
    ∃ stem, Written (known constants table.symbols trees) stem before ∧
      Grammar.standard.callee? table constants text =
        .ok (if Sketch.isCallable name then some (stem, name) else none) := by
  obtain ⟨stem, hstem, hdrop, htake⟩ := hwritten.exists_head (h.generated hconstants) hhead
  have hknown : known constants table.symbols trees name = none := by
    obtain ⟨blanks, hsketch, -⟩ := hhead.split
    refine Written.known_of_not_generated (h.generated hconstants)
      (Written.not_generated_of_said htidy ?_)
    exact ⟨before, blanks, by rw [hsketch, List.append_assoc]⟩
  refine ⟨stem, hstem, ?_⟩
  rw [callee_eq hdrop htake, h.lookup_eq name, hknown]
  cases Sketch.isCallable name with
  | true => rfl
  | false => rfl

/-- A group is not called by a tree. -/
theorem Covers.callee_of_tree (h : table.Covers registry source constants trees) {text : Text}
    {before blanks : Sketch} {tree : Option Expr}
    (hwritten : Written (known constants table.symbols trees) text
      (before ++ .tree tree :: blanks))
    (htidy : Tidy source (before ++ .tree tree :: blanks)) (hblanks : blanks.isBlank = true) :
    Grammar.standard.callee? table constants text = .error .calledNoName := by
  have hknown := h.generated hconstants
  have hgap : before.getLast?.any Atom.isWordChar = false := by
    cases hlast : before.getLast? with
    | none => rfl
    | some atom =>
        have hapart := (List.isChain_append.mp htidy.apart).2.2 atom hlast _ rfl
        cases atom with
        | tree => cases hapart.2 rfl
        | char c => exact Atom.isWordChar_of_isGap (hapart.2 rfl)
  obtain ⟨stem, rest, rfl, hstem, hrest⟩ := hwritten.exists_append
  cases hrest with
  | @name name tail _ _ hname htail =>
      have hgenerated := hknown _ _ hname
      rw [← hstem.getLast hgap, Option.any_map] at hgap
      rw [← htail.isBlank_eq hknown, Text.isBlank, List.all_eq_true] at hblanks
      obtain ⟨hdrop, htake⟩ := Text.endWord_append (fun c => hgenerated.isWordChar_of_mem) hgap
        (fun hnil => absurd hnil hgenerated.ne_nil) hblanks
      rw [callee_eq hdrop htake, h.lookup_eq name, hname, isCallable_of_generated hgenerated]
      rfl

/-- The pieces of a text are blank where those of its sketch are. -/
theorem Covers.pieces_blank (h : table.Covers registry source constants trees)
    {pieces : List Text} {sketches : List Sketch}
    (hwritten : List.Forall₂ (Written (known constants table.symbols trees)) pieces sketches) :
    (∀ piece ∈ pieces, Text.isBlank piece = false) ↔
      ∀ sketch ∈ sketches, sketch.isBlank = false := by
  induction hwritten with
  | nil => simp
  | cons hfirst hrest ih =>
      rw [List.forall_mem_cons, List.forall_mem_cons, ih,
        hfirst.isBlank_eq (h.generated hconstants)]

/-- The operands of a group are entered, and their names are written in its place. -/
theorem Covers.groupSymbols (h : table.Covers registry source constants trees) {text : Text}
    {inner : Sketch} (hwritten : Written (known constants table.symbols trees) text inner)
    (htidy : Tidy source inner) (hpieces : ∀ piece ∈ inner.operands, piece.isBlank = false) :
    ∃ replacement other others,
      Grammar.standard.groupSymbols table text = .ok (replacement, other) ∧
      Grows registry source constants table trees other others
        (inner.operands.map (Sketch.read Grammar.standard)) ∧
      Written (known constants other.symbols others) replacement
        (Sketch.row (inner.operands.map (Sketch.read Grammar.standard))) := by
  have hknown := h.generated hconstants
  have hsplit := hwritten.splitOn hknown (c := ',') (by decide)
  obtain ⟨htidyPieces, hflat⟩ := htidy.operands
  obtain ⟨ids, other, others, hrun, hgrows, hids⟩ := h.pieceSymbols hconstants
    (.emptyOperand (Grammar.standard.opening ++ text ++ Grammar.standard.closing)) hsplit
    htidyPieces hflat ((h.pieces_blank hconstants hsplit).mpr hpieces)
  refine ⟨List.intercalate [','] (ids.map other.nameOf), other, others, ?_, hgrows, ?_⟩
  · have hblank : Text.isBlank text = false := by
      cases hblank : Text.isBlank text with
      | false => rfl
      | true =>
          rw [hwritten.isBlank_eq hknown] at hblank
          have hwhole := (Sketch.operands_of_isBlank hblank).symm ▸ List.mem_singleton_self inner
          rw [hpieces inner hwhole] at hblank
          cases hblank
    have hrun' : Grammar.pieceSymbols
        (.emptyOperand (Grammar.standard.opening ++ text ++ Grammar.standard.closing)) table
        (Text.splitOn Grammar.standard.separator text) = .ok (ids, other) := hrun
    rw [Grammar.groupSymbols, if_neg (by simp [hblank])]
    show (Grammar.pieceSymbols _ table (Text.splitOn Grammar.standard.separator text) >>= _) = _
    rw [hrun']
    rfl
  · have hnames := forall₂_of_mapM hids
    refine Written.intercalate ?_
    rw [List.forall₂_map_left_iff]
    exact hnames.imp fun _ _ hid => hgrows.covers.known_nameOf hid

/-- The arguments of a call are entered, and then the call. -/
theorem Covers.callSymbol (h : table.Covers registry source constants trees) (name : Text)
    {text : Text} {inner : Sketch}
    (hwritten : Written (known constants table.symbols trees) text inner)
    (htidy : Tidy source inner) (hpieces : ∀ piece ∈ inner.arguments, piece.isBlank = false) :
    ∃ replacement other others,
      Grammar.standard.callSymbol table name text = .ok (replacement, other) ∧
      Grows registry source constants table trees other others
        (inner.arguments.map (Sketch.read Grammar.standard) ++
          [Expr.ofCall registry name (inner.arguments.map (Sketch.read Grammar.standard))]) ∧
      known constants other.symbols others replacement =
        some (Expr.ofCall registry name (inner.arguments.map (Sketch.read Grammar.standard))) := by
  have hknown := h.generated hconstants
  have hsplit := hwritten.splitArguments hknown
  have hsub : ∀ piece ∈ inner.arguments, piece ∈ inner.operands := fun piece hpiece =>
    Sketch.mem_operands_of_mem_arguments hpiece
  obtain ⟨htidyPieces, hflat⟩ := htidy.operands
  obtain ⟨ids, middle, found, hrun, hgrows, hids⟩ := h.pieceSymbols hconstants
    (.emptyArgument name) hsplit (fun piece hpiece => htidyPieces piece (hsub piece hpiece))
    (fun piece hpiece => hflat piece (hsub piece hpiece))
    ((h.pieces_blank hconstants hsplit).mpr hpieces)
  obtain ⟨others, hcall, hid⟩ := hgrows.covers.enterCall hconstants name hids
  refine ⟨(middle.enterCall name ids).2.nameOf (middle.enterCall name ids).1, _, others, ?_,
    hgrows.trans hcall, hcall.covers.known_nameOf hid⟩
  have hrun' : Grammar.pieceSymbols (.emptyArgument name) table
      (if Text.isBlank text then [] else Text.splitOn Grammar.standard.separator text) =
        .ok (ids, middle) := hrun
  rw [Grammar.callSymbol, hrun']
  rfl

end SymbolTable

end Reckon
