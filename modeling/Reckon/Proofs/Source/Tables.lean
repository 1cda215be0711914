import Reckon.Expr.Build
import Reckon.Proofs.Expr.Sketched
import Reckon.Proofs.Fallible
import Reckon.Proofs.Source.Constants

/-!
# Tables of symbols and constants

What the symbols of a table stand for is known as soon as they are entered: `Denotes` gives each
symbol its tree, or nothing where it has none, from the trees of the symbols before it. Entering a
text or a call gives a symbol with the right tree, whether the symbol is new, was entered under the
same text before, or is named by the text (`Covers.enterExpression`, `Covers.enterCall`).
-/

namespace Reckon

open Sketch (Written Tidy)

/-- The tree of a call over its arguments, if they all have trees and some function fits. -/
def Expr.ofCall (registry : Registry) (function : Text) (arguments : List (Option Expr)) :
    Option Expr := do
  let arguments ← arguments.mapM id
  let call ← (registry.resolve (String.ofList function) arguments.length).toOption
  (call.build arguments fun op arguments => .ok (.operation op arguments)).toOption

theorem Expr.ofCall_of_none (registry : Registry) (function : Text)
    {arguments : List (Option Expr)} (h : none ∈ arguments) :
    Expr.ofCall registry function arguments = none := by
  rw [Expr.ofCall, mapM_id_of_none h]
  rfl

namespace SymbolTable

/-- The table of symbols of a source: its names are issued. -/
structure Regular (source : Text) (table : SymbolTable) : Prop where
  stem : table.names.stem = "__s".toList
  source : table.names.source = source
  issued : table.names.Issued (table.symbols.map (·.name))

theorem Regular.empty (source : Text) : (SymbolTable.empty source).Regular source :=
  ⟨rfl, rfl, .nil _⟩

theorem symbols_push (table : SymbolTable) (content : SymbolContent) :
    (table.push content).2.symbols = table.symbols ++ [⟨table.names.take.1, content⟩] :=
  rfl

theorem Regular.push {source : Text} {table : SymbolTable} (h : table.Regular source)
    (content : SymbolContent) : (table.push content).2.Regular source := by
  refine ⟨h.stem, h.source, ?_⟩
  rw [symbols_push, List.map_append]
  exact h.issued.take

/-- The tree that a name stands for, if it is a name of a symbol or a constant. -/
def known (constants : ConstantTable) (symbols : List Symbol) (trees : List (Option Expr))
    (name : Text) : Option (Option Expr) :=
  match symbols.findIdx? (·.name == name) with
  | some id => trees[id]?
  | none => (constants.get? name).map fun entry => some (.constant entry.constant)

/-- The symbols have these trees, each by the trees of the symbols before it. -/
inductive Denotes (registry : Registry) (source : Text) (constants : ConstantTable) :
    List Symbol → List (Option Expr) → Prop where
  | nil : Denotes registry source constants [] []
  | expression {symbols : List Symbol} {trees : List (Option Expr)} {piece : Text}
      {sketch : Sketch} (name : Text) (dependencies : List Nat)
      (before : Denotes registry source constants symbols trees)
      (hwritten : Written (known constants symbols trees) piece sketch)
      (htidy : Tidy source sketch) (hflat : .char ',' ∉ sketch) :
      Denotes registry source constants
        (symbols ++ [⟨name, .expression (Text.trim piece) dependencies⟩])
        (trees ++ [sketch.read Grammar.standard])
  | call {symbols : List Symbol} {trees : List (Option Expr)} {ids : List Nat}
      {arguments : List (Option Expr)} (name function : Text)
      (before : Denotes registry source constants symbols trees)
      (hids : ids.mapM (trees[·]?) = some arguments) :
      Denotes registry source constants (symbols ++ [⟨name, .call function ids⟩])
        (trees ++ [Expr.ofCall registry function arguments])

/-- The table is regular, and its symbols have these trees. -/
structure Covers (registry : Registry) (source : Text) (constants : ConstantTable)
    (table : SymbolTable) (trees : List (Option Expr)) : Prop where
  regular : table.Regular source
  denotes : Denotes registry source constants table.symbols trees

/-- The table has grown to another by symbols with some of the added trees. -/
structure Grows (registry : Registry) (source : Text) (constants : ConstantTable)
    (table : SymbolTable) (trees : List (Option Expr)) (other : SymbolTable)
    (others added : List (Option Expr)) : Prop where
  covers : other.Covers registry source constants others
  grown : table.symbols <+: other.symbols
  kept : trees <+: others
  fresh : ∀ tree ∈ others, tree ∈ trees ∨ tree ∈ added

variable {registry : Registry} {source : Text} {constants : ConstantTable}
  {table other : SymbolTable} {trees others added : List (Option Expr)}

theorem Denotes.length_eq {symbols : List Symbol}
    (h : Denotes registry source constants symbols trees) : trees.length = symbols.length := by
  induction h with
  | nil => rfl
  | expression name dependencies before hwritten htidy hflat ih => simp [ih]
  | call name function before hids ih => simp [ih]

/-- The first symbol with a name stays the first one when symbols are added. -/
theorem known_append {symbols more : List Symbol} {moreTrees : List (Option Expr)} {name : Text}
    {tree : Option Expr} (hfresh : ∀ symbol ∈ more, symbol.name ∉ constants.entries.map (·.name))
    (h : known constants symbols trees name = some tree) :
    known constants (symbols ++ more) (trees ++ moreTrees) name = some tree := by
  unfold known at h ⊢
  rw [List.findIdx?_append]
  cases hfind : symbols.findIdx? (·.name == name) with
  | some id =>
      rw [hfind] at h
      show (trees ++ moreTrees)[id]? = some tree
      rw [List.getElem?_append_left (List.getElem?_eq_some_iff.mp h).1]
      exact h
  | none =>
      rw [hfind] at h
      have hnone : more.findIdx? (·.name == name) = none := by
        rw [List.findIdx?_eq_none_iff]
        intro symbol hsymbol
        cases hget : constants.get? name with
        | none => simp [hget] at h
        | some entry =>
            have hmem := ConstantTable.mem_names_of_get hget
            rw [beq_eq_false_iff_ne]
            exact fun heq => hfresh symbol hsymbol (heq ▸ hmem)
      rw [hnone]
      exact h

/-- Names of symbols are no names of constants. -/
theorem Regular.not_mem_constants (h : table.Regular source)
    (hconstants : constants.Regular source) {name : Text}
    (hname : name ∈ table.symbols.map (·.name)) : name ∉ constants.entries.map (·.name) := by
  refine h.issued.disjoint hconstants.issued (i := 2) (c := 's') (d := 'k') ?_ ?_ (by decide) hname
  · rw [h.stem]
    rfl
  · rw [hconstants.stem]
    rfl

theorem Regular.generated (h : table.Regular source) :
    ∀ symbol ∈ table.symbols, Generated source symbol.name := by
  intro symbol hsymbol
  have hgenerated := h.issued.generated (by rw [h.stem]; decide) (by rw [h.stem]; rfl)
    (List.mem_map_of_mem hsymbol)
  rwa [h.source] at hgenerated

/-- A symbol is found by its name. -/
theorem Regular.lookup_eq (h : table.Regular source) {id : Nat} {symbol : Symbol}
    (hid : table.get? id = some symbol) : table.lookup? symbol.name = some id := by
  obtain ⟨hlt, rfl⟩ := List.getElem?_eq_some_iff.mp hid
  rw [lookup?, List.findIdx?_eq_some_iff_getElem]
  refine ⟨hlt, beq_self_eq_true _, fun j hj => ?_⟩
  have hdistinct := List.nodup_iff_pairwise_ne.mp h.issued.distinct
  have hne := List.pairwise_iff_getElem.mp hdistinct j id (by simpa using by omega)
    (by simpa using hlt) hj
  simpa using hne

/-- Known names are generated, if those of the symbols are. -/
theorem generated_of_known {symbols : List Symbol} (trees : List (Option Expr))
    (hsymbols : ∀ symbol ∈ symbols, Generated source symbol.name)
    (hconstants : constants.Regular source) (name : Text) (tree : Option Expr)
    (hname : known constants symbols trees name = some tree) : Generated source name := by
  unfold known at hname
  cases hfind : symbols.findIdx? (·.name == name) with
  | some id =>
      obtain ⟨hid, hsymbol, -⟩ := List.findIdx?_eq_some_iff_getElem.mp hfind
      rw [beq_iff_eq] at hsymbol
      exact hsymbol ▸ hsymbols _ (List.getElem_mem hid)
  | none =>
      rw [hfind] at hname
      cases hget : constants.get? name with
      | none => simp [hget] at hname
      | some entry => exact hconstants.generated hget

theorem Covers.generated (h : table.Covers registry source constants trees)
    (hconstants : constants.Regular source) (name : Text) (tree : Option Expr)
    (hname : known constants table.symbols trees name = some tree) : Generated source name :=
  generated_of_known trees h.regular.generated hconstants name tree hname

/-- A name is known if it is that of a symbol or of a constant. -/
theorem Covers.lookup_eq (h : table.Covers registry source constants trees) (name : Text) :
    ((table.lookup? name).isSome || constants.hasName name) =
      (known constants table.symbols trees name).isSome := by
  rw [known, lookup?, ConstantTable.hasName]
  cases hfind : table.symbols.findIdx? (·.name == name) with
  | some id =>
      obtain ⟨hlt, -⟩ := List.findIdx?_eq_some_iff_getElem.mp hfind
      rw [← h.denotes.length_eq] at hlt
      simp [hlt]
  | none => simp

/-- The name of a symbol is known to stand for its tree. -/
theorem Covers.known_nameOf (h : table.Covers registry source constants trees) {id : Nat}
    {tree : Option Expr} (hid : trees[id]? = some tree) :
    known constants table.symbols trees (table.nameOf id) = some tree := by
  have hlt := (List.getElem?_eq_some_iff.mp hid).1
  rw [h.denotes.length_eq] at hlt
  have hget : table.get? id = some table.symbols[id] := List.getElem?_eq_getElem hlt
  have hname : table.nameOf id = table.symbols[id].name := by rw [nameOf, hget]
  have hfind : table.symbols.findIdx? (·.name == table.nameOf id) = some id := by
    rw [hname]
    exact h.regular.lookup_eq hget
  rw [known, hfind]
  exact hid

/-- What is known stays known when the table grows. -/
theorem Grows.known_of_known (h : Grows registry source constants table trees other others added)
    (hconstants : constants.Regular source) (name : Text) (tree : Option Expr)
    (hname : known constants table.symbols trees name = some tree) :
    known constants other.symbols others name = some tree := by
  obtain ⟨more, hsymbols⟩ := h.grown
  obtain ⟨moreTrees, htrees⟩ := h.kept
  rw [← hsymbols, ← htrees]
  refine known_append (fun symbol hsymbol => ?_) hname
  refine h.covers.regular.not_mem_constants hconstants (List.mem_map_of_mem ?_)
  rw [← hsymbols]
  exact List.mem_append_right _ hsymbol

theorem Grows.refl (h : table.Covers registry source constants trees)
    (added : List (Option Expr)) :
    Grows registry source constants table trees table trees added :=
  ⟨h, List.prefix_refl _, List.prefix_refl _, fun _ => .inl⟩

/-- Growing in steps. -/
theorem Grows.trans {last : SymbolTable} {lasts more : List (Option Expr)}
    (h : Grows registry source constants table trees other others added)
    (hnext : Grows registry source constants other others last lasts more) :
    Grows registry source constants table trees last lasts (added ++ more) := by
  refine ⟨hnext.covers, h.grown.trans hnext.grown, h.kept.trans hnext.kept,
    fun tree htree => ?_⟩
  rcases hnext.fresh tree htree with hold | hnew
  · exact (h.fresh tree hold).imp id (List.mem_append_left more)
  · exact .inr (List.mem_append_right added hnew)

/-- Looking up trees finds the same when there are more trees. -/
theorem mapM_getElem_of_isPrefix {ids : List Nat} {arguments : List (Option Expr)}
    (hkept : trees <+: others) (h : ids.mapM (trees[·]?) = some arguments) :
    ids.mapM (others[·]?) = some arguments := by
  induction ids generalizing arguments with
  | nil => exact h
  | cons id ids ih =>
      rw [List.mapM_cons] at h ⊢
      simp only [Option.bind_eq_bind, Option.bind_eq_some_iff, Option.pure_def,
        Option.some.injEq] at h ⊢
      obtain ⟨tree, htree, rest, hrest, rfl⟩ := h
      exact ⟨tree, getElem_of_isPrefix hkept htree, rest, ih hrest, rfl⟩

/-- What the content of a symbol says about its tree. -/
def Explains (registry : Registry) (source : Text) (constants : ConstantTable)
    (symbols : List Symbol) (trees : List (Option Expr)) (tree : Option Expr) :
    SymbolContent → Prop
  | .expression text _ => ∃ piece sketch, text = Text.trim piece ∧
      Written (known constants symbols trees) piece sketch ∧ Tidy source sketch ∧
      .char ',' ∉ sketch ∧ tree = sketch.read Grammar.standard
  | .call function ids => ∃ arguments, ids.mapM (trees[·]?) = some arguments ∧
      tree = Expr.ofCall registry function arguments

/-- More symbols do not change what a content says. -/
theorem Explains.append {symbols more : List Symbol} {moreTrees : List (Option Expr)}
    {tree : Option Expr} {content : SymbolContent}
    (hfresh : ∀ symbol ∈ more, symbol.name ∉ constants.entries.map (·.name))
    (h : Explains registry source constants symbols trees tree content) :
    Explains registry source constants (symbols ++ more) (trees ++ moreTrees) tree content := by
  cases content with
  | expression text dependencies =>
      obtain ⟨piece, sketch, htext, hwritten, htidy, hflat, htree⟩ := h
      exact ⟨piece, sketch, htext, hwritten.mono fun _ _ => known_append hfresh, htidy, hflat,
        htree⟩
  | call function ids =>
      obtain ⟨arguments, hids, htree⟩ := h
      exact ⟨arguments, mapM_getElem_of_isPrefix (List.prefix_append _ _) hids, htree⟩

/-- If the symbols before the last one and the last one itself explain their trees, all do. -/
theorem explains_concat {symbols : List Symbol} {last symbol : Symbol} {tree : Option Expr}
    {id : Nat} (hlength : trees.length = symbols.length)
    (hlast : last.name ∉ constants.entries.map (·.name))
    (hexplains : Explains registry source constants symbols trees tree last.content)
    (hbefore : symbols[id]? = some symbol → ∃ found, trees[id]? = some found ∧
      Explains registry source constants symbols trees found symbol.content)
    (hid : (symbols ++ [last])[id]? = some symbol) :
    ∃ found, (trees ++ [tree])[id]? = some found ∧
      Explains registry source constants (symbols ++ [last]) (trees ++ [tree]) found
        symbol.content := by
  have hmore : ∀ symbol ∈ [last], symbol.name ∉ constants.entries.map (·.name) :=
    List.forall_mem_singleton.mpr hlast
  rcases getElem?_concat_eq_some.mp hid with hid | ⟨rfl, rfl⟩
  · obtain ⟨found, hfound, hcontent⟩ := hbefore hid
    exact ⟨found, getElem?_concat_eq_some.mpr (.inl hfound), hcontent.append hmore⟩
  · exact ⟨tree, getElem?_concat_eq_some.mpr (.inr ⟨hlength.symm, rfl⟩), hexplains.append hmore⟩

/-- The content of each symbol explains its tree. -/
theorem Denotes.explains {symbols : List Symbol}
    (h : Denotes registry source constants symbols trees)
    (hfresh : ∀ symbol ∈ symbols, symbol.name ∉ constants.entries.map (·.name)) {id : Nat}
    {symbol : Symbol} (hid : symbols[id]? = some symbol) :
    ∃ tree, trees[id]? = some tree ∧
      Explains registry source constants symbols trees tree symbol.content := by
  -- Symbols are added at the end, and what explains a tree then goes on to explain it.
  induction h with
  | nil => cases hid
  | expression name dependencies before hwritten htidy hflat ih =>
      rw [List.forall_mem_append, List.forall_mem_singleton] at hfresh
      exact explains_concat before.length_eq hfresh.2 ⟨_, _, rfl, hwritten, htidy, hflat, rfl⟩
        (ih hfresh.1) hid
  | call name function before hids ih =>
      rw [List.forall_mem_append, List.forall_mem_singleton] at hfresh
      exact explains_concat before.length_eq hfresh.2 ⟨_, hids, rfl⟩ (ih hfresh.1) hid

theorem Covers.explains (h : table.Covers registry source constants trees)
    (hconstants : constants.Regular source) {id : Nat} (hid : id < table.symbols.length) :
    ∃ tree, trees[id]? = some tree ∧
      Explains registry source constants table.symbols trees tree table.symbols[id].content := by
  refine h.denotes.explains (fun symbol hsymbol => ?_) (List.getElem?_eq_getElem hid)
  exact h.regular.not_mem_constants hconstants (List.mem_map_of_mem hsymbol)

end SymbolTable

end Reckon
