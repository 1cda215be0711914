import Reckon.Proofs.Source.Tables
import Reckon.Proofs.Text.Patterns
import Reckon.Proofs.Text.Words

/-!
# Symbols that refer to earlier ones only

A table of symbols grows at its end. What a symbol may refer to is what stands before it: for a call
its arguments, and for a text the symbols that its words name. The words of a text that could become
names later are none, because a name that could be issued has been issued before the text is entered
(`Settled`). So what `Closed` says of a symbol when it is entered stays true in every longer table
(`Closed.depends`).
-/

namespace Reckon

/-- The text has neither parentheses nor separators. -/
structure Grammar.IsFlat (grammar : Grammar) (text : Text) : Prop where
  opening : ¬ grammar.opening <:+: text
  closing : ¬ grammar.closing <:+: text
  separator : ¬ grammar.separator <:+: text

theorem Grammar.IsFlat.of_isInfix {grammar : Grammar} {text part : Text} (h : grammar.IsFlat text)
    (hpart : part <:+: text) : grammar.IsFlat part :=
  ⟨fun hfound => h.opening (hfound.trans hpart), fun hfound => h.closing (hfound.trans hpart),
    fun hfound => h.separator (hfound.trans hpart)⟩

namespace SymbolTable

/-- If the word could be issued as the name of a symbol, it has been issued. -/
def Settled (source : Text) (symbols : List Symbol) (word : Text) : Prop :=
  ∀ n, word = NameSupply.nameOf "__s".toList n → ¬ word <:+: source →
    word ∈ symbols.map (·.name)

/-- What a symbol may be, given the symbols before it: a flat text whose settled words give its
dependencies, or a call of earlier symbols. -/
def Admits (grammar : Grammar) (source : Text) (symbols : List Symbol) : SymbolContent → Prop
  | .expression text dependencies => grammar.IsFlat text ∧
      Text.Speaks (Settled source symbols) text ∧
      dependencies = (Text.words text).filterMap fun word =>
        symbols.findIdx? (·.name == word)
  | .call _ ids => ∀ id ∈ ids, id < symbols.length

/-- Each symbol may stand behind those before it. -/
inductive InOrder (grammar : Grammar) (source : Text) : List Symbol → Prop where
  | nil : InOrder grammar source []
  | snoc {symbols : List Symbol} {symbol : Symbol} (before : InOrder grammar source symbols)
      (h : Admits grammar source symbols symbol.content) :
      InOrder grammar source (symbols ++ [symbol])

/-- The names of the table are issued, and its symbols stand in order. -/
structure Closed (grammar : Grammar) (source : Text) (table : SymbolTable) : Prop where
  regular : table.Regular source
  inOrder : InOrder grammar source table.symbols

/-- The table is closed, and has grown from the other one at its end. -/
structure Extends (grammar : Grammar) (source : Text) (table other : SymbolTable) : Prop where
  closed : other.Closed grammar source
  grown : table.symbols <+: other.symbols

variable {grammar : Grammar} {source : Text} {table other : SymbolTable}

theorem Settled.mono {symbols more : List Symbol} (hmore : symbols <+: more) {word : Text}
    (h : Settled source symbols word) : Settled source more word := by
  intro n hname hhidden
  obtain ⟨added, rfl⟩ := hmore
  rw [List.map_append]
  exact List.mem_append_left _ (h n hname hhidden)

theorem settled_of_mem {symbols : List Symbol} {name : Text} (h : name ∈ symbols.map (·.name)) :
    Settled source symbols name :=
  fun _ _ _ => h

theorem Closed.extends (h : table.Closed grammar source) : Extends grammar source table table :=
  ⟨h, List.prefix_refl _⟩

theorem Extends.trans {last : SymbolTable} (h : Extends grammar source table other)
    (hnext : Extends grammar source other last) : Extends grammar source table last :=
  ⟨hnext.closed, h.grown.trans hnext.grown⟩

theorem closed_empty (grammar : Grammar) (source : Text) : (empty source).Closed grammar source :=
  ⟨.empty source, .nil⟩

/-- The symbols before a place admit the one there. -/
theorem InOrder.admits {symbols : List Symbol} (h : InOrder grammar source symbols) {id : Nat}
    {symbol : Symbol} (hid : symbols[id]? = some symbol) :
    Admits grammar source (symbols.take id) symbol.content := by
  induction h with
  | nil => cases hid
  | @snoc symbols last before hlast ih =>
      rcases getElem?_concat_eq_some.mp hid with hid | ⟨rfl, rfl⟩
      · have hle := (List.getElem?_eq_some_iff.mp hid).1.le
        rw [List.take_append_of_le_length hle]
        exact ih hid
      · rw [List.take_left]
        exact hlast

/-- A symbol that the others admit may be pushed, and is the last one then. -/
theorem Closed.push (h : table.Closed grammar source) {content : SymbolContent}
    (hcontent : Admits grammar source table.symbols content) :
    Extends grammar source table (table.push content).2 ∧
      (table.push content).1 < (table.push content).2.size := by
  refine ⟨⟨⟨h.regular.push content, .snoc h.inOrder hcontent⟩, List.prefix_append _ _⟩, ?_⟩
  show table.symbols.length < (table.symbols ++ [Symbol.mk table.names.take.1 content]).length
  simp

/-- A flat text of settled words is entered as a symbol of the table. -/
theorem Closed.enterExpression (h : table.Closed grammar source) {text : Text}
    (hflat : grammar.IsFlat text) (hwords : text.Speaks (Settled source table.symbols)) :
    Extends grammar source table (table.enterExpression text).2 ∧
      (table.enterExpression text).1 < (table.enterExpression text).2.size := by
  unfold SymbolTable.enterExpression
  simp only
  split
  · next id hid => exact ⟨h.extends, (List.findIdx?_eq_some_iff_getElem.mp hid).1⟩
  · split
    · next id hid => exact ⟨h.extends, (List.findIdx?_eq_some_iff_getElem.mp hid).1⟩
    · obtain ⟨l, r, htext, -⟩ := Text.exists_trimWhile Unicode.isBlank text
      refine h.push ⟨hflat.of_isInfix ⟨l, r, htext.symm⟩, Text.speaks_trim.mpr hwords, rfl⟩

/-- A call of symbols of the table is entered as one of them. -/
theorem Closed.enterCall (h : table.Closed grammar source) (function : Text) {ids : List Nat}
    (hids : ∀ id ∈ ids, id < table.size) :
    Extends grammar source table (table.enterCall function ids).2 ∧
      (table.enterCall function ids).1 < (table.enterCall function ids).2.size := by
  unfold SymbolTable.enterCall
  split
  · next id hid => exact ⟨h.extends, (List.findIdx?_eq_some_iff_getElem.mp hid).1⟩
  · exact h.push hids

theorem nameOf_mem {id : Nat} (h : id < table.size) :
    table.nameOf id ∈ table.symbols.map (·.name) := by
  rw [nameOf, get?, List.getElem?_eq_getElem h]
  exact List.mem_map_of_mem (List.getElem_mem h)

theorem Extends.lt_size (h : Extends grammar source table other) {id : Nat}
    (hid : id < table.size) : id < other.size :=
  Nat.lt_of_lt_of_le hid h.grown.length_le

/-- A word of a text that names a symbol of the table, early or late, is one of its dependencies. -/
theorem Closed.depends (h : table.Closed grammar source) {id : Nat} {name text : Text}
    {dependencies : List Nat}
    (hid : table.get? id = some ⟨name, .expression text dependencies⟩) {d : Nat} {symbol : Symbol}
    (hd : table.get? d = some symbol) (hword : symbol.name ∈ Text.words text) :
    d ∈ dependencies := by
  obtain ⟨-, hwords, rfl⟩ := h.inOrder.admits hid
  have hname : symbol.name ∈ table.symbols.map (·.name) :=
    List.mem_map_of_mem (List.mem_of_getElem? hd)
  -- The name is not in the source, so it was settled when the text was entered.
  obtain ⟨n, -, hnumber⟩ := h.regular.issued.numbered _ hname
  rw [h.regular.stem] at hnumber
  have hhidden := h.regular.issued.hidden _ hname
  rw [h.regular.source] at hhidden
  have hne := (h.regular.generated symbol (List.mem_of_getElem? hd)).ne_nil
  have hearly := hwords _ hword hne n hnumber hhidden
  refine List.mem_filterMap.mpr ⟨symbol.name, hword, ?_⟩
  have hfound : ((table.symbols.take id).findIdx? (·.name == symbol.name)).isSome = true := by
    obtain ⟨early, hmem, heq⟩ := List.mem_map.mp hearly
    rw [List.findIdx?_isSome, List.any_eq_true]
    exact ⟨early, hmem, by simp [heq]⟩
  have hlookup : table.symbols.findIdx? (·.name == symbol.name) = some d :=
    h.regular.lookup_eq hd
  rw [← List.take_append_drop id table.symbols, List.findIdx?_append] at hlookup
  obtain ⟨j, hj⟩ := Option.isSome_iff_exists.mp hfound
  rwa [hj, Option.some_or, ← hj] at hlookup

/-- The dependencies of a symbol stand before it. -/
theorem Closed.lt_of_depends (h : table.Closed grammar source) {id : Nat} {name text : Text}
    {dependencies : List Nat}
    (hid : table.get? id = some ⟨name, .expression text dependencies⟩) {d : Nat}
    (hd : d ∈ dependencies) : d < id := by
  obtain ⟨-, -, rfl⟩ := h.inOrder.admits hid
  obtain ⟨word, -, hfound⟩ := List.mem_filterMap.mp hd
  have hlt := (List.findIdx?_eq_some_iff_getElem.mp hfound).1
  rw [List.length_take] at hlt
  omega

theorem Closed.lt_of_argument (h : table.Closed grammar source) {id : Nat} {name function : Text}
    {ids : List Nat} (hid : table.get? id = some ⟨name, .call function ids⟩) :
    ∀ argument ∈ ids, argument < id := by
  intro argument hargument
  have hlt := h.inOrder.admits hid argument hargument
  rw [List.length_take] at hlt
  omega

end SymbolTable

end Reckon
