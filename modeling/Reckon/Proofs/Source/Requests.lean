import Mathlib.Data.List.Induction
import Reckon.Proofs.Source.Tables

/-!
# Requests to a table of symbols

A table of symbols is asked to enter a text or a call, and it is told which symbol stands for the
whole source. `Serves` lists all that a request can do. A text that is the name of a symbol is
answered with that symbol; any other text, and any call, is answered with the symbol that was
entered for it, or is entered now. So a table stays consistent: its names are issued, and no two
symbols were entered for the same text or the same call (`Consistent.serve`).
-/

namespace Reckon

/-- What a symbol is entered for. -/
inductive SymbolKey where
  | text (text : Text)
  | call (function : Text) (arguments : List Nat)

namespace SymbolContent

/-- What the symbol was entered for. -/
def key : SymbolContent → SymbolKey
  | .expression text _ => .text text
  | .call function arguments => .call function arguments

/-- The symbols that the symbol refers to. -/
def references : SymbolContent → List Nat
  | .expression _ dependencies => dependencies
  | .call _ arguments => arguments

end SymbolContent

namespace Symbol

theorem isExpression_iff {symbol : Symbol} {text : Text} :
    symbol.isExpression text = true ↔ symbol.content.key = .text text := by
  cases hcontent : symbol.content <;> simp [isExpression, SymbolContent.key, hcontent]

theorem isCall_iff {symbol : Symbol} {function : Text} {arguments : List Nat} :
    symbol.isCall function arguments = true ↔ symbol.content.key = .call function arguments := by
  cases hcontent : symbol.content <;> simp [isCall, SymbolContent.key, hcontent]

end Symbol

namespace SymbolTable

/-- What a table can be asked: to enter a text, to enter a call, and to take a symbol for the whole
source. -/
inductive Request where
  | expression (text : Text)
  | call (function : Text) (arguments : List Nat)
  | root (id : Nat)

namespace Request

/-- What a symbol would be entered for. -/
def key? : Request → Option SymbolKey
  | .expression text => some (.text (Text.trim text))
  | .call function arguments => some (.call function arguments)
  | .root _ => none

/-- The symbols that a call is made with. -/
def arguments : Request → List Nat
  | .expression _ => []
  | .call _ arguments => arguments
  | .root _ => []

/-- The request is for a text that is the name of a symbol. -/
def IsName (table : SymbolTable) : Request → Prop
  | .expression text => Text.trim text ∈ table.symbols.map (·.name)
  | .call .. => False
  | .root _ => False

instance (table : SymbolTable) (request : Request) : Decidable (request.IsName table) :=
  match request with
  | .expression text => inferInstanceAs (Decidable (Text.trim text ∈ table.symbols.map (·.name)))
  | .call .. => inferInstanceAs (Decidable False)
  | .root _ => inferInstanceAs (Decidable False)

end Request

/-- The answer to a request, and the table that the request leaves. -/
def serve (table : SymbolTable) : Request → Option Nat × SymbolTable
  | .expression text =>
    let (id, table) := table.enterExpression text
    (some id, table)
  | .call function arguments =>
    let (id, table) := table.enterCall function arguments
    (some id, table)
  | .root id => (none, table.withRoot id)

/-- All that a request can do. A text that is a name is answered with the symbol of that name, and
what a symbol was entered for with that symbol. Otherwise a symbol is entered, which refers to
symbols of the table or to arguments of the request. -/
inductive Serves (table : SymbolTable) : Request → Option Nat × SymbolTable → Prop where
  | named {text : Text} {id : Nat} {symbol : Symbol} (hid : table.get? id = some symbol)
      (hname : symbol.name = Text.trim text) : Serves table (.expression text) (some id, table)
  | known {request : Request} {id : Nat} {symbol : Symbol} (hother : ¬ request.IsName table)
      (hid : table.get? id = some symbol) (hkey : request.key? = some symbol.content.key) :
      Serves table request (some id, table)
  | new {request : Request} {content : SymbolContent} (hother : ¬ request.IsName table)
      (hkey : request.key? = some content.key)
      (hnew : content.key ∉ table.symbols.map (·.content.key))
      (hreferences : ∀ id ∈ content.references, id < table.size ∨ id ∈ request.arguments) :
      Serves table request (some table.size, (table.push content).2)
  | root (id : Nat) : Serves table (.root id) (none, table.withRoot id)

variable {source : Text} {table : SymbolTable}

/-- A table has one more symbol when one is pushed. -/
@[simp]
theorem size_push (table : SymbolTable) (content : SymbolContent) :
    (table.push content).2.size = table.size + 1 :=
  List.length_append

theorem get_of_findIdx {p : Symbol → Bool} {id : Nat} (h : table.symbols.findIdx? p = some id) :
    ∃ symbol, table.get? id = some symbol ∧ p symbol = true := by
  obtain ⟨hlt, hfound, -⟩ := List.findIdx?_eq_some_iff_getElem.mp h
  exact ⟨_, List.getElem?_eq_getElem hlt, hfound⟩

/-- What a search finds nothing for is not said of any symbol of the table. -/
theorem not_mem_of_findIdx {κ : Type} {p : Symbol → Bool} {said : Symbol → κ} {key : κ}
    (hp : ∀ symbol, p symbol = true ↔ said symbol = key)
    (h : table.symbols.findIdx? p = none) : key ∉ table.symbols.map said := by
  intro hmem
  obtain ⟨symbol, hsymbol, hkey⟩ := List.mem_map.mp hmem
  have hmiss := List.findIdx?_eq_none_iff.mp h symbol hsymbol
  exact Bool.false_ne_true (hmiss.symm.trans ((hp symbol).mpr hkey))

theorem not_mem_of_lookup {name : Text} (h : table.lookup? name = none) :
    name ∉ table.symbols.map (·.name) :=
  not_mem_of_findIdx (fun _ => beq_iff_eq) h

theorem get_of_lookup {name : Text} {id : Nat} (h : table.lookup? name = some id) :
    ∃ symbol, table.get? id = some symbol ∧ symbol.name = name := by
  obtain ⟨symbol, hid, hname⟩ := get_of_findIdx h
  exact ⟨symbol, hid, eq_of_beq hname⟩

/-- A request does one of these. -/
theorem serves (table : SymbolTable) (request : Request) :
    table.Serves request (table.serve request) := by
  cases request with
  | expression text =>
      unfold serve enterExpression
      simp only
      cases hlookup : table.lookup? (Text.trim text) with
      | some id =>
          obtain ⟨symbol, hid, hname⟩ := get_of_lookup hlookup
          exact .named hid hname
      | none =>
          have hother := not_mem_of_lookup hlookup
          cases hfind : table.symbols.findIdx? (·.isExpression (Text.trim text)) with
          | some id =>
              obtain ⟨symbol, hid, hfound⟩ := get_of_findIdx hfind
              exact .known hother hid (congrArg some (Symbol.isExpression_iff.mp hfound).symm)
          | none =>
              refine .new hother rfl
                (not_mem_of_findIdx (fun _ => Symbol.isExpression_iff) hfind) ?_
              intro id hid
              obtain ⟨word, -, hword⟩ := List.mem_filterMap.mp hid
              exact .inl (List.findIdx?_eq_some_iff_getElem.mp hword).1
  | call function arguments =>
      have hother : ¬ (Request.call function arguments).IsName table := not_false
      unfold serve enterCall
      simp only
      cases hfind : table.symbols.findIdx? (·.isCall function arguments) with
      | some id =>
          obtain ⟨symbol, hid, hfound⟩ := get_of_findIdx hfind
          exact .known hother hid (congrArg some (Symbol.isCall_iff.mp hfound).symm)
      | none =>
          show table.Serves (.call function arguments)
            (some table.size, (table.push (.call function arguments)).2)
          exact .new hother rfl (not_mem_of_findIdx (fun _ => Symbol.isCall_iff) hfind)
            fun _ => .inr
  | root id => exact .root id

/-- The names of the table are issued, and no two of its symbols were entered for the same. -/
structure Consistent (source : Text) (table : SymbolTable) : Prop where
  regular : table.Regular source
  distinct : (table.symbols.map (·.content.key)).Nodup

namespace Consistent

theorem empty (source : Text) : (SymbolTable.empty source).Consistent source :=
  ⟨.empty source, .nil⟩

theorem push (h : table.Consistent source) {content : SymbolContent}
    (hnew : content.key ∉ table.symbols.map (·.content.key)) :
    (table.push content).2.Consistent source := by
  refine ⟨h.regular.push content, ?_⟩
  rw [symbols_push, List.map_append, List.map_singleton, ← List.concat_eq_append]
  exact h.distinct.concat hnew

/-- A request keeps a table consistent, and keeps its symbols. -/
theorem serve (h : table.Consistent source) (request : Request) :
    (table.serve request).2.Consistent source ∧
      table.symbols <+: (table.serve request).2.symbols := by
  have hserves := table.serves request
  generalize table.serve request = outcome at hserves
  cases hserves with
  | named | known => exact ⟨h, List.prefix_refl _⟩
  | new hother hkey hnew => exact ⟨h.push hnew, List.prefix_append _ _⟩
  | root id =>
      have hregular := h.regular
      exact ⟨⟨⟨hregular.stem, hregular.source, hregular.issued⟩, h.distinct⟩, List.prefix_refl _⟩

/-- Symbols are the same if they were entered for the same. -/
theorem id_eq_iff (h : table.Consistent source) {id other : Nat} {symbol second : Symbol}
    (hid : table.get? id = some symbol) (hother : table.get? other = some second) :
    id = other ↔ symbol.content.key = second.content.key := by
  constructor
  · rintro rfl
    rw [Option.some.inj (hid.symm.trans hother)]
  · intro hkey
    have hlt := (List.getElem?_eq_some_iff.mp hid).1
    refine (List.getElem?_inj (by simpa using hlt) h.distinct).mp ?_
    unfold get? at hid hother
    rw [List.getElem?_map, List.getElem?_map, hid, hother, Option.map_some, hkey, Option.map_some]

theorem lookup_eq_iff (h : table.Consistent source) {name : Text} {id : Nat} :
    table.lookup? name = some id ↔ ∃ symbol, table.get? id = some symbol ∧ symbol.name = name := by
  refine ⟨get_of_lookup, ?_⟩
  rintro ⟨symbol, hid, rfl⟩
  exact h.regular.lookup_eq hid

end Consistent

/-- A request that is not for a name is answered with the symbol that was entered for it, now or
before. -/
theorem symbol_of_answer {request : Request} {id : Nat} (h : (table.serve request).1 = some id)
    (hother : ¬ request.IsName table) :
    ∃ symbol, (table.serve request).2.get? id = some symbol ∧
      request.key? = some symbol.content.key := by
  have hserves := table.serves request
  generalize table.serve request = outcome at hserves h ⊢
  cases hserves with
  | named hid hname =>
      exact absurd (List.mem_map.mpr ⟨_, List.mem_of_getElem? hid, hname⟩) hother
  | known _ hid hkey =>
      cases h
      exact ⟨_, hid, hkey⟩
  | new _ hkey =>
      cases h
      exact ⟨_, List.getElem?_concat_length, hkey⟩
  | root => cases h

/-- The table of a source after a run of requests that began with no symbols. -/
def run (source : Text) (requests : List Request) : SymbolTable :=
  requests.foldl (fun table request => (table.serve request).2) (empty source)

section Run

variable {requests : List Request}

theorem run_concat (source : Text) (requests : List Request) (request : Request) :
    run source (requests ++ [request]) = ((run source requests).serve request).2 :=
  List.foldl_concat ..

/-- Every run leaves a consistent table. -/
theorem consistent_run (source : Text) (requests : List Request) :
    (run source requests).Consistent source := by
  induction requests using List.reverseRecOn with
  | nil => exact .empty source
  | append_singleton requests request ih =>
      rw [run_concat]
      exact (ih.serve request).1

theorem symbols_run (source : Text) (requests more : List Request) :
    (run source requests).symbols <+: (run source (requests ++ more)).symbols := by
  induction more using List.reverseRecOn with
  | nil => rw [List.append_nil]
  | append_singleton more request ih =>
      rw [← List.append_assoc, run_concat]
      exact ih.trans ((consistent_run source (requests ++ more)).serve request).2

theorem get_run {id : Nat} {symbol : Symbol} (h : (run source requests).get? id = some symbol)
    (more : List Request) : (run source (requests ++ more)).get? id = some symbol :=
  getElem_of_isPrefix (symbols_run source requests more) h

end Run

end SymbolTable

end Reckon
