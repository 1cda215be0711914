import Mathlib
import Reckon.Proofs.Source.Requests

/-!
# Tables of symbols with indices

A table of symbols answers by going through its symbols. The same answers can be had without that,
from an index of the names, one of the texts and one of the calls, each written when a symbol is
entered and at no other time (`IndexedTable.run_agrees`).
-/

namespace Reckon

/-- The index knows of each key what a search for it would find. -/
def Indexes {κ α : Type} [BEq κ] [Hashable κ] (index : Std.HashMap κ Nat) (fits : κ → α → Bool)
    (as : List α) : Prop :=
  ∀ key, index[key]? = as.findIdx? (fits key)

namespace Indexes

variable {κ α : Type} [BEq κ] [Hashable κ] {index : Std.HashMap κ Nat} {fits : κ → α → Bool}
  {as : List α}

theorem empty (fits : κ → α → Bool) : Indexes (∅ : Std.HashMap κ Nat) fits [] :=
  fun _ => Std.HashMap.getElem?_empty

/-- A member with a new key is entered at its place. -/
theorem insert [LawfulBEq κ] (h : Indexes index fits as) {a : α} {key : κ}
    (hnew : as.findIdx? (fits key) = none) (hfits : ∀ other, fits other a = (key == other)) :
    Indexes (index.insert key as.length) fits (as ++ [a]) := by
  intro other
  rw [Std.HashMap.getElem?_insert, List.findIdx?_append, h other]
  by_cases hkey : key = other
  · subst hkey
    simp [hnew, hfits]
  · simp [hkey, hfits]

theorem skip (h : Indexes index fits as) {a : α} (hfits : ∀ other, fits other a = false) :
    Indexes index fits (as ++ [a]) := by
  intro other
  rw [List.findIdx?_append, h other]
  simp [hfits]

end Indexes

/-- A table of symbols with an index of their names, one of the texts that they were entered for,
and one of the calls. -/
structure IndexedTable where
  table : SymbolTable
  byName : Std.HashMap Text Nat
  byText : Std.HashMap Text Nat
  byCall : Std.HashMap (Text × List Nat) Nat

namespace IndexedTable

/-- The table of a source before anything is cut out. -/
def empty (source : Text) : IndexedTable :=
  ⟨.empty source, ∅, ∅, ∅⟩

/-- The table with one more symbol, and the number of that symbol. The symbol is entered under its
name. -/
def push (indexed : IndexedTable) (content : SymbolContent) : Nat × IndexedTable :=
  let name := indexed.table.names.take.1
  let (id, table) := indexed.table.push content
  (id, { indexed with table, byName := indexed.byName.insert name id })

/-- The symbol of a text. A text that is a name is looked up as one; a new symbol is entered under
its text. -/
def enterExpression (indexed : IndexedTable) (text : Text) : Nat × IndexedTable :=
  let text := Text.trim text
  match indexed.byName[text]? with
  | some id => (id, indexed)
  | none =>
    match indexed.byText[text]? with
    | some id => (id, indexed)
    | none =>
      let dependencies := (Text.words text).filterMap fun word => indexed.byName[word]?
      let (id, indexed) := indexed.push (.expression text dependencies)
      (id, { indexed with byText := indexed.byText.insert text id })

/-- The symbol of a call. A new symbol is entered under its call. -/
def enterCall (indexed : IndexedTable) (function : Text) (arguments : List Nat) :
    Nat × IndexedTable :=
  match indexed.byCall[(function, arguments)]? with
  | some id => (id, indexed)
  | none =>
    let (id, indexed) := indexed.push (.call function arguments)
    (id, { indexed with byCall := indexed.byCall.insert (function, arguments) id })

/-- The answer to a request, and the table that the request leaves. -/
def serve (indexed : IndexedTable) : SymbolTable.Request → Option Nat × IndexedTable
  | .expression text =>
    let (id, indexed) := indexed.enterExpression text
    (some id, indexed)
  | .call function arguments =>
    let (id, indexed) := indexed.enterCall function arguments
    (some id, indexed)
  | .root id => (none, { indexed with table := indexed.table.withRoot id })

/-- The table of a source after a run of requests that began with no symbols. -/
def run (source : Text) (requests : List SymbolTable.Request) : IndexedTable :=
  requests.foldl (fun indexed request => (indexed.serve request).2) (empty source)

/-- The table with indices holds the other table, and each index knows what a search of that would
find. -/
structure Agrees (indexed : IndexedTable) (table : SymbolTable) : Prop where
  same : indexed.table = table
  names : Indexes indexed.byName (fun name symbol => symbol.name == name) table.symbols
  texts : Indexes indexed.byText (fun text symbol => symbol.isExpression text) table.symbols
  calls : Indexes indexed.byCall (fun call symbol => symbol.isCall call.1 call.2) table.symbols

namespace Agrees

variable {source : Text} {indexed : IndexedTable} {table : SymbolTable}

theorem empty (source : Text) : (IndexedTable.empty source).Agrees (.empty source) :=
  ⟨rfl, .empty _, .empty _, .empty _⟩

/-- The name of a further symbol is new, so it is entered at its place. -/
theorem names_push (h : indexed.Agrees table) (hregular : table.Regular source)
    (content : SymbolContent) :
    Indexes (indexed.push content).2.byName (fun name symbol => symbol.name == name)
      (table.push content).2.symbols := by
  obtain rfl := h.same
  refine h.names.insert ?_ fun _ => rfl
  refine List.findIdx?_eq_none_iff.mpr fun symbol hsymbol => beq_eq_false_iff_ne.mpr ?_
  exact fun hname => hregular.issued.take_not_mem (hname ▸ List.mem_map_of_mem hsymbol)

/-- Tables that agree answer a request alike, and go on to agree. -/
theorem serve (h : indexed.Agrees table) (hregular : table.Regular source)
    (request : SymbolTable.Request) :
    (indexed.serve request).2.Agrees (table.serve request).2 ∧
      (indexed.serve request).1 = (table.serve request).1 := by
  obtain rfl := h.same
  cases request with
  | expression text =>
      have hname : indexed.byName[Text.trim text]? = indexed.table.lookup? (Text.trim text) :=
        h.names _
      have hwords : (fun word => indexed.byName[word]?) = indexed.table.lookup? := funext h.names
      simp only [IndexedTable.serve, enterExpression, SymbolTable.serve,
        SymbolTable.enterExpression, hname, hwords, h.texts (Text.trim text)]
      cases indexed.table.lookup? (Text.trim text) with
      | some id => exact ⟨h, rfl⟩
      | none =>
          cases hfind : indexed.table.symbols.findIdx? (·.isExpression (Text.trim text)) with
          | some id => exact ⟨h, rfl⟩
          | none =>
              refine ⟨⟨rfl, h.names_push hregular _, ?_, ?_⟩, rfl⟩
              · exact h.texts.insert hfind fun _ => rfl
              · exact h.calls.skip fun _ => rfl
  | call function arguments =>
      simp only [IndexedTable.serve, enterCall, SymbolTable.serve, SymbolTable.enterCall,
        h.calls (function, arguments)]
      cases hfind : indexed.table.symbols.findIdx? (·.isCall function arguments) with
      | some id => exact ⟨h, rfl⟩
      | none =>
          refine ⟨⟨rfl, h.names_push hregular _, ?_, ?_⟩, rfl⟩
          · exact h.texts.skip fun _ => rfl
          · exact h.calls.insert hfind fun _ => rfl
  | root id => exact ⟨⟨rfl, h.names, h.texts, h.calls⟩, rfl⟩

end Agrees

/-- The same requests leave tables that agree. -/
theorem run_agrees (source : Text) (requests : List SymbolTable.Request) :
    (run source requests).Agrees (.run source requests) := by
  induction requests using List.reverseRecOn with
  | nil => exact .empty source
  | append_singleton requests request ih =>
      have hregular := (SymbolTable.consistent_run source requests).regular
      rw [SymbolTable.run_concat, run, List.foldl_concat]
      exact (ih.serve hregular request).1

end IndexedTable

end Reckon
