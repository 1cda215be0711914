import Mathlib.Data.List.Induction
import Mathlib.Data.Set.Card
import Reckon.Proofs.Fallible
import Reckon.Proofs.Source.Constants

/-!
# Runs of calls on a table of constants

A table of constants is called with one text after another. Every call keeps the entries that there
are (`Faithful.call`) and makes one for a new literal only, so an entry and an accepted call for its
text come together: `Accepted.exists_entry` and `accepted_of_entry`.
-/

namespace Reckon.ConstantTable

/-- The answer to a call for a text, and the table that the call leaves. A call that fails leaves
the table that there was. -/
def call (table : ConstantTable) (text : Text) :
    Except SyntaxFault (Option Text) × ConstantTable :=
  match table.enter text with
  | .ok (name, learned) => (.ok name, learned)
  | .error fault => (.error fault, table)

/-- The table of a source after a run of calls that began with no entries. -/
def run (quote source : Text) (texts : List Text) : ConstantTable :=
  texts.foldl (fun table text => (table.call text).2) (empty quote source)

/-- Some call of a run for this text was answered with this name. -/
def Accepted (quote source : Text) (texts : List Text) (text name : Text) : Prop :=
  ∃ before after, texts = before ++ text :: after ∧
    ((run quote source before).call text).1 = .ok (some name)

/-- Entries have texts and names of their own, no name occurs in the source, and the value of an
entry is the one that its text is a literal of. -/
structure Faithful (quote source : Text) (table : ConstantTable) : Prop where
  quoted : table.quote = quote
  sourced : table.names.source = source
  issued : table.names.Issued (table.entries.map (·.name))
  distinct : (table.entries.map (·.text)).Nodup
  valued : ∀ entry ∈ table.entries,
    (empty quote source).valueOf? entry.text = .ok (some entry.value)

section Call

variable {quote source text name : Text} {table : ConstantTable}

/-- What a text is a literal of only depends on the quote. -/
theorem valueOf_congr {other : ConstantTable} (h : table.quote = other.quote) (text : Text) :
    table.valueOf? text = other.valueOf? text := by
  rw [valueOf?, valueOf?, h]

theorem faithful_empty (quote source : Text) : (empty quote source).Faithful quote source :=
  ⟨rfl, rfl, .nil _, .nil, List.forall_mem_nil _⟩

/-- A faithful table with an entry for a new literal is faithful. -/
theorem Faithful.extend (h : table.Faithful quote source) {value : Value} (hnew : table.IsNew text)
    (hvalue : table.valueOf? text = .ok (some value)) :
    (table.extend text value).Faithful quote source where
  quoted := h.quoted
  sourced := h.sourced
  issued := issued_extend h.issued text value
  distinct := by
    show ((table.entries ++ [ConstantEntry.mk table.names.take.1 text value]).map (·.text)).Nodup
    rw [List.map_append]
    refine List.nodup_append.mpr ⟨h.distinct, List.nodup_singleton _, ?_⟩
    intro other hother last hlast heq
    obtain ⟨entry, hentry, rfl⟩ := List.mem_map.mp hother
    exact hnew entry hentry (heq.trans (List.mem_singleton.mp hlast))
  valued := by
    refine List.forall_mem_append.mpr ⟨h.valued, List.forall_mem_singleton.mpr ?_⟩
    rw [← hvalue]
    exact valueOf_congr h.quoted.symm text

/-- All that a call can do: it finds the entry for its text, makes one for a new literal, or leaves
the table as it is. -/
theorem call_cases (table : ConstantTable) (text : Text) :
    (∃ entry ∈ table.entries, entry.text = Text.trim text ∧
      table.call text = (.ok (some entry.name), table)) ∨
    (∃ value, table.IsNew (Text.trim text) ∧
      table.valueOf? (Text.trim text) = .ok (some value) ∧
      table.call text =
        (.ok (some table.names.take.1), table.extend (Text.trim text) value)) ∨
    (table.valueOf? (Text.trim text) = .ok none ∧ table.call text = (.ok none, table)) ∨
    ∃ fault, table.valueOf? (Text.trim text) = .error fault ∧
      table.call text = (.error fault, table) := by
  rw [call]
  have henters := table.enters text
  generalize table.enter text = outcome at henters
  cases henters with
  | known hentry htext => exact .inl ⟨_, hentry, htext, rfl⟩
  | new hnew hvalue => exact .inr (.inl ⟨_, hnew, hvalue, rfl⟩)
  | other hnew hvalue => exact .inr (.inr (.inl ⟨hvalue, rfl⟩))
  | failed hnew hvalue => exact .inr (.inr (.inr ⟨_, hvalue, rfl⟩))

/-- A call keeps a table faithful, and keeps its entries. -/
theorem Faithful.call (h : table.Faithful quote source) (text : Text) :
    (table.call text).2.Faithful quote source ∧
      table.entries <+: (table.call text).2.entries := by
  obtain ⟨entry, -, -, hcall⟩ | ⟨value, hnew, hvalue, hcall⟩ | ⟨-, hcall⟩ | ⟨fault, -, hcall⟩ :=
    table.call_cases text <;> rw [hcall]
  · exact ⟨h, List.prefix_refl _⟩
  · exact ⟨h.extend hnew hvalue, List.prefix_append _ _⟩
  · exact ⟨h, List.prefix_refl _⟩
  · exact ⟨h, List.prefix_refl _⟩

/-- The name that a call answers is that of the entry for its text. -/
theorem exists_entry (h : (table.call text).1 = .ok (some name)) :
    ∃ entry ∈ (table.call text).2.entries, entry.name = name ∧ entry.text = Text.trim text := by
  obtain ⟨entry, hentry, htext, hcall⟩ | ⟨value, -, -, hcall⟩ | ⟨-, hcall⟩ | ⟨fault, -, hcall⟩ :=
    table.call_cases text <;> rw [hcall] at h ⊢ <;> cases h
  · exact ⟨entry, hentry, rfl, htext⟩
  · exact ⟨_, List.mem_append_right _ (List.mem_singleton_self _), rfl, rfl⟩

/-- An entry that a call has made has the name that it answers and the text that it was made for. -/
theorem answer_of_entry {entry : ConstantEntry} (h : entry ∈ (table.call text).2.entries)
    (hnew : entry ∉ table.entries) :
    (table.call text).1 = .ok (some entry.name) ∧ entry.text = Text.trim text := by
  obtain ⟨found, -, -, hcall⟩ | ⟨value, -, -, hcall⟩ | ⟨-, hcall⟩ | ⟨fault, -, hcall⟩ :=
    table.call_cases text <;> rw [hcall] at h ⊢
  · exact absurd h hnew
  · obtain hold | hlast := List.mem_append.mp h
    · exact absurd hold hnew
    · obtain rfl := List.mem_singleton.mp hlast
      exact ⟨rfl, rfl⟩
  · exact absurd h hnew
  · exact absurd h hnew

/-- A call that answers no name leaves the table as it is. -/
theorem call_unnamed (h : ∀ name, (table.call text).1 ≠ .ok (some name)) :
    (table.call text).2 = table := by
  obtain ⟨entry, -, -, hcall⟩ | ⟨value, -, -, hcall⟩ | ⟨-, hcall⟩ | ⟨fault, -, hcall⟩ :=
    table.call_cases text <;> rw [hcall] at h ⊢
  exact absurd rfl (h _)

/-- A call answers a name for a literal, none for a text that is no literal, and the error of a text
that cannot be read. -/
theorem Faithful.answer (h : table.Faithful quote source) (text : Text) :
    (table.call text).1.map Option.isSome =
      ((empty quote source).valueOf? (Text.trim text)).map Option.isSome := by
  have hread : (empty quote source).valueOf? (Text.trim text) = table.valueOf? (Text.trim text) :=
    valueOf_congr h.quoted.symm _
  obtain ⟨entry, hentry, htext, hcall⟩ | ⟨value, -, hvalue, hcall⟩ | ⟨hvalue, hcall⟩ |
    ⟨fault, hvalue, hcall⟩ := table.call_cases text <;> rw [hcall]
  · rw [← htext, h.valued entry hentry]
    rfl
  all_goals
    rw [hread, hvalue]
    rfl

end Call

section Run

variable {quote source : Text} {texts : List Text}

theorem run_concat (quote source : Text) (texts : List Text) (text : Text) :
    run quote source (texts ++ [text]) = ((run quote source texts).call text).2 :=
  List.foldl_concat ..

theorem faithful_run (quote source : Text) (texts : List Text) :
    (run quote source texts).Faithful quote source := by
  induction texts using List.reverseRecOn with
  | nil => exact faithful_empty quote source
  | append_singleton texts text ih =>
      rw [run_concat]
      exact (ih.call text).1

theorem entries_run (quote source : Text) (texts more : List Text) :
    (run quote source texts).entries <+: (run quote source (texts ++ more)).entries := by
  induction more using List.reverseRecOn with
  | nil => rw [List.append_nil]
  | append_singleton more text ih =>
      rw [← List.append_assoc, run_concat]
      exact ih.trans ((faithful_run quote source (texts ++ more)).call text).2

/-- A call that was accepted has left an entry. -/
theorem Accepted.exists_entry {text name : Text} (h : Accepted quote source texts text name) :
    ∃ entry ∈ (run quote source texts).entries, entry.name = name ∧
      entry.text = Text.trim text := by
  obtain ⟨before, after, rfl, hcall⟩ := h
  obtain ⟨entry, hentry, hname, htext⟩ := ConstantTable.exists_entry hcall
  have hmore := entries_run quote source (before ++ [text]) after
  rw [run_concat, List.append_assoc, List.singleton_append] at hmore
  exact ⟨entry, hmore.subset hentry, hname, htext⟩

/-- A call that was accepted stays so in longer runs. -/
theorem Accepted.concat {text name : Text} (h : Accepted quote source texts text name)
    (last : Text) : Accepted quote source (texts ++ [last]) text name := by
  obtain ⟨before, after, rfl, hcall⟩ := h
  exact ⟨before, after ++ [last], by simp, hcall⟩

/-- Each entry comes from a call that was accepted. -/
theorem accepted_of_entry {entry : ConstantEntry}
    (h : entry ∈ (run quote source texts).entries) :
    ∃ text, Accepted quote source texts text entry.name ∧ Text.trim text = entry.text := by
  induction texts using List.reverseRecOn with
  | nil => cases h
  | append_singleton texts last ih =>
      by_cases hold : entry ∈ (run quote source texts).entries
      · obtain ⟨text, haccepted, htext⟩ := ih hold
        exact ⟨text, haccepted.concat last, htext⟩
      · rw [run_concat] at h
        obtain ⟨hanswer, htext⟩ := answer_of_entry h hold
        exact ⟨last, ⟨texts, [], rfl, hanswer⟩, htext.symm⟩

/-- The texts of the entries are the trimmed texts that were accepted. -/
theorem texts_run (quote source : Text) (texts : List Text) :
    {word | ∃ text name, Accepted quote source texts text name ∧ Text.trim text = word} =
      ((run quote source texts).entries.map (·.text)).toFinset := by
  ext word
  rw [Set.mem_ofPred_eq, List.coe_toFinset, Set.mem_ofPred_eq, List.mem_map]
  constructor
  · rintro ⟨text, name, haccepted, rfl⟩
    obtain ⟨entry, hentry, -, htext⟩ := haccepted.exists_entry
    exact ⟨entry, hentry, htext⟩
  · rintro ⟨entry, hentry, rfl⟩
    obtain ⟨text, haccepted, htext⟩ := accepted_of_entry hentry
    exact ⟨text, entry.name, haccepted, htext⟩

end Run

end Reckon.ConstantTable
