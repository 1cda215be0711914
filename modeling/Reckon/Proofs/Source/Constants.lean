import Reckon.Proofs.Fallible
import Reckon.Proofs.Source.Names
import Reckon.Source.Constants

/-!
# Tables of constants

Every entry of a regular table holds the value of its text, and no two entries have one name. So a
literal is entered under the name of its own value, whether it was met before or not
(`Regular.enter_literal`).
-/

namespace Reckon.ConstantTable

/-- The table of constants of a source: its names are issued, and its texts are the literals of its
values. -/
structure Regular (source : Text) (table : ConstantTable) : Prop where
  quote : table.quote = ['"']
  stem : table.names.stem = "__k".toList
  source : table.names.source = source
  issued : table.names.Issued (table.entries.map (·.name))
  valued : ∀ entry ∈ table.entries, table.valueOf? entry.text = .ok (some entry.value)

variable {source : Text} {table learned : ConstantTable}

theorem Regular.empty (source : Text) : (ConstantTable.empty ['"'] source).Regular source :=
  ⟨rfl, rfl, rfl, .nil _, List.forall_mem_nil _⟩

theorem get_of_mem (h : (table.entries.map (·.name)).Nodup) {entry : ConstantEntry}
    (hentry : entry ∈ table.entries) : table.get? entry.name = some entry :=
  find_of_distinct h hentry

theorem get_of_isPrefix {name : Text} {entry : ConstantEntry}
    (hmore : table.entries <+: learned.entries) (h : table.get? name = some entry) :
    learned.get? name = some entry := by
  obtain ⟨more, hmore⟩ := hmore
  rw [get?, ← hmore, List.find?_append, ← get?, h, Option.some_or]

theorem mem_names_of_get {name : Text} {entry : ConstantEntry}
    (h : table.get? name = some entry) : name ∈ table.entries.map (·.name) := by
  have hname : entry.name = name := by simpa using List.find?_some h
  exact List.mem_map.mpr ⟨entry, List.mem_of_find?_eq_some h, hname⟩

theorem Regular.generated (h : table.Regular source) {name : Text} {entry : ConstantEntry}
    (hget : table.get? name = some entry) : Generated source name := by
  have hgenerated := h.issued.generated (by rw [h.stem]; decide) (by rw [h.stem]; rfl)
    (mem_names_of_get hget)
  rwa [h.source] at hgenerated

/-- No entry of the table has the text. -/
def IsNew (table : ConstantTable) (text : Text) : Prop :=
  ∀ entry ∈ table.entries, entry.text ≠ text

/-- The table with one more entry, under the next name. -/
def extend (table : ConstantTable) (text : Text) (value : Value) : ConstantTable :=
  { table with
    names := table.names.take.2
    entries := table.entries ++ [⟨table.names.take.1, text, value⟩] }

theorem issued_extend (h : table.names.Issued (table.entries.map (·.name))) (text : Text)
    (value : Value) :
    (table.extend text value).names.Issued ((table.extend text value).entries.map (·.name)) := by
  show table.names.take.2.Issued
    ((table.entries ++ [ConstantEntry.mk table.names.take.1 text value]).map (·.name))
  rw [List.map_append]
  exact h.take

/-- All that entering a text can do. A text that has an entry is named by it. A new text gets an
entry under the next name if it is a literal; otherwise nothing is entered. -/
inductive Enters (table : ConstantTable) (text : Text) :
    Except SyntaxFault (Option Text × ConstantTable) → Prop where
  | known {entry : ConstantEntry} (hentry : entry ∈ table.entries)
      (htext : entry.text = Text.trim text) : Enters table text (.ok (some entry.name, table))
  | new {value : Value} (hnew : table.IsNew (Text.trim text))
      (hvalue : table.valueOf? (Text.trim text) = .ok (some value)) :
      Enters table text (.ok (some table.names.take.1, table.extend (Text.trim text) value))
  | other (hnew : table.IsNew (Text.trim text))
      (hvalue : table.valueOf? (Text.trim text) = .ok none) : Enters table text (.ok (none, table))
  | failed {fault : SyntaxFault} (hnew : table.IsNew (Text.trim text))
      (hvalue : table.valueOf? (Text.trim text) = .error fault) : Enters table text (.error fault)

/-- Entering a text does one of these. -/
theorem enters (table : ConstantTable) (text : Text) : Enters table text (table.enter text) := by
  unfold enter
  cases hfind : table.entries.find? (·.text == Text.trim text) with
  | some entry =>
      have htext : entry.text = Text.trim text := by simpa using List.find?_some hfind
      simp only [hfind]
      exact .known (List.mem_of_find?_eq_some hfind) htext
  | none =>
      have hnew : table.IsNew (Text.trim text) := by
        intro entry hentry heq
        have hmiss := List.find?_eq_none.mp hfind entry hentry
        simp [heq] at hmiss
      simp only [hfind]
      cases hvalue : table.valueOf? (Text.trim text) with
      | error fault => exact .failed hnew hvalue
      | ok found =>
          cases found with
          | none => exact .other hnew hvalue
          | some value => exact .new hnew hvalue

/-- A literal is entered under the name of its value. -/
theorem Regular.enter_literal (h : table.Regular source) {text : Text} {value : Value}
    (hvalue : table.valueOf? (Text.trim text) = .ok (some value)) :
    ∃ name learned, table.enter text = .ok (some name, learned) ∧ learned.Regular source ∧
      table.entries <+: learned.entries ∧
      learned.get? name = some ⟨name, Text.trim text, value⟩ := by
  have henters := table.enters text
  generalize hentered : table.enter text = outcome at henters
  cases henters with
  | @known entry hentry htext =>
      have hsame := h.valued entry hentry
      rw [htext, hvalue] at hsame
      refine ⟨entry.name, table, rfl, h, List.prefix_refl _, ?_⟩
      rw [get_of_mem h.issued.distinct hentry]
      cases hsame
      cases entry
      cases htext
      rfl
  | new hnew hfound =>
      cases hvalue.symm.trans hfound
      have hissued := issued_extend h.issued (Text.trim text) value
      refine ⟨_, _, rfl, ⟨h.quote, h.stem, h.source, hissued, ?_⟩, List.prefix_append _ _, ?_⟩
      · exact List.forall_mem_append.mpr ⟨h.valued, List.forall_mem_singleton.mpr hvalue⟩
      · exact get_of_mem hissued.distinct
          (List.mem_append_right _ (List.mem_singleton_self _))
  | other hnew hfound => cases hvalue.symm.trans hfound
  | failed hnew hfound => cases hvalue.symm.trans hfound

/-- A text that is no literal is not entered, and fails if reading it as a literal does. -/
theorem Regular.enter_other (h : table.Regular source) (text : Text)
    (hvalue : ∀ value, table.valueOf? (Text.trim text) ≠ .ok (some value)) :
    table.enter text = (table.valueOf? (Text.trim text)).map fun _ => (none, table) := by
  have henters := table.enters text
  generalize table.enter text = outcome at henters
  cases henters with
  | known hentry htext => exact absurd (htext ▸ h.valued _ hentry) (hvalue _)
  | new hnew hfound => exact absurd hfound (hvalue _)
  | other hnew hfound =>
      rw [hfound]
      rfl
  | failed hnew hfound =>
      rw [hfound]
      rfl

end Reckon.ConstantTable
