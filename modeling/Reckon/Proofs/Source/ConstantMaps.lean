import Mathlib
import Reckon.Proofs.Source.Interning

/-!
# One constant for each literal

`ConstantTable.run_interns` is the statement to read first: it says what any run of calls leaves.
Each literal has one constant, under a name that no other has and that the source does not say; what
a name stands for never changes; and a call that enters nothing changes nothing.

A table of constants finds its entries by their names and by their texts. `ConstantMaps` has a map
for either, and works in place: what a call has changed when it fails stays changed. The two maps
stay in step (`Agrees.byText_eq_iff`) and answer as the table does (`Agrees.call`).
-/

namespace Reckon

/-- The map has an image of each member under its key, and nothing else. -/
structure Mirrors {κ α β : Type} [BEq κ] [Hashable κ] (map : Std.HashMap κ β) (key : α → κ)
    (image : α → β) (members : List α) : Prop where
  get : ∀ k, map[k]? = (members.find? (key · == k)).map image
  size : map.size = members.length

namespace Mirrors

variable {κ α β : Type} [BEq κ] [Hashable κ] {map : Std.HashMap κ β} {key : α → κ} {image : α → β}
  {members : List α}

theorem empty (key : α → κ) (image : α → β) : Mirrors ∅ key image [] :=
  ⟨fun _ => Std.HashMap.getElem?_empty, rfl⟩

/-- A member with a new key is written under it. -/
theorem insert [LawfulBEq κ] (h : Mirrors map key image members) {a : α}
    (hnew : ∀ member ∈ members, key member ≠ key a) :
    Mirrors (map.insert (key a) (image a)) key image (members ++ [a]) := by
  have hnone : members.find? (key · == key a) = none :=
    List.find?_eq_none.mpr fun member hmember => by simpa using hnew member hmember
  have habsent : key a ∉ map := by
    rw [Std.HashMap.mem_iff_isSome_getElem?, h.get, hnone]
    exact Bool.false_ne_true
  constructor
  · intro k
    rw [Std.HashMap.getElem?_insert, List.find?_append, h.get k]
    by_cases hk : key a = k
    · subst hk
      simp [hnone]
    · simp [hk]
  · rw [Std.HashMap.size_insert, if_neg habsent, h.size, List.length_append]
    rfl

end Mirrors

/-- A table of constants as two maps: from names to constants, and from texts to names. -/
structure ConstantMaps where
  quote : Text
  names : NameSupply
  byName : Std.HashMap Text Constant
  byText : Std.HashMap Text Text

namespace ConstantMaps

/-- Work on the maps in place. What a step has changed stays changed if a later step fails. -/
abbrev InPlace (α : Type) := ExceptT SyntaxFault (StateM ConstantMaps) α

/-- The maps of a source before any literal is met. -/
def empty (quote source : Text) : ConstantMaps :=
  ⟨quote, ⟨"__k".toList, source, 0⟩, ∅, ∅⟩

/-- What a text is a literal of, with the quote of these maps. -/
def valueOf? (maps : ConstantMaps) (text : Text) : Except SyntaxFault (Option Value) :=
  (ConstantTable.empty maps.quote maps.names.source).valueOf? text

/-- Entering a text: it is looked up, read as a literal, named, and written to one map and then to
the other. -/
def enter (text : Text) : InPlace (Option Text) := do
  let text := Text.trim text
  match (← get).byText[text]? with
  | some name => return some name
  | none =>
    let maps ← get
    match maps.valueOf? text with
    | .error fault => throw fault
    | .ok none => return none
    | .ok (some value) =>
      let name ← modifyGet fun maps =>
        let (name, names) := maps.names.take
        (name, { maps with names })
      modify fun maps => { maps with byName := maps.byName.insert name ⟨value, some text⟩ }
      modify fun maps => { maps with byText := maps.byText.insert text name }
      return some name

/-- The answer to a call for a text, and the maps that the call leaves. -/
def call (maps : ConstantMaps) (text : Text) :
    Except SyntaxFault (Option Text) × ConstantMaps :=
  (enter text).run.run maps

/-- The maps of a source after a run of calls that began with nothing. -/
def run (quote source : Text) (texts : List Text) : ConstantMaps :=
  texts.foldl (fun maps text => (maps.call text).2) (empty quote source)

/-- The maps mirror the entries of the table, under their names and under their texts. -/
structure Agrees (maps : ConstantMaps) (table : ConstantTable) : Prop where
  quote : maps.quote = table.quote
  names : maps.names = table.names
  byName : Mirrors maps.byName ConstantEntry.name ConstantEntry.constant table.entries
  byText : Mirrors maps.byText ConstantEntry.text ConstantEntry.name table.entries

/-- The maps with one more constant, under the next name. -/
def extend (maps : ConstantMaps) (text : Text) (value : Value) : ConstantMaps :=
  { maps with
    names := maps.names.take.2
    byName := maps.byName.insert maps.names.take.1 ⟨value, some text⟩
    byText := maps.byText.insert text maps.names.take.1 }

theorem run_get {α : Type} (maps : ConstantMaps) (next : ConstantMaps → InPlace α) :
    (get >>= next : InPlace α).run.run maps = (next maps).run.run maps :=
  rfl

/-- All that a call can do. The maps are written to for a new literal only. -/
theorem call_eq (maps : ConstantMaps) (text : Text) :
    maps.call text = match maps.byText[Text.trim text]? with
      | some name => (.ok (some name), maps)
      | none =>
        match maps.valueOf? (Text.trim text) with
        | .error fault => (.error fault, maps)
        | .ok none => (.ok none, maps)
        | .ok (some value) =>
          (.ok (some maps.names.take.1), maps.extend (Text.trim text) value) := by
  unfold call enter
  simp only [run_get]
  cases maps.byText[Text.trim text]? with
  | some name => rfl
  | none =>
      simp only [run_get]
      cases maps.valueOf? (Text.trim text) with
      | error fault => rfl
      | ok found => cases found <;> rfl

/-- A call that answers no name leaves the maps as they are. -/
theorem call_unnamed {maps : ConstantMaps} {text : Text}
    (h : ∀ name, (maps.call text).1 ≠ .ok (some name)) : (maps.call text).2 = maps := by
  revert h
  rw [call_eq]
  cases maps.byText[Text.trim text]? with
  | some name => exact fun _ => rfl
  | none =>
      cases maps.valueOf? (Text.trim text) with
      | error fault => exact fun _ => rfl
      | ok found =>
          cases found with
          | none => exact fun _ => rfl
          | some value => exact fun h => absurd rfl (h _)

namespace Agrees

variable {quote source text name : Text} {maps : ConstantMaps} {table : ConstantTable}

theorem empty (quote source : Text) :
    (ConstantMaps.empty quote source).Agrees (.empty quote source) :=
  ⟨rfl, rfl, .empty _ _, .empty _ _⟩

/-- A new entry is written to both maps. -/
theorem extend (h : maps.Agrees table) (hfaithful : table.Faithful quote source)
    (hnew : table.IsNew text) (value : Value) :
    (maps.extend text value).Agrees (table.extend text value) := by
  have hname : ∀ entry ∈ table.entries, entry.name ≠ table.names.take.1 := by
    intro entry hentry hsame
    exact hfaithful.issued.take_not_mem (hsame ▸ List.mem_map_of_mem hentry)
  let entry : ConstantEntry := ⟨table.names.take.1, text, value⟩
  unfold ConstantMaps.extend
  rw [h.names]
  exact ⟨h.quote, rfl, h.byName.insert (a := entry) hname, h.byText.insert (a := entry) hnew⟩

/-- Maps and a table that agree answer a call alike, and go on to agree. -/
theorem call (h : maps.Agrees table) (hfaithful : table.Faithful quote source) (text : Text) :
    (maps.call text).2.Agrees (table.call text).2 ∧
      (maps.call text).1 = (table.call text).1 := by
  have hsame : maps.valueOf? (Text.trim text) = table.valueOf? (Text.trim text) :=
    ConstantTable.valueOf_congr h.quote _
  rw [call_eq, ConstantTable.call, ConstantTable.enter, h.byText.get (Text.trim text), hsame]
  cases hfind : table.entries.find? (·.text == Text.trim text) with
  | some entry => exact ⟨h, rfl⟩
  | none =>
      cases hvalue : table.valueOf? (Text.trim text) with
      | error fault => exact ⟨h, rfl⟩
      | ok found =>
          cases found with
          | none => exact ⟨h, rfl⟩
          | some value =>
              have hnew : table.IsNew (Text.trim text) := fun entry hentry => by
                simpa using List.find?_eq_none.mp hfind entry hentry
              refine ⟨h.extend hfaithful hnew value, ?_⟩
              show Except.ok (some maps.names.take.1) = Except.ok (some table.names.take.1)
              rw [h.names]

/-- The maps stay in step: a text leads to a name if and only if the name leads to the constant of
that text. -/
theorem byText_eq_iff (h : maps.Agrees table) (hfaithful : table.Faithful quote source) :
    maps.byText[text]? = some name ↔
      ∃ value, maps.byName[name]? = some ⟨value, some text⟩ := by
  rw [h.byText.get, h.byName.get]
  constructor
  · intro hfound
    obtain ⟨entry, hentry, rfl⟩ := Option.map_eq_some_iff.mp hfound
    have htext : entry.text = text := by simpa using List.find?_some hentry
    refine ⟨entry.value, ?_⟩
    rw [find_of_distinct hfaithful.issued.distinct (List.mem_of_find?_eq_some hentry), ← htext]
    rfl
  · rintro ⟨value, hfound⟩
    obtain ⟨entry, hentry, hconstant⟩ := Option.map_eq_some_iff.mp hfound
    have hname : entry.name = name := by simpa using List.find?_some hentry
    obtain ⟨-, htext⟩ := Constant.mk.inj hconstant
    cases htext
    rw [find_of_distinct hfaithful.distinct (List.mem_of_find?_eq_some hentry), ← hname]
    rfl

end Agrees

/-- The same calls leave maps and a table that agree. -/
theorem run_agrees (quote source : Text) (texts : List Text) :
    (run quote source texts).Agrees (.run quote source texts) := by
  induction texts using List.reverseRecOn with
  | nil => exact .empty quote source
  | append_singleton texts text ih =>
      rw [ConstantTable.run_concat, run, List.foldl_concat]
      exact (ih.call (ConstantTable.faithful_run quote source texts) text).1

end ConstantMaps

namespace ConstantTable

/-- Any run of calls on the table of a source, whatever its quote, leaves one constant for each
literal. Two accepted texts have one name if and only if they are the same when trimmed. A name
stands, now and after any further calls, for the trimmed text that it was given to and the value
that this text is a literal of. There are as many constants as there are different trimmed texts
that were accepted; their names are distinct, and none occurs in the source. The next call is
answered with a name, with none or with an error as its text is a literal, is none or cannot be
read; if it is answered with no name, it leaves the table as it is, the supply of names included.

Two maps that are written to in place do the same. They stay in step, they agree with the table and
answer the next call as it does, and they are left as they are if it is answered with no name. -/
theorem run_interns (quote source : Text) (texts : List Text) :
    (∀ text name other otherName, Accepted quote source texts text name →
      Accepted quote source texts other otherName →
        (name = otherName ↔ Text.trim text = Text.trim other)) ∧
    (∀ text name, Accepted quote source texts text name →
      ∃ value, (empty quote source).valueOf? (Text.trim text) = .ok (some value) ∧
        ∀ more, (run quote source (texts ++ more)).get? name =
          some ⟨name, Text.trim text, value⟩) ∧
    (run quote source texts).size =
      {word | ∃ text name, Accepted quote source texts text name ∧
        Text.trim text = word}.ncard ∧
    ((run quote source texts).entries.map (·.name)).Nodup ∧
    (∀ name ∈ (run quote source texts).entries.map (·.name), ¬ name <:+: source) ∧
    (∀ text, ((run quote source texts).call text).1.map Option.isSome =
      ((empty quote source).valueOf? (Text.trim text)).map Option.isSome) ∧
    (∀ text, (∀ name, ((run quote source texts).call text).1 ≠ .ok (some name)) →
      ((run quote source texts).call text).2 = run quote source texts) ∧
    (∀ text name : Text, (ConstantMaps.run quote source texts).byText[text]? = some name ↔
      ∃ value, (ConstantMaps.run quote source texts).byName[name]? = some ⟨value, some text⟩) ∧
    (ConstantMaps.run quote source texts).Agrees (run quote source texts) ∧
    ∀ text, ((ConstantMaps.run quote source texts).call text).1 =
        ((run quote source texts).call text).1 ∧
      ((∀ name, ((ConstantMaps.run quote source texts).call text).1 ≠ .ok (some name)) →
        ((ConstantMaps.run quote source texts).call text).2 =
          ConstantMaps.run quote source texts) := by
  have hfaithful := faithful_run quote source texts
  have hagrees := ConstantMaps.run_agrees quote source texts
  refine ⟨?_, ?_, ?_, hfaithful.issued.distinct, ?_, hfaithful.answer, fun text => call_unnamed,
    fun text name => hagrees.byText_eq_iff hfaithful, hagrees,
    fun text => ⟨(hagrees.call hfaithful text).2, ConstantMaps.call_unnamed⟩⟩
  · intro text name other otherName haccepted hother
    obtain ⟨entry, hentry, rfl, htext⟩ := haccepted.exists_entry
    obtain ⟨second, hsecond, rfl, hsecondText⟩ := hother.exists_entry
    rw [← htext, ← hsecondText]
    constructor
    · intro hname
      rw [List.inj_on_of_nodup_map hfaithful.issued.distinct hentry hsecond hname]
    · intro hsame
      rw [List.inj_on_of_nodup_map hfaithful.distinct hentry hsecond hsame]
  · intro text name haccepted
    obtain ⟨entry, hentry, rfl, htext⟩ := haccepted.exists_entry
    refine ⟨entry.value, htext ▸ hfaithful.valued entry hentry, ?_⟩
    intro more
    have hkept := (entries_run quote source texts more).subset hentry
    rw [get_of_mem (faithful_run quote source (texts ++ more)).issued.distinct hkept, ← htext]
  · rw [texts_run, Set.ncard_coe_finset, List.toFinset_card_of_nodup hfaithful.distinct,
      List.length_map]
    rfl
  · intro name hname
    rw [← hfaithful.sourced]
    exact hfaithful.issued.hidden name hname

/-- A number that is entered again, with blanks around it and behind a name, is the constant that it
was before. Bytes with an odd number of digits leave the table as it is. -/
theorem run_interns_repeat :
    let source := "5 + \t5".toList
    let texts := ["5".toList, "x".toList, "\t5 ".toList]
    (∃ name, Accepted ['"'] source texts "5".toList name ∧
      Accepted ['"'] source texts "\t5 ".toList name ∧
      ∃ value, (empty ['"'] source).valueOf? "5".toList = .ok (some value) ∧
        (run ['"'] source texts).get? name = some ⟨name, "5".toList, value⟩) ∧
      ((run ['"'] source texts).call "0x1".toList).2 = run ['"'] source texts := by
  intro source texts
  obtain ⟨hnames, hkept, -, -, -, -, hrest, -⟩ := run_interns ['"'] source texts
  have hfirst : Accepted ['"'] source texts "5".toList "__k0".toList :=
    ⟨[], ["x".toList, "\t5 ".toList], rfl, toOption_eq_some.mp (by decide +kernel)⟩
  obtain ⟨name, hlast⟩ : ∃ name, Accepted ['"'] source texts "\t5 ".toList name := by
    refine ⟨"__k0".toList, ["5".toList, "x".toList], [], rfl, toOption_eq_some.mp ?_⟩
    decide +kernel
  have hsame := (hnames _ _ _ _ hfirst hlast).mpr (by decide)
  obtain ⟨value, hvalue, hget⟩ := hkept _ _ hfirst
  refine ⟨⟨_, hfirst, hsame ▸ hlast, value, hvalue, hget []⟩, hrest _ ?_⟩
  intro name hname
  have hodd : ((run ['"'] source texts).call "0x1".toList).1.toOption = none := by decide +kernel
  rw [hname] at hodd
  cases hodd

end ConstantTable

end Reckon
