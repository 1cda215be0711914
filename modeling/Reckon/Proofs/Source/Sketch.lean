import Mathlib.Data.List.Chain
import Reckon.Expr.Basic
import Reckon.Proofs.Source.Names
import Reckon.Proofs.Text.Classes

/-!
# Sketches

A source on its way to symbols is a text in which generated names stand for parts that are cut out.
A sketch is that text without the names: characters, and in place of each name the tree of its part,
or nothing where the part has no tree. `Written` says which texts write a sketch. Since no character
of a sketch comes from a generated name, what is found in the text is found in the sketch.
-/

namespace Reckon

/-- A character of a source, or the tree of a part of it, if that part has a tree. -/
inductive Atom where
  | char (c : Char)
  | tree (tree : Option Expr)

/-- A source in which trees stand in place of parts. -/
abbrev Sketch := List Atom

namespace Atom

/-- The atom is this character. -/
def isChar (c : Char) : Atom → Bool
  | char d => d == c
  | tree _ => false

/-- The atom is a tree, or the place of one. -/
def isTree : Atom → Bool
  | char _ => false
  | tree _ => true

/-- The atom is a blank or separates arguments. -/
def isGap : Atom → Bool
  | char c => Unicode.isBlank c || c == ','
  | tree _ => false

/-- The atom is a blank. -/
def isBlank : Atom → Bool
  | char c => Unicode.isBlank c
  | tree _ => false

/-- Nothing but a gap stands beside a tree. -/
def Apart (a b : Atom) : Prop :=
  (a.isTree = true → b.isGap = true) ∧ (b.isTree = true → a.isGap = true)

theorem apart_chars (c d : Char) : Apart (.char c) (.char d) :=
  ⟨nofun, nofun⟩

theorem isWordChar_of_isGap {c : Char} (h : (Atom.char c).isGap = true) :
    Text.isWordChar c = false := by
  rw [isGap, Bool.or_eq_true, beq_iff_eq] at h
  rcases h with hblank | rfl
  · exact isWordChar_of_blank hblank
  · decide

theorem apart_gap {a : Atom} (h : a.isGap = true) (b : Atom) : Apart a b ∧ Apart b a := by
  cases a with
  | tree => cases h
  | char c => exact ⟨⟨nofun, fun _ => h⟩, ⟨fun _ => h, nofun⟩⟩

theorem eq_of_isChar {c : Char} {a : Atom} (h : a.isChar c = true) : a = .char c := by
  cases a with
  | tree => cases h
  | char d =>
      have heq : d = c := by simpa [isChar] using h
      rw [heq]

@[simp] theorem isChar_self (c : Char) : (Atom.char c).isChar c = true :=
  beq_self_eq_true c

end Atom

theorem forall₂_modifyHead {α β : Type} {R : α → β → Prop} {f : α → α} {g : β → β} {as : List α}
    {bs : List β} (hfirst : ∀ a b, R a b → R (f a) (g b)) (h : List.Forall₂ R as bs) :
    List.Forall₂ R (as.modifyHead f) (bs.modifyHead g) := by
  cases h with
  | nil => exact .nil
  | cons hab hrest => exact .cons (hfirst _ _ hab) hrest

namespace Sketch

/-- The sketch of a text that nothing is cut out of. -/
def ofText (text : Text) : Sketch :=
  text.map .char

/-- The sketch is empty or made of blanks. -/
def isBlank (sketch : Sketch) : Bool :=
  sketch.all Atom.isBlank

theorem ofText_concat (run : Text) (c : Char) (sketch : Sketch) :
    ofText (run ++ [c]) ++ sketch = ofText run ++ .char c :: sketch := by
  simp [ofText]

/-- The text writes the sketch, with known names for its trees. -/
inductive Written (known : Text → Option (Option Expr)) : Text → Sketch → Prop where
  | nil : Written known [] []
  | char (c : Char) {text : Text} {sketch : Sketch} (rest : Written known text sketch) :
      Written known (c :: text) (.char c :: sketch)
  | name {name text : Text} {tree : Option Expr} {sketch : Sketch} (h : known name = some tree)
      (rest : Written known text sketch) :
      Written known (name ++ text) (.tree tree :: sketch)

namespace Written

variable {known more : Text → Option (Option Expr)} {text other : Text} {sketch a b : Sketch}

theorem mono (h : Written known text sketch)
    (hmore : ∀ name tree, known name = some tree → more name = some tree) :
    Written more text sketch := by
  induction h with
  | nil => exact .nil
  | char c rest ih => exact .char c ih
  | name hname rest ih => exact .name (hmore _ _ hname) ih

theorem plain (known : Text → Option (Option Expr)) (text : Text) :
    Written known text (ofText text) := by
  induction text with
  | nil => exact .nil
  | cons c text ih => exact .char c ih

theorem singleton {name : Text} {tree : Option Expr} (h : known name = some tree) :
    Written known name [.tree tree] := by
  have hwritten := Written.name h .nil
  rwa [List.append_nil] at hwritten

/-- Texts written one after the other. -/
theorem append (ha : Written known text a) (hb : Written known other b) :
    Written known (text ++ other) (a ++ b) := by
  induction ha with
  | nil => exact hb
  | char c rest ih => exact .char c ih
  | name hname rest ih =>
      rw [List.append_assoc]
      exact .name hname ih

/-- The parts of a sketch are written one after the other. -/
theorem exists_append (h : Written known text (a ++ b)) :
    ∃ before after, text = before ++ after ∧ Written known before a ∧ Written known after b := by
  induction a generalizing text with
  | nil => exact ⟨[], text, rfl, .nil, h⟩
  | cons atom a ih =>
      cases h with
      | char c rest =>
          obtain ⟨before, after, rfl, ha, hb⟩ := ih rest
          exact ⟨c :: before, after, rfl, .char c ha, hb⟩
      | @name name _ _ _ hname rest =>
          obtain ⟨before, after, rfl, ha, hb⟩ := ih rest
          exact ⟨name ++ before, after, by rw [List.append_assoc], .name hname ha, hb⟩

/-- The parts of a sketch beside a character are written beside that character. -/
theorem exists_append_cons {c : Char} (h : Written known text (a ++ .char c :: b)) :
    ∃ before after, text = before ++ c :: after ∧ Written known before a ∧
      Written known after b := by
  obtain ⟨before, rest, rfl, ha, hrest⟩ := h.exists_append
  cases hrest with
  | char c hb => exact ⟨before, _, rfl, ha, hb⟩

/-- Characters are written by themselves. -/
theorem eq_of_plain {run : Text} (h : Written known text (ofText run)) : text = run := by
  induction run generalizing text with
  | nil =>
      cases h
      rfl
  | cons c run ih =>
      cases h with
      | char c rest => rw [ih rest]

section Hidden

variable {source : Text}
  (hknown : ∀ name tree, known name = some tree → Generated source name)
include hknown

/-- A character that is no word character is in the text if it is in the sketch. -/
theorem mem_iff (h : Written known text sketch) {c : Char} (hc : Text.isWordChar c = false) :
    c ∈ text ↔ .char c ∈ sketch := by
  induction h with
  | nil => simp
  | char d rest ih => simp [ih]
  | @name name _ _ _ hname rest ih =>
      have hnot := (hknown _ _ hname).not_mem hc
      simp [ih, hnot]

/-- A text is blank if its sketch is. -/
theorem isBlank_eq (h : Written known text sketch) : Text.isBlank text = isBlank sketch := by
  induction h with
  | nil => rfl
  | char c rest ih =>
      rw [Text.isBlank, List.all_cons, isBlank, List.all_cons]
      exact congrArg (Unicode.isBlank c && ·) ih
  | @name name _ _ _ hname rest ih =>
      have hgenerated := hknown _ _ hname
      have hblank : Text.isBlank name = false := by
        obtain ⟨c, hc⟩ := List.exists_mem_of_ne_nil name hgenerated.ne_nil
        refine List.all_eq_false.mpr ⟨c, hc, fun hblank => ?_⟩
        exact hgenerated.not_mem (isWordChar_of_blank hblank) hc
      rw [Text.isBlank, List.all_append, isBlank, List.all_cons]
      rw [Text.isBlank] at hblank
      rw [hblank]
      rfl

/-- The pieces between separators are written between them. -/
theorem splitOn (h : Written known text sketch) {c : Char} (hc : Text.isWordChar c = false) :
    List.Forall₂ (Written known) (Text.splitOn [c] text) (sketch.splitOnP (Atom.isChar c)) := by
  rw [Text.splitOn_singleton]
  induction h with
  | nil => exact .cons .nil .nil
  | char d rest ih =>
      rw [List.splitOnP_cons_eq_if_modifyHead, List.splitOnP_cons_eq_if_modifyHead]
      by_cases hd : (d == c) = true
      · rw [if_pos hd, if_pos (by exact hd)]
        exact .cons .nil ih
      · rw [if_neg hd, if_neg (by exact hd)]
        exact forall₂_modifyHead (fun _ _ hfirst => .char d hfirst) ih
  | @name name text tree sketch hname rest ih =>
      have hnone : ∀ d ∈ name, (d == c) = false := by
        intro d hd
        rw [beq_eq_false_iff_ne]
        rintro rfl
        exact (hknown _ _ hname).not_mem hc hd
      rw [Text.splitOnP_append hnone, List.splitOnP_cons_eq_if_modifyHead,
        if_neg (by simp [Atom.isChar])]
      exact forall₂_modifyHead (fun _ _ hfirst => .name hname hfirst) ih

end Hidden

end Written

end Sketch

/-- A part of a list without an element stands before or behind that element. -/
theorem infix_of_infix_append_cons {α : Type} {part before after : List α} {a : α}
    (h : part <:+: before ++ a :: after) (ha : a ∉ part) : part <:+: before ∨ part <:+: after := by
  obtain ⟨s, t, heq⟩ := h
  -- The part ends before the element, or starts behind it; otherwise it would contain it.
  rcases List.append_eq_append_iff.mp heq with ⟨rest, hbefore, -⟩ | ⟨rest, hfront, hrest⟩
  · exact .inl ⟨s, rest, hbefore.symm⟩
  · cases rest with
    | nil =>
        rw [List.append_nil] at hfront
        exact .inl ⟨s, [], by rw [List.append_nil, hfront]⟩
    | cons b rest =>
        rw [List.cons_append, List.cons.injEq] at hrest
        obtain ⟨rfl, rfl⟩ := hrest
        rw [List.append_cons] at hfront
        rcases List.append_eq_append_iff.mp hfront with ⟨front, hfront', hpart⟩ | ⟨front, -, hpart⟩
        · rcases List.eq_nil_or_concat front with rfl | ⟨front, last, rfl⟩
          · exact .inr ⟨[], t, by rw [hpart, List.nil_append, List.nil_append]⟩
          · rw [List.concat_eq_append, ← List.append_assoc] at hfront'
            have hlast := (List.append_inj_right' hfront' rfl).symm
            rw [List.singleton_inj] at hlast
            exact absurd (by rw [hpart, List.concat_eq_append, hlast]; simp) ha
        · exact .inr ⟨front, t, by rw [hpart]⟩

namespace Sketch

/-- Trees stand between gaps, the words are those of the source, and no quote is left. -/
structure Tidy (source : Text) (sketch : Sketch) : Prop where
  apart : List.IsChain Atom.Apart sketch
  said : ∀ run : Text, (∀ c ∈ run, Text.isWordChar c = true) → ofText run <:+: sketch →
    run <:+: source
  unquoted : .char '"' ∉ sketch

namespace Tidy

variable {source : Text} {sketch part a b : Sketch}

theorem of_part (h : Tidy source sketch) (hpart : part <:+: sketch) : Tidy source part := by
  refine ⟨?_, fun run hrun hwithin => h.said run hrun (hwithin.trans hpart),
    fun hquote => h.unquoted (hpart.subset hquote)⟩
  obtain ⟨before, behind, rfl⟩ := hpart
  exact h.apart.left_of_append.right_of_append

theorem singleton (source : Text) (tree : Option Expr) : Tidy source [.tree tree] := by
  refine ⟨.singleton _, fun run hrun hwithin => ?_, by simp⟩
  cases run with
  | nil => exact ⟨[], source, rfl⟩
  | cons c run =>
      have hmem := hwithin.subset (List.mem_map_of_mem (List.mem_cons_self (a := c)))
      cases List.mem_singleton.mp hmem

/-- Tidy sketches around a gap are tidy. -/
theorem append_cons (ha : Tidy source a) (hb : Tidy source b) {c : Char}
    (hc : (Atom.char c).isGap = true) : Tidy source (a ++ .char c :: b) := by
  have hclass : Text.isWordChar c = false ∧ c ≠ '"' := by
    rw [Atom.isGap, Bool.or_eq_true, beq_iff_eq] at hc
    rcases hc with hblank | rfl
    · exact ⟨isWordChar_of_blank hblank,
        Unicode.forall_blank (P := fun c => c ≠ '"') (by decide) hblank⟩
    · decide
  refine ⟨?_, fun run hrun hwithin => ?_, ?_⟩
  · refine List.isChain_append.mpr ⟨ha.apart, ?_, fun x _ y hy => ?_⟩
    · exact List.isChain_cons.mpr ⟨fun y _ => (Atom.apart_gap hc y).1, hb.apart⟩
    · cases hy
      exact (Atom.apart_gap hc x).2
  · have hnot : Atom.char c ∉ ofText run := by
      intro hmem
      obtain ⟨d, hd, heq⟩ := List.mem_map.mp hmem
      cases heq
      rw [hrun c hd] at hclass
      cases hclass.1
    rcases infix_of_infix_append_cons hwithin hnot with hwithin | hwithin
    · exact ha.said run hrun hwithin
    · exact hb.said run hrun hwithin
  · rw [List.mem_append, List.mem_cons, Atom.char.injEq]
    rintro (hquote | rfl | hquote)
    · exact ha.unquoted hquote
    · exact hclass.2 rfl
    · exact hb.unquoted hquote

end Tidy

end Sketch

end Reckon
