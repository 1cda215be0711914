import Mathlib.Logic.Relation
import Reckon.Proofs.Source.Entering
import Reckon.Source.Groups

/-!
# Rewriting sketches

Without its names and tables, cutting a source is a rewriting of sketches: an innermost group whose
closing parenthesis is the first one becomes its operands, and a call becomes its tree. `Step` is
one such step and `Steps` any number of them. A step does not look beyond what guards the part that
it rewrites, nor behind that part, so it can be made in a larger source (`Step.frame`).
-/

namespace Reckon

open Sketch (Tidy)

namespace Atom

/-- The atom is part of a word, or a word itself. -/
def isWordChar : Atom → Bool
  | char c => Text.isWordChar c
  | tree _ => true

end Atom

namespace Sketch

/-- The word can be the name of a function in a call. -/
def isCallable (name : Text) : Bool :=
  !(name.isEmpty || name.head?.any Decimal.isDigit || Grammar.standard.wordTokens.contains name)

/-- The sketch ends in a word, up to blanks, and this stands before the word. -/
structure Head (sketch before : Sketch) (name : Text) : Prop where
  split : ∃ blanks : Sketch, sketch = before ++ (ofText name ++ blanks) ∧ blanks.isBlank = true
  word : ∀ c ∈ name, Text.isWordChar c = true
  edge : before.getLast?.any Atom.isWordChar = false
  mark : name = [] → before.getLast?.any Atom.isBlank = false

/-- The arguments of a call: the sketches between separators, or none in a blank sketch. -/
def arguments (inner : Sketch) : List Sketch :=
  if inner.isBlank then [] else inner.splitOnP (Atom.isChar ',')

/-- The operands of a group: the sketches between separators. -/
def operands (inner : Sketch) : List Sketch :=
  inner.splitOnP (Atom.isChar ',')

/-- Trees between separators. -/
def row (trees : List (Option Expr)) : Sketch :=
  (trees.map Atom.tree).intersperse (.char ',')

/-- The first group of a sketch that closes stands between these parts. -/
structure Innermost (head inner : Sketch) : Prop where
  before : .char ')' ∉ head
  closed : .char ')' ∉ inner
  inside : .char '(' ∉ inner

/-- One step of cutting: a call becomes its tree, and another group becomes its operands. -/
inductive Step (registry : Registry) : Sketch → Sketch → Prop where
  | call {head stem inner : Sketch} {name : Text} (after : Sketch) (hfirst : Innermost head inner)
      (hhead : Head head stem name) (hname : isCallable name = true)
      (hpieces : ∀ piece ∈ inner.arguments, piece.isBlank = false) :
      Step registry (head ++ .char '(' :: (inner ++ .char ')' :: after))
        (stem ++ .char ' ' :: .tree (Expr.ofCall registry name
          (inner.arguments.map (read Grammar.standard))) :: .char ' ' :: after)
  | group {head before inner : Sketch} {name : Text} (after : Sketch)
      (hfirst : Innermost head inner) (hhead : Head head before name)
      (hname : isCallable name = false)
      (hpieces : ∀ piece ∈ inner.operands, piece.isBlank = false) :
      Step registry (head ++ .char '(' :: (inner ++ .char ')' :: after))
        (head ++ .char ' ' :: (row (inner.operands.map (read Grammar.standard)) ++
          .char ' ' :: after))

/-- Any number of steps. -/
abbrev Steps (registry : Registry) : Sketch → Sketch → Prop :=
  Relation.ReflTransGen (Step registry)

/-- Nothing is left to cut out of the sketch, and no parenthesis or separator is left. -/
structure Flat (sketch : Sketch) : Prop where
  opening : .char '(' ∉ sketch
  closing : .char ')' ∉ sketch
  separator : .char ',' ∉ sketch

/-- What stands in front of a part so that no word and no name reaches into the part: it ends in a
mark that is neither blank nor part of a word, up to blanks. -/
structure Fence (front : Sketch) : Prop where
  split : ∃ (before : Sketch) (c : Char) (blanks : Sketch), front = before ++ .char c :: blanks ∧
    Text.isWordChar c = false ∧ Unicode.isBlank c = false ∧ blanks.isBlank = true
  closing : .char ')' ∉ front

/-- What can stand in front of a part without calling it: it does not end in a word, and what it
ends in up to blanks is no name of a function. -/
structure Guard (front : Sketch) : Prop where
  head : ∃ stem name, Head front stem name ∧ isCallable name = false
  edge : front.getLast?.any Atom.isWordChar = false
  closing : .char ')' ∉ front

variable {registry : Registry}

theorem isWordChar_of_isBlank {atom : Atom} (h : atom.isBlank = true) :
    atom.isWordChar = false := by
  cases atom with
  | tree => cases h
  | char c => exact isWordChar_of_blank h

theorem tree_mem_parts {head inner after : Sketch} {tree : Option Expr}
    (h : .tree tree ∈ head ++ .char '(' :: (inner ++ .char ')' :: after)) :
    .tree tree ∈ head ∨ .tree tree ∈ inner ∨ .tree tree ∈ after := by
  simpa using h

/-- The trees of a sketch stand before the word that it ends in. -/
theorem Head.tree_mem {sketch before : Sketch} {name : Text} (h : Head sketch before name)
    {tree : Option Expr} (htree : .tree tree ∈ sketch) : .tree tree ∈ before := by
  obtain ⟨blanks, rfl, hblanks⟩ := h.split
  rw [isBlank, List.all_eq_true] at hblanks
  rw [List.mem_append, List.mem_append] at htree
  rcases htree with hbefore | hname | hblank
  · exact hbefore
  · obtain ⟨c, -, heq⟩ := List.mem_map.mp hname
    cases heq
  · cases hblanks _ hblank

/-- A fence does not end in a word. -/
theorem Fence.edge {front : Sketch} (h : Fence front) :
    front.getLast?.any Atom.isWordChar = false := by
  obtain ⟨before, c, blanks, rfl, hword, -, hblanks⟩ := h.split
  rw [List.getLast?_append_of_ne_nil _ (List.cons_ne_nil _ _)]
  rw [isBlank, List.all_eq_true] at hblanks
  cases hlast : blanks.getLast? with
  | none =>
      rw [List.getLast?_eq_none_iff.mp hlast]
      exact hword
  | some atom =>
      have hmem := List.mem_of_getLast? hlast
      rw [List.getLast?_cons, hlast]
      exact isWordChar_of_isBlank (hblanks atom hmem)

/-- A fence is a guard. -/
theorem Fence.guard {front : Sketch} (h : Fence front) : Guard front := by
  refine ⟨?_, h.edge, h.closing⟩
  obtain ⟨ahead, c, blanks, rfl, hword, hblank, hblanks⟩ := h.split
  refine ⟨ahead ++ [.char c], [], ⟨⟨blanks, by simp [ofText], hblanks⟩, by simp, ?_, fun _ => ?_⟩,
    rfl⟩
  · rw [List.getLast?_concat]
    exact hword
  · rw [List.getLast?_concat]
    exact hblank

/-- The word at the end of a sketch is the same behind a guard, or is no name of a function and
neither is what takes its place. -/
theorem Head.frame {sketch before : Sketch} {name : Text} (h : Head sketch before name)
    {front : Sketch} (hfront : Guard front) :
    ∃ stem found, Head (front ++ sketch) stem found ∧
      (found = name ∧ stem = front ++ before ∨
        isCallable name = false ∧ isCallable found = false) := by
  obtain ⟨blanks, hsketch, hblanks⟩ := h.split
  by_cases hempty : before = [] ∧ name = []
  · -- Only blanks stand in the sketch, and the guard shows what stands before them.
    obtain ⟨rfl, rfl⟩ := hempty
    obtain ⟨stem, found, hfound, hname⟩ := hfront.head
    obtain ⟨more, rfl, hmore⟩ := hfound.split
    refine ⟨stem, found, ⟨⟨more ++ blanks, ?_, ?_⟩, hfound.word, hfound.edge, hfound.mark⟩,
      .inr ⟨rfl, hname⟩⟩
    · rw [hsketch]
      simp [ofText]
    · rw [isBlank, List.all_append, Bool.and_eq_true]
      exact ⟨hmore, hblanks⟩
  · refine ⟨front ++ before, name, ⟨⟨blanks, by rw [hsketch, List.append_assoc], hblanks⟩, h.word,
      ?_, fun hname => ?_⟩, .inl ⟨rfl, rfl⟩⟩
    · cases before with
      | nil =>
          rw [List.append_nil]
          exact hfront.edge
      | cons atom before =>
          rw [List.getLast?_append_of_ne_nil _ (List.cons_ne_nil _ _)]
          exact h.edge
    · have hbefore : before ≠ [] := fun hnil => hempty ⟨hnil, hname⟩
      rw [List.getLast?_append_of_ne_nil _ hbefore]
      exact h.mark hname

/-- A group that closes first does so behind a guard. -/
theorem Innermost.frame {head inner front : Sketch} (h : Innermost head inner)
    (hfront : Guard front) : Innermost (front ++ head) inner := by
  refine ⟨?_, h.closed, h.inside⟩
  rw [List.mem_append]
  exact not_or.mpr ⟨hfront.closing, h.before⟩

/-- A step can be made behind a guard, and in front of anything. -/
theorem Step.frame {sketch next : Sketch} (h : Step registry sketch next) {front : Sketch}
    (hfront : Guard front) (behind : Sketch) :
    Step registry (front ++ (sketch ++ behind)) (front ++ (next ++ behind)) := by
  cases h with
  | call after hfirst hhead hname hpieces =>
      obtain ⟨stem, found, hfound, ⟨rfl, rfl⟩ | ⟨hnone, -⟩⟩ := hhead.frame hfront
      · have hstep : Step registry _ _ :=
          .call (after ++ behind) (hfirst.frame hfront) hfound hname hpieces
        simpa using hstep
      · rw [hname] at hnone
        cases hnone
  | @group head before inner name after hfirst hhead hname hpieces =>
      obtain ⟨stem, found, hfound, hsame⟩ := hhead.frame hfront
      have hnone : isCallable found = false := by
        rcases hsame with ⟨rfl, -⟩ | ⟨-, hnone⟩
        · exact hname
        · exact hnone
      have hstep : Step registry _ _ :=
        .group (after ++ behind) (hfirst.frame hfront) hfound hnone hpieces
      simpa using hstep

/-- Steps can be made behind a guard, and in front of anything. -/
theorem Steps.frame {sketch last : Sketch} (h : Steps registry sketch last) {front : Sketch}
    (hfront : Guard front) (behind : Sketch) :
    Steps registry (front ++ (sketch ++ behind)) (front ++ (last ++ behind)) := by
  induction h with
  | refl => exact .refl
  | tail _ hstep ih => exact ih.tail (hstep.frame hfront behind)

/-- The closing parentheses that are left. -/
def closings (sketch : Sketch) : Nat :=
  sketch.countP (Atom.isChar ')')

theorem closings_eq_zero {sketch : Sketch} : sketch.closings = 0 ↔ .char ')' ∉ sketch := by
  rw [closings, List.countP_eq_zero]
  constructor
  · intro h hmem
    exact h _ hmem (Atom.isChar_self _)
  · intro h atom hatom hchar
    exact h (Atom.eq_of_isChar hchar ▸ hatom)

/-- The trees of a row are in it. -/
theorem tree_mem_row {trees : List (Option Expr)} {tree : Option Expr} (h : tree ∈ trees) :
    .tree tree ∈ row trees := by
  induction trees with
  | nil => cases h
  | cons first trees ih =>
      cases trees with
      | nil =>
          rw [List.mem_singleton] at h
          rw [h]
          exact .head _
      | cons other trees =>
          rcases List.mem_cons.mp h with rfl | h
          · exact .head _
          · exact .tail _ (.tail _ (ih h))

/-- A row of trees is tidy. -/
theorem Tidy.row (source : Text) {trees : List (Option Expr)} (h : trees ≠ []) :
    Tidy source (row trees) := by
  induction trees with
  | nil => exact absurd rfl h
  | cons tree trees ih =>
      cases trees with
      | nil => exact .singleton source tree
      | cons other trees =>
          exact (Tidy.singleton source tree).append_cons (ih (List.cons_ne_nil _ _)) (by decide)

/-- A part without a tree is in an operand, which then has no tree either. -/
theorem none_mem_operands {inner : Sketch} (h : .tree none ∈ inner) :
    none ∈ inner.operands.map (read Grammar.standard) := by
  obtain ⟨piece, hpiece, hmem⟩ := Text.exists_mem_splitOnP (p := Atom.isChar ',') h rfl
  exact List.mem_map.mpr ⟨piece, hpiece, read_of_none hmem⟩

/-- A part without a tree is in an argument, which then has no tree either. -/
theorem none_mem_arguments {inner : Sketch} (h : .tree none ∈ inner) :
    none ∈ inner.arguments.map (read Grammar.standard) := by
  unfold arguments
  split
  · next hblank =>
      rw [isBlank, List.all_eq_true] at hblank
      cases hblank _ h
  · exact none_mem_operands h

/-- A row of trees has no parenthesis. -/
theorem mem_row {trees : List (Option Expr)} {atom : Atom} (h : atom ∈ row trees) :
    atom = .char ',' ∨ ∃ tree ∈ trees, atom = .tree tree := by
  induction trees with
  | nil => cases h
  | cons tree trees ih =>
      cases trees with
      | nil =>
          rw [row, List.map_singleton, List.intersperse_singleton, List.mem_singleton] at h
          exact .inr ⟨tree, .head _, h⟩
      | cons other trees =>
          rw [row, List.map_cons, List.map_cons, List.intersperse_cons_cons, List.mem_cons,
            List.mem_cons] at h
          rcases h with h | h | h
          · exact .inr ⟨tree, .head _, h⟩
          · exact .inl h
          · exact (ih h).imp id fun ⟨found, hfound, heq⟩ => ⟨found, .tail _ hfound, heq⟩

/-- Each step closes one parenthesis. -/
theorem Step.closings_eq {sketch next : Sketch} (h : Step registry sketch next) :
    sketch.closings = next.closings + 1 := by
  cases h with
  | @call head stem inner name after hfirst hhead hname hpieces =>
      obtain ⟨blanks, rfl, -⟩ := hhead.split
      have hhead := closings_eq_zero.mpr hfirst.before
      have hinner := closings_eq_zero.mpr hfirst.closed
      simp only [closings, List.countP_append] at hhead hinner ⊢
      simp [Atom.isChar]
      omega
  | @group head before inner name after hfirst hhead hname hpieces =>
      have hhead := closings_eq_zero.mpr hfirst.before
      have hinner := closings_eq_zero.mpr hfirst.closed
      have hrow : closings (row (inner.operands.map (read Grammar.standard))) = 0 := by
        refine closings_eq_zero.mpr ?_
        intro hmem
        rcases mem_row hmem with heq | ⟨tree, -, heq⟩
        · cases heq
        · cases heq
      simp only [closings] at hhead hinner hrow ⊢
      simp [Atom.isChar, hhead, hinner, hrow]

end Sketch

end Reckon
