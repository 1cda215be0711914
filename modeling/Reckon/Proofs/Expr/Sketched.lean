import Reckon.Proofs.Expr.Reading
import Reckon.Proofs.Source.Operands
import Reckon.Proofs.Source.Sketch

/-!
# Reading sketches

A sketch without parentheses and separators is read as a flat expression in which trees are
operands. Whatever names are written for its trees, reading the text gives the tree of the sketch
(`Written.read_eq`): blanks stand around every name, no blank is inside a token, and operands in a
row are never read.
-/

namespace Reckon

namespace Sketch

/-- The items of a text that nothing is cut out of. -/
def textItems (grammar : Grammar) (text : Text) : List (Option Item) :=
  (grammar.lexemes text).map (Lexeme.item? Expr.ofLeaf?)

/-- The items of a sketch behind a run of characters. The run ends at a blank or at a tree. -/
def itemsFrom (grammar : Grammar) (run : Text) : Sketch → List (Option Item)
  | [] => textItems grammar run
  | .char c :: rest =>
    if Unicode.isBlank c then textItems grammar run ++ itemsFrom grammar [] rest
    else itemsFrom grammar (run ++ [c]) rest
  | .tree tree :: rest =>
    textItems grammar run ++ tree.map .operand :: itemsFrom grammar [] rest

/-- The tree that items stand for. -/
def readItems (grammar : Grammar) (items : List (Option Item)) : Option Expr :=
  (items.mapM id).bind (Item.read grammar)

/-- The tree of a sketch. -/
def read (grammar : Grammar) (sketch : Sketch) : Option Expr :=
  readItems grammar (itemsFrom grammar [] sketch)

/-- The tree of an operand: the one that it is a known name of, or else that of a literal or a
parameter. -/
def leafOf (known : Text → Option (Option Expr)) (operand : Text) : Option Expr :=
  match known operand with
  | some tree => tree
  | none => Expr.ofLeaf? operand

theorem readLexemes_eq_readItems (grammar : Grammar) (leaf : Text → Option Expr)
    (lexemes : List Lexeme) :
    readLexemes grammar leaf lexemes = readItems grammar (lexemes.map (Lexeme.item? leaf)) := by
  rw [readLexemes, readItems, List.mapM_map]
  rfl

variable {grammar : Grammar}

theorem textItems_nil (grammar : Grammar) : textItems grammar [] = [] := by
  rw [textItems, Grammar.lexemes_nil, List.map_nil]

theorem readItems_of_none {items : List (Option Item)} (h : none ∈ items) :
    readItems grammar items = none := by
  rw [readItems, mapM_id_of_none h, Option.bind_none]

/-- The trees of a sketch are among its items. -/
theorem mem_itemsFrom {sketch : Sketch} {tree : Option Expr} (h : .tree tree ∈ sketch)
    (run : Text) : tree.map .operand ∈ itemsFrom grammar run sketch := by
  induction sketch generalizing run with
  | nil => cases h
  | cons atom sketch ih =>
      cases atom with
      | char c =>
          have hrest := (List.mem_cons.mp h).resolve_left nofun
          rw [itemsFrom]
          split
          · exact List.mem_append_right _ (ih hrest [])
          · exact ih hrest _
      | tree other =>
          rw [itemsFrom]
          refine List.mem_append_right _ ?_
          rcases List.mem_cons.mp h with heq | hrest
          · cases heq
            exact .head _
          · exact .tail _ (ih hrest [])

theorem read_of_none {sketch : Sketch} (h : .tree none ∈ sketch) : read grammar sketch = none :=
  readItems_of_none (mem_itemsFrom h [])

theorem itemsFrom_blank {c : Char} (hc : Unicode.isBlank c = true) (sketch : Sketch) :
    itemsFrom grammar [] (.char c :: sketch) = itemsFrom grammar [] sketch := by
  rw [itemsFrom, if_pos hc, textItems_nil, List.nil_append]

theorem read_blank {c : Char} (hc : Unicode.isBlank c = true) (sketch : Sketch) :
    read grammar (.char c :: sketch) = read grammar sketch := by
  rw [read, itemsFrom_blank hc, read]

/-- Blanks are no expression. -/
theorem read_of_isBlank {sketch : Sketch} (h : sketch.isBlank = true) :
    read grammar sketch = none := by
  induction sketch with
  | nil =>
      rw [read, itemsFrom, textItems_nil]
      rfl
  | cons atom sketch ih =>
      rw [isBlank, List.all_cons, Bool.and_eq_true] at h
      cases atom with
      | tree => cases h.1
      | char c => rw [read_blank h.1, ih h.2]

theorem isBlank_of_read {sketch : Sketch} {tree : Expr} (h : sketch.read grammar = some tree) :
    sketch.isBlank = false := by
  rw [← Bool.not_eq_true]
  intro hblank
  rw [read_of_isBlank hblank] at h
  cases h

namespace Written

variable {known : Text → Option (Option Expr)} {source text run : Text} {sketch : Sketch}
  {leaf : Text → Option Expr}

theorem isBlank_of_isGap {c : Char} (hgap : (Atom.char c).isGap = true) (hcomma : c ≠ ',') :
    Unicode.isBlank c = true := by
  simpa [Atom.isGap, hcomma] using hgap

/-- Behind a tree of a flat sketch its text ends, or goes on with a blank. -/
theorem behind_tree {tree : Option Expr} (h : Written known text sketch)
    (hapart : List.IsChain Atom.Apart (.tree tree :: sketch)) (hflat : .char ',' ∉ sketch) :
    text = [] ∨ ∃ b rest, text = b :: rest ∧ Unicode.isBlank b = true := by
  cases h with
  | nil => exact .inl rfl
  | char b rest =>
      have hgap := (List.isChain_cons.mp hapart).1 _ rfl
      have hcomma : b ≠ ',' := fun heq => hflat (heq ▸ .head _)
      exact .inr ⟨b, _, rfl, isBlank_of_isGap (hgap.1 rfl) hcomma⟩
  | name hname rest =>
      have hgap := (List.isChain_cons.mp hapart).1 _ rfl
      exact absurd (hgap.1 rfl) nofun

/-- A tree of a flat sketch does not stand directly behind a run of characters. -/
theorem run_of_char {c : Char} (hapart : List.IsChain Atom.Apart (.char c :: sketch))
    (hcomma : c ≠ ',') (hblank : ¬ Unicode.isBlank c = true) :
    sketch.head?.any Atom.isTree = false := by
  cases sketch with
  | nil => rfl
  | cons atom sketch =>
      have hgap := (List.isChain_cons.mp hapart).1 _ rfl
      cases htree : atom.isTree with
      | false => exact htree
      | true => exact absurd (isBlank_of_isGap (hgap.2 htree) hcomma) hblank

/-- A generated name is no token. -/
theorem token_ne_of_generated (hgrammar : grammar.Lexical) {name : Text}
    (h : Generated source name) : ∀ operator ∈ grammar.operatorTokens, operator.token ≠ name := by
  rintro operator hoperator rfl
  have hshaped := hgrammar.shaped operator hoperator
  obtain ⟨rest, hcons⟩ := List.head?_eq_some_iff.mp h.head
  have hword : Text.isWordChar '_' = true := by decide
  have halpha : Unicode.isAlphabetic '_' = false := by decide
  rw [hcons] at hshaped
  simp [Grammar.isToken, hword, halpha] at hshaped

theorem not_generated_of_divided {operand : Text} (h : operand.Divided) :
    ¬ Generated source operand := by
  intro hgenerated
  obtain ⟨c, hc, hblank⟩ := h.blank
  exact hgenerated.not_mem (isWordChar_of_blank hblank) hc

theorem not_generated_of_said (htidy : Tidy source sketch) {operand : Text}
    (h : ofText operand <:+: sketch) : ¬ Generated source operand := by
  intro hgenerated
  exact hgenerated.hidden (htidy.said operand (fun c => hgenerated.isWordChar_of_mem) h)

theorem known_of_not_generated
    (hknown : ∀ name tree, known name = some tree → Generated source name) {operand : Text}
    (h : ¬ Generated source operand) : known operand = none := by
  cases hname : known operand with
  | none => rfl
  | some tree => exact absurd (hknown _ _ hname) h

section

variable (hgrammar : grammar.Lexical)
  (hknown : ∀ name tree, known name = some tree → Generated source name)
include hgrammar hknown

/-- The lexemes of a text that starts with a name, which a blank divides from the rest. -/
theorem joined_name {name : Text} {tree : Option Expr} (hname : known name = some tree)
    (hbehind : text = [] ∨ ∃ b rest, text = b :: rest ∧ Unicode.isBlank b = true) :
    Lexeme.Joined [.operand name] (grammar.lexemes text) (grammar.lexemes (name ++ text)) := by
  have hgenerated := hknown _ _ hname
  have hlexemes := Grammar.lexemes_word hgrammar hgenerated.word
    (token_ne_of_generated hgrammar hgenerated)
  rcases hbehind with rfl | ⟨b, rest, rfl, hb⟩
  · have hjoined := Lexeme.Joined.apart [.operand name] []
    rw [List.append_nil] at hjoined
    rwa [List.append_nil, hlexemes, grammar.lexemes_nil]
  · have hjoined := Grammar.joined_lexemes hgrammar hb name rest
    have hrest := (Grammar.joined_lexemes hgrammar hb [] rest).eq_behind grammar.lexemes_nil
    rw [List.nil_append] at hrest
    rwa [hrest, ← hlexemes]

/-- The operands of a flat sketch behind a run: one with a blank inside, a known name, or characters
of the sketch. -/
theorem operand_behind (h : Written known text sketch)
    (hapart : List.IsChain Atom.Apart sketch) (hflat : .char ',' ∉ sketch)
    (hrun : run = [] ∨ sketch.head?.any Atom.isTree = false) {operand : Text}
    (hoperand : .operand operand ∈ grammar.lexemes (run ++ text)) :
    operand.Divided ∨ (∃ tree, known operand = some tree) ∨
      ofText operand <:+: ofText run ++ sketch := by
  induction h generalizing run with
  | nil =>
      rw [List.append_nil] at hoperand
      refine .inr (.inr ?_)
      rw [List.append_nil]
      exact (Grammar.operand_of_mem_lexemes hoperand).2.2.map _
  | @char c text sketch rest ih =>
      rw [List.mem_cons, Atom.char.injEq, not_or] at hflat
      by_cases hblank : Unicode.isBlank c = true
      · have hjoined := Grammar.joined_lexemes hgrammar hblank run text
        rcases hjoined.divided_or_mem hoperand with hdivided | hbefore | hbehind
        · exact .inl hdivided
        · have hpart := (Grammar.operand_of_mem_lexemes hbefore).2.2.map Atom.char
          exact .inr (.inr (hpart.trans List.infix_append_left))
        · rcases ih hapart.tail hflat.2 (.inl rfl) hbehind with hdivided | hname | hpart
          · exact .inl hdivided
          · exact .inr (.inl hname)
          · refine .inr (.inr (hpart.trans ?_))
            exact ⟨ofText run ++ [.char c], [], by simp [ofText]⟩
      · have hnext := run_of_char hapart (Ne.symm hflat.1) hblank
        rw [List.append_cons] at hoperand
        have hcases := ih hapart.tail hflat.2 (.inr hnext) hoperand
        rwa [ofText_concat] at hcases
  | @name name text tree sketch hname rest ih =>
      obtain rfl : run = [] := hrun.resolve_right (by simp [Atom.isTree])
      have hflat' : .char ',' ∉ sketch := fun hmem => hflat (.tail _ hmem)
      have hjoined := joined_name hgrammar hknown hname (behind_tree rest hapart hflat')
      rcases hjoined.divided_or_mem hoperand with hdivided | hbefore | hbehind
      · exact .inl hdivided
      · rw [List.mem_singleton, Lexeme.operand.injEq] at hbefore
        exact .inr (.inl ⟨tree, hbefore ▸ hname⟩)
      · rcases ih hapart.tail hflat' (.inl rfl) hbehind with hdivided | hname | hpart
        · exact .inl hdivided
        · exact .inr (.inl hname)
        · exact .inr (.inr (hpart.trans ⟨[.tree tree], [], by simp [ofText]⟩))

/-- The operands of a text of a flat sketch: one with a blank inside, a known name, or characters of
the sketch. -/
theorem operand_cases (h : Written known text sketch) (htidy : Tidy source sketch)
    (hflat : .char ',' ∉ sketch) {operand : Text}
    (hoperand : .operand operand ∈ grammar.lexemes text) :
    operand.Divided ∨ (∃ tree, known operand = some tree) ∨ ofText operand <:+: sketch :=
  operand_behind hgrammar hknown h htidy.apart hflat (.inl rfl) hoperand

variable (hnames : ∀ name tree, known name = some tree → leaf name = tree)
  (hdivided : ∀ operand : Text, operand.Divided → leaf operand = none)
include hnames hdivided

/-- The lexemes of a flat sketch behind a run are read as its items. -/
theorem readLexemes_behind (h : Written known text sketch)
    (hapart : List.IsChain Atom.Apart sketch) (hflat : .char ',' ∉ sketch)
    (hrun : run = [] ∨ sketch.head?.any Atom.isTree = false)
    (hleaf : ∀ operand, ofText operand <:+: ofText run ++ sketch →
      leaf operand = Expr.ofLeaf? operand)
    (more : List Lexeme) :
    readLexemes grammar leaf (more ++ grammar.lexemes (run ++ text)) =
      readItems grammar (more.map (Lexeme.item? leaf) ++ itemsFrom grammar run sketch) := by
  have hitems {run : Text}
      (hleaf : ∀ operand, operand <:+: run → leaf operand = Expr.ofLeaf? operand) :
      (grammar.lexemes run).map (Lexeme.item? leaf) = textItems grammar run := by
    refine List.map_congr_left ?_
    intro lexeme hlexeme
    cases lexeme with
    | operator => rfl
    | operand operand =>
        rw [Lexeme.item?, Lexeme.item?, hleaf _ (Grammar.operand_of_mem_lexemes hlexeme).2.2]
  -- A blank ends the run, and so does a tree, behind which a blank stands; any other character
  -- joins the run.
  induction h generalizing run more with
  | nil =>
      rw [List.append_nil, readLexemes_eq_readItems, List.map_append, itemsFrom, hitems]
      intro operand hoperand
      refine hleaf operand ?_
      rw [List.append_nil]
      exact hoperand.map _
  | @char c text sketch rest ih =>
      rw [List.mem_cons, Atom.char.injEq, not_or] at hflat
      by_cases hblank : Unicode.isBlank c = true
      · have hrunItems : (grammar.lexemes run).map (Lexeme.item? leaf) = textItems grammar run :=
          hitems fun operand hoperand =>
            hleaf operand ((hoperand.map Atom.char).trans List.infix_append_left)
        have hrest := ih hapart.tail hflat.2 (.inl (Eq.refl []))
          (fun operand hoperand => hleaf operand
            (hoperand.trans ⟨ofText run ++ [.char c], [], by simp [ofText]⟩))
          (more ++ grammar.lexemes run)
        rw [Grammar.readLexemes_blank hgrammar hblank hdivided, ← List.append_assoc]
        rw [List.nil_append] at hrest
        rw [hrest, itemsFrom, if_pos hblank, List.map_append, hrunItems, List.append_assoc]
      · have hnext := run_of_char hapart (Ne.symm hflat.1) hblank
        rw [List.append_cons, itemsFrom, if_neg hblank]
        refine ih hapart.tail hflat.2 (.inr hnext) (fun operand hoperand => hleaf operand ?_) more
        rwa [ofText_concat] at hoperand
  | @name name text tree sketch hname rest ih =>
      obtain rfl : run = [] := hrun.resolve_right (by simp [Atom.isTree])
      have hflat' : .char ',' ∉ sketch := fun hmem => hflat (.tail _ hmem)
      have hjoined := joined_name hgrammar hknown hname (behind_tree rest hapart hflat')
      have hrest := ih hapart.tail hflat' (.inl (Eq.refl []))
        (fun operand hoperand => hleaf operand
          (hoperand.trans ⟨[.tree tree], [], by simp [ofText]⟩))
        (more ++ [.operand name])
      rw [List.nil_append] at hrest
      rw [List.nil_append, hjoined.readLexemes_eq hdivided more, ← List.append_assoc, hrest,
        itemsFrom, textItems_nil, List.nil_append, List.map_append, List.append_assoc]
      simp [Lexeme.item?, hnames _ _ hname]

omit hnames hdivided in
/-- Reading a text of a flat sketch gives the tree of the sketch. -/
theorem read_eq (h : Written known text sketch) (htidy : Tidy source sketch)
    (hflat : .char ',' ∉ sketch) :
    readLexemes grammar (leafOf known) (grammar.lexemes text) = read grammar sketch := by
  refine readLexemes_behind hgrammar hknown (fun name tree hname => ?_) (fun operand hoperand => ?_)
    h htidy.apart hflat (.inl rfl) (fun operand hoperand => ?_) []
  · rw [leafOf, hname]
  · rw [leafOf, known_of_not_generated hknown (not_generated_of_divided hoperand)]
    exact Expr.ofLeaf_of_divided hoperand
  · rw [leafOf, known_of_not_generated hknown (not_generated_of_said htidy hoperand)]

end

end Written

end Sketch

end Reckon
