import Reckon.Proofs.Expr.Composition
import Reckon.Proofs.Source.Signs

/-!
# Sources that stand as operands

Some sources are read as one operand wherever blanks or parentheses stand around them, also directly
behind a sign: words, string literals, groups, calls, and any of them behind prefix operators.
`Operand` says so. Operands behind a prefix operator, around a binary operator in parentheses, and
between the parentheses of a call are operands again.
-/

namespace Reckon

open Sketch (Extracts Steps Flat Guard)

namespace Sketch

/-- Items are read on where an operand has to come. -/
def readOperand (pending : List Pending) (prefixes : List UnaryOperator)
    (items : List (Option Item)) : Option Expr :=
  (items.mapM id).bind (Item.readOperand Grammar.standard pending prefixes)

/-- Items are read on behind an operand. -/
def readOperator (pending : List Pending) (operand : Expr) (items : List (Option Item)) :
    Option Expr :=
  (items.mapM id).bind (Item.readOperator Grammar.standard pending operand)

/-- The sketch is read as one operand in front of a blank or of nothing. -/
def ReadsAs (sketch : Sketch) (tree : Expr) : Prop :=
  ∀ rest : Sketch, rest.head?.all Atom.isBlank = true → ∀ pending prefixes,
    readOperand pending prefixes (itemsFrom Grammar.standard [] (sketch ++ rest)) =
      readOperator pending (Expr.applyPrefixes prefixes tree) (itemsFrom Grammar.standard [] rest)

/-- The source is one operand: what rewriting leaves of it is read as one. -/
def Operand (registry : Registry) (source : Text) (tree : Expr) : Prop :=
  ∃ sketch last, Extracts source sketch ∧ Steps registry sketch last ∧ Flat last ∧
    ReadsAs last tree

section Reading

variable {pending : List Pending} {prefixes : List UnaryOperator} {items : List (Option Item)}

theorem bind_mapM_cons (item : Item) (items : List (Option Item)) (next : List Item → Option Expr) :
    ((some item :: items).mapM id).bind next =
      (items.mapM id).bind fun items => next (item :: items) := by
  rw [List.mapM_cons]
  cases items.mapM id with
  | none => rfl
  | some items => rfl

theorem readOperand_operand (tree : Expr) :
    readOperand pending prefixes (some (.operand tree) :: items) =
      readOperator pending (Expr.applyPrefixes prefixes tree) items :=
  bind_mapM_cons _ _ _

theorem readOperand_prefix {token : Text} {op : UnaryOperator}
    (hop : Expr.asPrefix? Grammar.standard token = some op) (level : Option Nat) :
    readOperand pending prefixes (some (.operator token level) :: items) =
      readOperand pending (op :: prefixes) items := by
  rw [readOperand, bind_mapM_cons]
  simp only [Item.readOperand, hop, Option.bind_eq_bind, Option.bind_some]
  rfl

/-- The first binary operator waits for its right operand. -/
theorem readOperator_binary {token : Text} {op : BinaryOperator}
    (hop : BinaryOperator.ofToken? token = some op) (left : Expr) (level : Nat) :
    readOperator [] left (some (.operator token (some level)) :: items) =
      readOperand [⟨left, op, level⟩] [] items := by
  have hbinary : Expr.asBinary? ⟨some level, 0, token⟩ = some (op, level) := by
    simp [Expr.asBinary?, hop]
  rw [readOperator, bind_mapM_cons]
  simp only [Item.readOperator, hbinary, Option.bind_eq_bind, Option.bind_some,
    Pending.closeWhile]
  rfl

/-- A sign is read before what stands behind it. -/
theorem itemsFrom_sign {c : Char} {level : Option Nat} (hc : Grammar.standard.IsSign c level)
    (run : Text) (sketch : Sketch) :
    itemsFrom Grammar.standard (c :: run) sketch =
      some (.operator [c] level) :: itemsFrom Grammar.standard run sketch := by
  have htext (run : Text) : textItems Grammar.standard (c :: run) =
      some (.operator [c] level) :: textItems Grammar.standard run := by
    rw [textItems, Grammar.lexemes_sign Grammar.lexical_standard hc]
    rfl
  induction sketch generalizing run with
  | nil => exact htext run
  | cons atom sketch ih =>
      cases atom with
      | tree tree => rw [itemsFrom, itemsFrom, htext, List.cons_append]
      | char d =>
          rw [itemsFrom, itemsFrom]
          split
          · rw [htext, List.cons_append]
          · exact ih (run ++ [d])

/-- A run of characters ends where the sketch ends or goes on with a blank. -/
theorem itemsFrom_blank_or_nil (run : Text) {rest : Sketch}
    (hrest : rest.head?.all Atom.isBlank = true) :
    itemsFrom Grammar.standard run rest =
      textItems Grammar.standard run ++ itemsFrom Grammar.standard [] rest := by
  cases rest with
  | nil => rw [itemsFrom, itemsFrom, textItems_nil, List.append_nil]
  | cons atom rest =>
      cases atom with
      | tree => cases hrest
      | char c =>
          have hblank : Unicode.isBlank c = true := hrest
          rw [itemsFrom, if_pos hblank, itemsFrom_blank hblank]

end Reading

variable {registry : Registry} {source other word : Text} {sketch last : Sketch}
  {tree left right : Expr}

namespace ReadsAs

/-- An operand is an expression. -/
theorem read (h : ReadsAs sketch tree) : sketch.read Grammar.standard = some tree := by
  have hwhole := h [] rfl [] []
  rw [List.append_nil, itemsFrom, textItems_nil] at hwhole
  exact hwhole

theorem of_tree (tree : Expr) : ReadsAs [.char ' ', .tree (some tree), .char ' '] tree := by
  intro rest _ pending prefixes
  have hitems := itemsFrom_tree tree rest
  simp only [List.cons_append, List.nil_append, hitems]
  exact readOperand_operand tree

/-- A word that is a literal or a parameter is an operand. -/
theorem of_word (hword : Text.isWord word = true)
    (htoken : ∀ operator ∈ Grammar.standard.operatorTokens, operator.token ≠ word)
    (hleaf : Expr.ofLeaf? word = some tree) : ReadsAs (ofText word) tree := by
  intro rest hrest pending prefixes
  have hchars : ∀ c ∈ word, Unicode.isBlank c = false := by
    rw [Text.isWord, Bool.and_eq_true, List.all_eq_true] at hword
    exact fun c hc => isBlank_of_isWordChar (hword.2 c hc)
  have hitems : textItems Grammar.standard word = [some (.operand tree)] := by
    rw [textItems, Grammar.lexemes_word Grammar.lexical_standard hword htoken, List.map_singleton,
      Lexeme.item?, hleaf]
    rfl
  rw [itemsFrom_run hchars, List.nil_append, itemsFrom_blank_or_nil _ hrest, hitems]
  exact readOperand_operand tree

/-- An operand behind the mark of a prefix operator is an operand. -/
theorem unary (h : ReadsAs sketch tree) (op : UnaryOperator) :
    ReadsAs (ofText op.mark ++ sketch) (.operation (.unary op) [tree]) := by
  intro rest hrest pending prefixes
  have hbehind := h rest hrest pending (op :: prefixes)
  have hsign {c : Char} (hc : c = '-' ∨ c = '+')
      (hop : Expr.asPrefix? Grammar.standard [c] = some op) :
      readOperand pending prefixes
          (itemsFrom Grammar.standard [] (ofText [c] ++ sketch ++ rest)) =
        readOperator pending (Expr.applyPrefixes prefixes (.operation (.unary op) [tree]))
          (itemsFrom Grammar.standard [] rest) := by
    have hplain : ∀ d ∈ [c], Unicode.isBlank d = false := by
      rw [List.forall_mem_singleton]
      rcases hc with rfl | rfl <;> decide
    rw [List.append_assoc, itemsFrom_run hplain, List.nil_append,
      itemsFrom_sign (Grammar.isSign_standard hc), readOperand_prefix hop]
    exact hbehind
  cases op with
  | negate => exact hsign (.inl rfl) (by decide)
  | plus => exact hsign (.inr rfl) (by decide)
  | not =>
      have htoken : ['n', 'o', 't'] ∈ Grammar.standard.prefixes := by decide
      have hop : Expr.asPrefix? Grammar.standard ['n', 'o', 't'] = some .not := by decide
      obtain ⟨level, hoperator⟩ := exists_level htoken
      have hitems := itemsFrom_token hoperator (sketch ++ rest)
      have hmark : ofText UnaryOperator.not.mark ++ sketch ++ rest =
          ofText ['n', 'o', 't'] ++ .char ' ' :: (sketch ++ rest) := rfl
      rw [hmark, hitems, readOperand_prefix hop]
      exact hbehind

/-- Two operands around a binary operator are read as the operation. -/
theorem binary (h : ReadsAs sketch left) (hlast : ReadsAs last right) {token : Text} {level : Nat}
    (htoken : ⟨token, some level⟩ ∈ Grammar.standard.operatorTokens) {op : BinaryOperator}
    (hop : BinaryOperator.ofToken? token = some op) :
    (sketch ++ .char ' ' :: (ofText token ++ .char ' ' :: last)).read Grammar.standard =
      some (.operation (.binary op) [left, right]) := by
  have hblank : Unicode.isBlank ' ' = true := by decide
  have hleft := h (.char ' ' :: (ofText token ++ .char ' ' :: last)) rfl [] []
  have hright := hlast [] rfl [⟨left, op, level⟩] []
  have htokenItems := itemsFrom_token htoken last
  rw [itemsFrom_blank hblank, htokenItems, readOperator_binary hop] at hleft
  rw [List.append_nil, itemsFrom, textItems_nil] at hright
  exact hleft.trans hright

end ReadsAs

theorem guard_nil : Guard [] :=
  ⟨⟨[], [], head_nil, rfl⟩, rfl, List.not_mem_nil⟩

/-- Nothing calls what stands behind the mark of a prefix operator. -/
theorem guard_mark (op : UnaryOperator) : Guard (ofText op.mark) := by
  have hsign (c : Char) (hword : Text.isWordChar c = false) (hblank : Unicode.isBlank c = false)
      (hclosing : c ≠ ')') : Guard (ofText [c]) :=
    (Fence.mk ⟨[], c, [], rfl, hword, hblank, rfl⟩ (by simpa [ofText] using hclosing.symm)).guard
  cases op with
  | negate => exact hsign '-' (by decide) (by decide) (by decide)
  | plus => exact hsign '+' (by decide) (by decide) (by decide)
  | not =>
      have htoken : ['n', 'o', 't'] ∈ Grammar.standard.tokens :=
        List.mem_append_right _ (by decide)
      obtain ⟨stem, name, hhead, hname⟩ := head_token htoken [] rfl
      exact ⟨⟨stem, name, hhead, hname⟩, isWordChar_space, mem_ofText.not.mpr (by decide)⟩

/-- A source that becomes a tree is an operand. -/
theorem Becomes.operand (h : Becomes registry source tree) : Operand registry source tree := by
  obtain ⟨sketch, hextracts, hsteps⟩ := h
  exact ⟨sketch, _, hextracts, hsteps, flat_tree tree, .of_tree tree⟩

namespace Operand

/-- An operand is a source with a tree. -/
theorem derives (h : Operand registry source tree) : Derives registry source tree := by
  obtain ⟨sketch, last, hextracts, hsteps, hflat, hreads⟩ := h
  exact ⟨sketch, last, hextracts, hsteps, hflat, hreads.read⟩

/-- A word that is a literal or a parameter is an operand. -/
theorem of_word (registry : Registry) (hword : Text.isWord word = true)
    (htoken : ∀ operator ∈ Grammar.standard.operatorTokens, operator.token ≠ word)
    (hleaf : Expr.ofLeaf? word = some tree) : Operand registry word tree := by
  have hnot {c : Char} (hc : Text.isWordChar c = false) : c ∉ word := by
    intro hmem
    rw [Text.isWord, Bool.and_eq_true, List.all_eq_true] at hword
    rw [hword.2 c hmem] at hc
    cases hc
  refine ⟨_, _, .plain word (hnot (by decide)), .refl, ⟨?_, ?_, ?_⟩,
    .of_word hword htoken hleaf⟩
  · exact mem_ofText.not.mpr (hnot (by decide))
  · exact mem_ofText.not.mpr (hnot (by decide))
  · exact mem_ofText.not.mpr (hnot (by decide))

/-- An operand behind the mark of a prefix operator is an operand. -/
theorem unary (h : Operand registry source tree) (op : UnaryOperator) :
    Operand registry (op.mark ++ source) (.operation (.unary op) [tree]) := by
  obtain ⟨sketch, last, hextracts, hsteps, hflat, hreads⟩ := h
  have hplain : '(' ∉ op.mark ∧ ')' ∉ op.mark ∧ ',' ∉ op.mark ∧ '"' ∉ op.mark := by
    cases op <;> decide
  have hframed := hsteps.frame (guard_mark op) []
  rw [List.append_nil, List.append_nil] at hframed
  refine ⟨_, _, (Extracts.plain op.mark hplain.2.2.2).append hextracts, hframed, ⟨?_, ?_, ?_⟩,
    hreads.unary op⟩
  · simpa [mem_ofText, hplain] using hflat.opening
  · simpa [mem_ofText, hplain] using hflat.closing
  · simpa [mem_ofText, hplain] using hflat.separator

/-- Two operands around a binary operator, in parentheses, are an operand. -/
theorem binary (h : Operand registry source left) (hother : Operand registry other right)
    {token : Text} {level : Nat} (htoken : (level, token) ∈ Grammar.standard.operators.tokens)
    {op : BinaryOperator} (hop : BinaryOperator.ofToken? token = some op) :
    Operand registry ('(' :: (source ++ ' ' :: (token ++ ' ' :: other) ++ [')']))
      (.operation (.binary op) [left, right]) := by
  obtain ⟨first, firstLast, hfirst, hfirstSteps, hfirstFlat, hfirstReads⟩ := h
  obtain ⟨second, secondLast, hsecond, hsecondSteps, hsecondFlat, hsecondReads⟩ := hother
  have hmem : token ∈ Grammar.standard.tokens :=
    List.mem_append_left _ (List.mem_map.mpr ⟨_, htoken, rfl⟩)
  obtain ⟨hopening, hclosing, hseparator, hquote⟩ := plain_of_token hmem
  have hoperator : ⟨token, some level⟩ ∈ Grammar.standard.operatorTokens :=
    List.mem_append_left _ (List.mem_map.mpr ⟨_, htoken, rfl⟩)
  have hwhole := hfirst.append ((Extracts.plain [' '] (by decide)).append
    ((Extracts.plain token hquote).append ((Extracts.plain [' '] (by decide)).append hsecond)))
  -- The left operand is rewritten at the start, the right one behind the operator.
  obtain ⟨stem, name, hhead, hname⟩ := head_token hmem (firstLast ++ [.char ' '])
    (by simp [isWordChar_space])
  have hguard : Guard (firstLast ++ [.char ' '] ++ (ofText token ++ [.char ' '])) := by
    refine ⟨⟨stem, name, hhead, hname⟩, by simp [← List.append_assoc, isWordChar_space], ?_⟩
    simpa [mem_ofText] using ⟨hfirstFlat.closing, hclosing⟩
  have hleft := hfirstSteps.frame guard_nil (.char ' ' :: (ofText token ++ .char ' ' :: second))
  have hright := hsecondSteps.frame hguard []
  have hsteps : Steps registry (first ++ .char ' ' :: (ofText token ++ .char ' ' :: second))
      (firstLast ++ .char ' ' :: (ofText token ++ .char ' ' :: secondLast)) :=
    hleft.trans (by simpa using hright)
  have hderives : Derives registry (source ++ ' ' :: (token ++ ' ' :: other))
      (.operation (.binary op) [left, right]) := by
    refine ⟨_, _, hwhole, hsteps, ⟨?_, ?_, ?_⟩, hfirstReads.binary hsecondReads hoperator hop⟩
    · simpa [mem_ofText] using ⟨hfirstFlat.opening, hopening, hsecondFlat.opening⟩
    · simpa [mem_ofText] using ⟨hfirstFlat.closing, hclosing, hsecondFlat.closing⟩
    · simpa [mem_ofText] using ⟨hfirstFlat.separator, hseparator, hsecondFlat.separator⟩
  exact hderives.becomes_group.operand

end Operand

end Sketch

end Reckon
