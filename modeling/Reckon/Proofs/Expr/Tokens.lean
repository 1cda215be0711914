import Reckon.Proofs.Expr.Parsing

/-!
# Operators between trees

Each token of the grammar is read as one operator wherever blanks stand around it, whatever its
characters are. So trees around a binary operator, and a tree behind a prefix operator, are read as
the operation (`read_binary`, `read_unary`), and no token is taken for a function that is called
(`head_token`).
-/

namespace Reckon

open Sketch (Head)

namespace Sketch

theorem head_nil : Head [] [] [] :=
  ⟨⟨[], rfl, rfl⟩, List.forall_mem_nil _, rfl, fun _ => rfl⟩

/-- A token does not call the group behind it. -/
theorem head_token {token : Text} (htoken : token ∈ Grammar.standard.tokens) (before : Sketch)
    (hbefore : before.getLast?.any Atom.isWordChar = false) :
    ∃ stem name, Head (before ++ (ofText token ++ [.char ' '])) stem name ∧
      isCallable name = false := by
  have hshape : ∀ token ∈ Grammar.standard.tokens,
      (token ∈ Grammar.standard.wordTokens ∧ token.all Text.isWordChar = true) ∨
        (token.getLast?.any fun c => !Text.isWordChar c && !Unicode.isBlank c) = true := by
    decide
  -- A token that is a word is no name of a function; any other token ends in a mark, and no word
  -- stands behind it.
  rcases hshape token htoken with ⟨hword, hchars⟩ | hmark
  · have hchar := List.all_eq_true.mp hchars
    refine ⟨before, token, ⟨⟨[.char ' '], rfl, by decide⟩, hchar, hbefore, ?_⟩, ?_⟩
    · rintro rfl
      exact absurd hword (by decide)
    · have hcontains : Grammar.standard.wordTokens.contains token = true := by
        simpa using hword
      rw [isCallable, hcontains, Bool.or_true]
      rfl
  · rcases List.eq_nil_or_concat token with rfl | ⟨rest, c, rfl⟩
    · cases hmark
    · rw [List.concat_eq_append, List.getLast?_concat, Option.any_some, Bool.and_eq_true,
        Bool.not_eq_true', Bool.not_eq_true'] at hmark
      have hlast : (before ++ ofText (rest.concat c)).getLast? = some (.char c) := by
        rw [List.concat_eq_append, ofText, List.map_append, ← List.append_assoc]
        exact List.getLast?_concat
      refine ⟨before ++ ofText (rest.concat c), [], ⟨⟨[.char ' '], by simp [ofText], by decide⟩,
        by simp, ?_, fun _ => ?_⟩, rfl⟩
      · rw [hlast]
        exact hmark.1
      · rw [hlast]
        exact hmark.2

/-- Characters without blanks make one run. -/
theorem itemsFrom_run {word : Text} (hword : ∀ c ∈ word, Unicode.isBlank c = false) (run : Text)
    (rest : Sketch) :
    itemsFrom Grammar.standard run (ofText word ++ rest) =
      itemsFrom Grammar.standard (run ++ word) rest := by
  induction word generalizing run with
  | nil => rw [List.append_nil]; rfl
  | cons c word ih =>
      rw [List.forall_mem_cons] at hword
      have hrest := ih hword.2 (run ++ [c])
      rw [List.append_assoc, List.singleton_append] at hrest
      rw [ofText, List.map_cons, List.cons_append, itemsFrom, if_neg (by simp [hword.1])]
      exact hrest

theorem itemsFrom_tree (tree : Expr) (rest : Sketch) :
    itemsFrom Grammar.standard [] (.char ' ' :: .tree (some tree) :: .char ' ' :: rest) =
      some (.operand tree) :: itemsFrom Grammar.standard [] rest := by
  have hblank : Unicode.isBlank ' ' = true := by decide
  simp [itemsFrom, hblank, textItems_nil]

/-- A token between blanks is read as one operator. -/
theorem itemsFrom_token {operator : OperatorToken}
    (h : operator ∈ Grammar.standard.operatorTokens) (rest : Sketch) :
    itemsFrom Grammar.standard [] (ofText operator.token ++ .char ' ' :: rest) =
      some (.operator operator.token operator.level) :: itemsFrom Grammar.standard [] rest := by
  have hplain : ∀ c ∈ operator.token, Unicode.isBlank c = false := fun c hc =>
    isBlank_of_isToken (Grammar.lexical_standard.shaped operator h) hc
  rw [itemsFrom_run hplain, List.nil_append, itemsFrom, if_pos (by decide), textItems,
    Grammar.lexemes_token Grammar.lexical_standard h]
  rfl

theorem read_tree (tree : Expr) :
    read Grammar.standard [.char ' ', .tree (some tree), .char ' '] = some tree := by
  rw [read, itemsFrom_tree, itemsFrom, textItems_nil]
  rfl

/-- A token behind a blank is read as one operator, and a tree behind it as one operand. -/
theorem itemsFrom_token_tree {operator : OperatorToken}
    (h : operator ∈ Grammar.standard.operatorTokens) (tree : Expr) :
    itemsFrom Grammar.standard []
        (ofText operator.token ++ [.char ' ', .char ' ', .tree (some tree), .char ' ']) =
      [some (.operator operator.token operator.level), some (.operand tree)] := by
  rw [itemsFrom_token h, itemsFrom_tree, itemsFrom, textItems_nil]

/-- Two trees around a binary operator are read as the operation. -/
theorem read_binary {token : Text} {level : Nat}
    (h : ⟨token, some level⟩ ∈ Grammar.standard.operatorTokens) {op : BinaryOperator}
    (hop : BinaryOperator.ofToken? token = some op) (left right : Expr) :
    read Grammar.standard (.char ' ' :: .tree (some left) :: .char ' ' :: .char ' ' ::
        (ofText token ++ [.char ' ', .char ' ', .tree (some right), .char ' '])) =
      some (.operation (.binary op) [left, right]) := by
  have htoken := itemsFrom_token_tree h right
  rw [read, itemsFrom_tree, itemsFrom_blank (by decide), htoken]
  simp [readItems, Item.read, Item.readOperand, Item.readOperator, Expr.asBinary?, hop,
    Pending.closeWhile, Expr.applyPrefixes, Pending.close]

/-- A tree behind a prefix operator is read as the operation. -/
theorem read_unary {token : Text} {level : Option Nat}
    (h : ⟨token, level⟩ ∈ Grammar.standard.operatorTokens)
    (hfront : token ∈ Grammar.standard.prefixes) {op : UnaryOperator}
    (hop : UnaryOperator.ofToken? token = some op) (tree : Expr) :
    read Grammar.standard
        (ofText token ++ [.char ' ', .char ' ', .tree (some tree), .char ' ']) =
      some (.operation (.unary op) [tree]) := by
  have htoken := itemsFrom_token_tree h tree
  have hcontains : Grammar.standard.isPrefixToken token = true := by
    simpa [Grammar.isPrefixToken] using hfront
  rw [read, htoken]
  simp [readItems, Item.read, Item.readOperand, Item.readOperator, Expr.asPrefix?, hcontains, hop,
    Expr.applyPrefixes]

theorem exists_level {token : Text} (h : token ∈ Grammar.standard.prefixes) :
    ∃ level, ⟨token, level⟩ ∈ Grammar.standard.operatorTokens := by
  have htokens : ∀ token ∈ Grammar.standard.prefixes,
      token ∈ Grammar.standard.operatorTokens.map (·.token) := by decide
  obtain ⟨operator, hoperator, rfl⟩ := List.mem_map.mp (htokens token h)
  exact ⟨operator.level, hoperator⟩

theorem plain_of_token {token : Text} (h : token ∈ Grammar.standard.tokens) :
    '(' ∉ token ∧ ')' ∉ token ∧ ',' ∉ token ∧ '"' ∉ token := by
  have hplain : ∀ token ∈ Grammar.standard.tokens,
      '(' ∉ token ∧ ')' ∉ token ∧ ',' ∉ token ∧ '"' ∉ token := by
    decide
  exact hplain token h

theorem mem_ofText {c : Char} {text : Text} : .char c ∈ ofText text ↔ c ∈ text := by
  simp [ofText]

theorem isWordChar_space : Atom.isWordChar (.char ' ') = false := by
  decide

end Sketch

end Reckon
