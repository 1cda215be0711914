import Reckon.Proofs.Expr.Leaves
import Reckon.Proofs.Expr.Precedence
import Reckon.Proofs.Expr.Stacks
import Reckon.Proofs.Grammar.Checked
import Reckon.Proofs.Source.Lexing

/-!
# Flat expressions are read as their ordered trees

The reader keeps a stack of operators that wait for their right operands. What carries the proof is
the tree that closing all of them would give: it is ordered at any time, and what is read next only
makes it longer. `Expr.ofFlat_iff_ordered` says what the reader accepts, what it builds and how it
fails.
-/

namespace Reckon

/-- The error says that an operator lacks an operand on the stack, or that what is left on it is not
one tree. -/
inductive CompileError.IsUnbalanced : CompileError → Prop where
  | missingOperand (operator : Text) : IsUnbalanced (.malformed (.missingOperand operator))
  | malformedExpression (text : Text) : IsUnbalanced (.malformed (.malformedExpression text))

namespace Grammar

variable {grammar : Grammar}

/-- The level of an operator of a text is that of its token. -/
theorem mem_tokens_of_level {text : Text} {occurrence : Occurrence} {level : Nat}
    (h : occurrence ∈ grammar.occurrences text) (hlevel : occurrence.level = some level) :
    (level, occurrence.token) ∈ grammar.operators.tokens := by
  obtain ⟨hmem, -, -⟩ := mem_found (mem_found_of_mem h)
  unfold operatorTokens at hmem
  rw [List.mem_append, hlevel] at hmem
  rcases hmem with hmem | hmem
  · obtain ⟨⟨other, token⟩, hentry, hsame⟩ := List.mem_map.mp hmem
    cases hsame
    exact hentry
  · obtain ⟨token, -, hsame⟩ := List.mem_map.mp hmem
    cases hsame

end Grammar

/-- The operators among the pieces of a text are those that were given. -/
theorem Piece.mem_of_operator {text : Text} {place : Nat} {occurrences : List Occurrence}
    {occurrence : Occurrence} (h : .operator occurrence ∈ ofOccurrences text place occurrences) :
    occurrence ∈ occurrences := by
  have hoperands (text : Text) : .operator occurrence ∉ operands text := by
    unfold operands
    dsimp only
    split <;> simp
  induction occurrences generalizing place with
  | nil => exact absurd h (hoperands _)
  | cons first rest ih =>
      rcases List.mem_append.mp h with h | h
      · exact absurd h (hoperands _)
      · rcases List.mem_cons.mp h with h | h
        · cases h
          exact .head _
        · exact .tail _ (ih h)

namespace FlatTree

/-- The tree has the operators that the grammar reads, in order. -/
structure Sound (tree : FlatTree) (grammar : Grammar) : Prop where
  valid : tree.Valid grammar
  ordered : tree.Ordered grammar.precedence

/-- The second tree stands over a chain that begins like that of the first one and goes on with
further terms. -/
structure Extends (tree : FlatTree) (links : List (Occurrence × Term)) (leaves : List Expr)
    (longer : FlatTree) : Prop where
  first : longer.first = tree.first
  rest : longer.rest = tree.rest ++ links
  leaves : longer.leaves = tree.leaves ++ leaves

theorem Extends.trans {a b c : FlatTree} {links others : List (Occurrence × Term)}
    {leaves images : List Expr} (hab : a.Extends links leaves b) (hbc : b.Extends others images c) :
    a.Extends (links ++ others) (leaves ++ images) c where
  first := hbc.first.trans hab.first
  rest := by rw [hbc.rest, hab.rest, List.append_assoc]
  leaves := by rw [hbc.leaves, hab.leaves, List.append_assoc]

end FlatTree

/-- A binary operator that waits for its right operand, with the tree of its left one. -/
structure Waiting where
  left : FlatTree
  occurrence : Occurrence
  operator : BinaryOperator
  level : Nat

namespace Waiting

variable {grammar : Grammar}

/-- The operator without the places of what was read. -/
def pending (entry : Waiting) : Pending :=
  ⟨entry.left.toExpr, entry.operator, entry.level⟩

/-- The operator takes a tree as its right operand. -/
def close (entry : Waiting) (right : FlatTree) : FlatTree :=
  .binary entry.occurrence entry.operator entry.level entry.left right

/-- All operators take their right operands, the last one a given tree. -/
def closeAll (waiting : List Waiting) (tree : FlatTree) : FlatTree :=
  waiting.foldl (fun right entry => entry.close right) tree

theorem toExpr_closeAll (waiting : List Waiting) (tree : FlatTree) :
    (waiting.map pending).foldl (fun right entry => entry.close right) tree.toExpr =
      (closeAll waiting tree).toExpr := by
  induction waiting generalizing tree with
  | nil => rfl
  | cons entry waiting ih => exact ih (entry.close tree)

/-- If closing gives an ordered tree, then what is closed is one, and fits behind the operator that
takes it. -/
theorem sound_of_closeAll (waiting : List Waiting) (tree : FlatTree)
    (h : (closeAll waiting tree).Sound grammar) :
    tree.Sound grammar ∧
      ∀ entry ∈ waiting.head?, tree.FitsRight grammar.precedence entry.level := by
  induction waiting generalizing tree with
  | nil => exact ⟨h, nofun⟩
  | cons entry waiting ih =>
      obtain ⟨⟨⟨-, -, hvalid⟩, ⟨-, hfits, -, hordered⟩⟩, -⟩ := ih (entry.close tree) h
      refine ⟨⟨hvalid, hordered⟩, ?_⟩
      rintro _ ⟨⟩
      exact hfits

/-- In an ordered tree, what is closed last may be replaced by another tree that fits there. -/
theorem sound_closeAll (waiting : List Waiting) (tree other : FlatTree)
    (h : (closeAll waiting tree).Sound grammar) (hother : other.Sound grammar)
    (hfits : ∀ entry ∈ waiting.head?, other.FitsRight grammar.precedence entry.level) :
    (closeAll waiting other).Sound grammar := by
  induction waiting generalizing tree other with
  | nil => exact hother
  | cons entry waiting ih =>
      obtain ⟨⟨hvalid, hordered⟩, hclosed⟩ := sound_of_closeAll waiting (entry.close tree) h
      refine ih (entry.close tree) (entry.close other) h ⟨?_, ?_⟩ hclosed
      · exact ⟨hvalid.1, hvalid.2.1, hother.valid⟩
      · exact ⟨hordered.1, hfits entry rfl, hordered.2.2.1, hother.ordered⟩

/-- What extends the tree that is closed last extends the whole. -/
theorem extends_closeAll {links : List (Occurrence × Term)} {leaves : List Expr}
    (waiting : List Waiting) (tree other : FlatTree) (h : tree.Extends links leaves other) :
    (closeAll waiting tree).Extends links leaves (closeAll waiting other) := by
  induction waiting generalizing tree other with
  | nil => exact h
  | cons entry waiting ih =>
      refine ih (entry.close tree) (entry.close other) ⟨rfl, ?_, ?_⟩
      · simp [close, FlatTree.rest, h.first, h.rest]
      · simp [close, FlatTree.leaves, h.leaves]

/-- The operators that are complete before another one are closed: what they give fits left of it,
and it fits right of the operators that still wait. -/
theorem exists_closeWhile {precedence : Precedence} {operator : BinaryOperator} {level : Nat}
    (waiting : List Waiting) (tree : FlatTree) (h : tree.FitsLeft precedence operator level) :
    ∃ others left, Pending.closeWhile precedence operator level (waiting.map pending) tree.toExpr =
        (others.map pending, left.toExpr) ∧
      closeAll others left = closeAll waiting tree ∧ left.FitsLeft precedence operator level ∧
      ∀ entry ∈ others.head?, precedence.bindsLooser entry.level level = true ∨
        level = entry.level ∧ operator.isRightAssociative = true := by
  induction waiting generalizing tree with
  | nil => exact ⟨[], tree, rfl, rfl, h, nofun⟩
  | cons entry waiting ih =>
      rw [List.map_cons, Pending.closeWhile]
      cases hcloses : Stacks.closesBefore precedence operator level entry.pending.level with
      | true =>
          rw [Stacks.closesBefore, Bool.or_eq_true, Bool.and_eq_true, beq_iff_eq,
            Bool.not_eq_true'] at hcloses
          obtain ⟨others, left, hclose, hsame, hfits, htop⟩ := ih (entry.close tree) hcloses
          exact ⟨others, left, hclose, hsame, hfits, htop⟩
      | false =>
          refine ⟨entry :: waiting, tree, rfl, rfl, h, ?_⟩
          rintro _ ⟨⟩
          rw [Stacks.closesBefore, Bool.or_eq_false_iff, Bool.and_eq_false_iff,
            beq_eq_false_iff_ne, Bool.not_eq_false'] at hcloses
          by_cases hlevel : level = entry.level
          · refine .inr ⟨hlevel, hcloses.2.resolve_left fun hne => hne hlevel.symm⟩
          · exact .inl (Precedence.bindsLooser_total hcloses.1 hlevel)

end Waiting

namespace Expr

variable {grammar : Grammar} {leaf : Text → Building Expr}

theorem toExpr_term (prefixes : List (Occurrence × UnaryOperator)) (operand : Text) (tree : Expr) :
    (FlatTree.term prefixes operand tree).toExpr =
      applyPrefixes (prefixes.reverse.map (·.2)) tree := by
  rw [FlatTree.toExpr, applyPrefixes, List.map_reverse, List.foldl_reverse, List.foldr_map]

/-- A term is read as its operand with the operators in front of it. -/
theorem readOperand_term {prefixes : List (Occurrence × UnaryOperator)}
    (hprefixes : ∀ entry ∈ prefixes, asPrefix? grammar entry.1.token = some entry.2)
    (pending : List Pending) (before : List UnaryOperator) (last : Option Text) (operand : Text)
    (rest : List Piece) :
    readOperand grammar leaf pending before last
        (prefixes.map (.operator ·.1) ++ .operand operand :: rest) =
      leaf operand >>= fun tree => readOperator grammar leaf pending
        (applyPrefixes (prefixes.reverse.map (·.2) ++ before) tree) rest := by
  induction prefixes generalizing before last with
  | nil => rfl
  | cons entry prefixes ih =>
      rw [List.forall_mem_cons] at hprefixes
      rw [List.map_cons, List.cons_append, readOperand, hprefixes.1]
      simp only [ih hprefixes.2, List.reverse_cons, List.map_append, List.map_cons, List.map_nil,
        List.append_assoc, List.cons_append, List.nil_append]

/-- Where an operand has to come, either a term begins or reading fails. -/
theorem exists_term {pieces : List Piece} {pending : List Pending} {before : List UnaryOperator}
    {last : Option Text} {constants : ConstantTable} {result : Expr × ConstantTable}
    (h : readOperand grammar leaf pending before last pieces constants = .ok result) :
    ∃ (prefixes : List (Occurrence × UnaryOperator)) (operand : Text) (rest : List Piece),
      (∀ entry ∈ prefixes, asPrefix? grammar entry.1.token = some entry.2) ∧
      pieces = prefixes.map (.operator ·.1) ++ .operand operand :: rest := by
  induction pieces generalizing before last with
  | nil =>
      unfold readOperand at h
      cases last <;> cases h
  | cons piece pieces ih =>
      cases piece with
      | operand text => exact ⟨[], text, pieces, List.forall_mem_nil _, rfl⟩
      | operator occurrence =>
          unfold readOperand at h
          cases hoperator : asPrefix? grammar occurrence.token with
          | none =>
              rw [hoperator] at h
              cases h
          | some operator =>
              rw [hoperator] at h
              obtain ⟨prefixes, operand, rest, hprefixes, rfl⟩ := ih h
              refine ⟨(occurrence, operator) :: prefixes, operand, rest, ?_, rfl⟩
              exact List.forall_mem_cons.mpr ⟨hoperator, hprefixes⟩

/-- A successful reading from behind an operand makes the tree longer by the terms that were read,
and keeps it ordered. -/
theorem readOperator_sound {pieces : List Piece} {waiting : List Waiting} {tree : FlatTree}
    (hterm : ∀ operator level, tree.FitsLeft grammar.precedence operator level)
    (hsound : (Waiting.closeAll waiting tree).Sound grammar) {constants learned : ConstantTable}
    {result : Expr}
    (h : readOperator grammar leaf (waiting.map Waiting.pending) tree.toExpr pieces constants =
      .ok (result, learned)) :
    ∃ longer links leaves, pieces = Chain.piecesOf links ∧
      (links.map (·.2.operand)).mapM leaf constants = .ok (leaves, learned) ∧
      (Waiting.closeAll waiting tree).Extends links leaves longer ∧ longer.Sound grammar ∧
      longer.toExpr = result := by
  -- What is left to read gets shorter by a term, which takes several pieces.
  induction hcount : pieces.length using Nat.strongRecOn generalizing pieces waiting tree constants
  next count ih =>
  cases pieces with
  | nil =>
      cases h
      refine ⟨Waiting.closeAll waiting tree, [], [], rfl, rfl, ⟨rfl, ?_, ?_⟩, hsound, ?_⟩
      · rw [List.append_nil]
      · rw [List.append_nil]
      · exact (Waiting.toExpr_closeAll waiting tree).symm
  | cons piece pieces =>
      cases piece with
      | operand text => cases h
      | operator occurrence =>
          unfold readOperator at h
          cases hbinary : asBinary? occurrence with
          | none =>
              rw [hbinary] at h
              cases h
          | some entry =>
              obtain ⟨operator, level⟩ := entry
              obtain ⟨others, left, hclose, hsame, hleft, htop⟩ :=
                Waiting.exists_closeWhile waiting tree (hterm operator level)
              simp only [hbinary, hclose] at h
              obtain ⟨prefixes, operand, rest, hprefixes, rfl⟩ := exists_term h
              rw [readOperand_term hprefixes, List.append_nil] at h
              obtain ⟨image, known, himage, h⟩ := bindState_eq_ok.mp h
              rw [← toExpr_term prefixes operand image] at h
              -- The operator waits for the term that was read.
              let entry : Waiting := ⟨left, occurrence, operator, level⟩
              let term := FlatTree.term prefixes operand image
              have hopen : (Waiting.closeAll others left).Sound grammar := hsame ▸ hsound
              have hleftSound := (Waiting.sound_of_closeAll others left hopen).1
              have hnode : (entry.close term).Sound grammar :=
                ⟨⟨hbinary, hleftSound.valid, hprefixes⟩,
                  ⟨hleft, trivial, hleftSound.ordered, trivial⟩⟩
              have hnext : (Waiting.closeAll others (entry.close term)).Sound grammar :=
                Waiting.sound_closeAll others left (entry.close term) hopen hnode htop
              have hlonger : left.Extends [(occurrence, ⟨prefixes.map (·.1), operand⟩)] [image]
                  (entry.close term) := ⟨rfl, rfl, rfl⟩
              obtain ⟨longer, links, leaves, hpieces, hleaves, hextends, hresult, htree⟩ :=
                @ih rest.length (by simp at hcount; omega) rest (entry :: others) term
                  (fun _ _ => trivial) hnext known h rfl
              refine ⟨longer, (occurrence, ⟨prefixes.map (·.1), operand⟩) :: links, image :: leaves,
                ?_, ?_, ?_, hresult, htree⟩
              · rw [hpieces]
                simp [Chain.piecesOf, Term.pieces, Function.comp_def]
              · rw [List.map_cons, List.mapM_cons]
                exact bindState_eq_ok.mpr ⟨image, known, himage,
                  bindState_eq_ok.mpr ⟨leaves, learned, hleaves, rfl⟩⟩
              · rw [← hsame]
                exact (Waiting.extends_closeAll others left _ hlonger).trans hextends

/-- A successful reading builds an ordered tree over all pieces, and builds its leaves in order. -/
theorem readOperand_sound {pieces : List Piece} {constants learned : ConstantTable} {result : Expr}
    (h : readOperand grammar leaf [] [] none pieces constants = .ok (result, learned)) :
    ∃ tree : FlatTree, tree.pieces = pieces ∧ tree.Sound grammar ∧
      tree.operands.mapM leaf constants = .ok (tree.leaves, learned) ∧ tree.toExpr = result := by
  obtain ⟨prefixes, operand, rest, hprefixes, rfl⟩ := exists_term h
  rw [readOperand_term hprefixes, List.append_nil] at h
  obtain ⟨image, known, himage, h⟩ := bindState_eq_ok.mp h
  rw [← toExpr_term prefixes operand image] at h
  have hterm : (Waiting.closeAll [] (.term prefixes operand image)).Sound grammar :=
    ⟨hprefixes, trivial⟩
  have hfits (operator : BinaryOperator) (level : Nat) :
      (FlatTree.term prefixes operand image).FitsLeft grammar.precedence operator level := trivial
  obtain ⟨tree, links, leaves, rfl, hleaves, hextends, hsound, htree⟩ :=
    readOperator_sound hfits hterm h
  refine ⟨tree, ?_, hsound, ?_, htree⟩
  · rw [← FlatTree.pieces_chain, Chain.pieces, FlatTree.chain, hextends.first, hextends.rest]
    simp [Waiting.closeAll, FlatTree.first, FlatTree.rest, Term.pieces, Function.comp_def]
  · have hoperands : tree.operands = operand :: links.map (·.2.operand) := by
      rw [← FlatTree.operands_chain, Chain.operands, FlatTree.chain, hextends.first, hextends.rest]
      rfl
    rw [hoperands, hextends.leaves, List.mapM_cons]
    exact bindState_eq_ok.mpr ⟨image, known, himage,
      bindState_eq_ok.mpr ⟨leaves, learned, hleaves, rfl⟩⟩

/-- Operators that the grammar reads in front of an operand stand for prefix operators. -/
theorem exists_prefixes {occurrences : List Occurrence}
    (h : ∀ occurrence ∈ occurrences, ∃ operator,
      asPrefix? grammar occurrence.token = some operator) :
    ∃ prefixes : List (Occurrence × UnaryOperator), prefixes.map (·.1) = occurrences ∧
      ∀ entry ∈ prefixes, asPrefix? grammar entry.1.token = some entry.2 := by
  induction occurrences with
  | nil => exact ⟨[], rfl, nofun⟩
  | cons occurrence occurrences ih =>
      rw [List.forall_mem_cons] at h
      obtain ⟨operator, hoperator⟩ := h.1
      obtain ⟨prefixes, hsame, hprefixes⟩ := ih h.2
      refine ⟨(occurrence, operator) :: prefixes, ?_, ?_⟩
      · rw [List.map_cons, hsame]
      · exact List.forall_mem_cons.mpr ⟨hoperator, hprefixes⟩

/-- A term whose operators the grammar reads, and whose operand is a leaf, is read. -/
theorem readOperand_pieces {term : Term} (hprefixes : ∀ occurrence ∈ term.prefixes, ∃ operator,
      asPrefix? grammar occurrence.token = some operator)
    {constants known : ConstantTable} {image : Expr}
    (himage : leaf term.operand constants = .ok (image, known)) (pending : List Pending)
    (last : Option Text) (rest : List Piece) :
    ∃ operand, readOperand grammar leaf pending [] last (term.pieces ++ rest) constants =
      readOperator grammar leaf pending operand rest known := by
  obtain ⟨occurrences, text⟩ := term
  obtain ⟨prefixes, rfl, hall⟩ := exists_prefixes hprefixes
  refine ⟨applyPrefixes (prefixes.reverse.map (·.2) ++ []) image, ?_⟩
  have hpieces : (Term.mk (prefixes.map (·.1)) text).pieces ++ rest =
      prefixes.map (.operator ·.1) ++ .operand text :: rest := by
    simp [Term.pieces, Function.comp_def]
  rw [hpieces, readOperand_term hall]
  show (leaf text constants >>= _) = _
  rw [himage]
  rfl

/-- Further terms whose operators the grammar reads, and whose operands are leaves, are read. -/
theorem exists_readOperator {links : List (Occurrence × Term)}
    (hprefixes : ∀ link ∈ links, ∀ occurrence ∈ link.2.prefixes, ∃ operator,
      asPrefix? grammar occurrence.token = some operator)
    (hbinary : ∀ link ∈ links, ∃ entry, asBinary? link.1 = some entry)
    {constants : ConstantTable} {built : List Expr × ConstantTable}
    (h : (links.map (·.2.operand)).mapM leaf constants = .ok built) (pending : List Pending)
    (operand : Expr) :
    ∃ result, readOperator grammar leaf pending operand (Chain.piecesOf links) constants =
      .ok result := by
  induction links generalizing pending operand constants built with
  | nil => exact ⟨_, rfl⟩
  | cons link links ih =>
      rw [List.forall_mem_cons] at hprefixes hbinary
      rw [List.map_cons, List.mapM_cons] at h
      obtain ⟨image, known, himage, h⟩ := bindState_eq_ok.mp h
      obtain ⟨images, learned, himages, -⟩ := bindState_eq_ok.mp h
      obtain ⟨⟨operator, level⟩, hoperator⟩ := hbinary.1
      have hpieces : Chain.piecesOf (link :: links) =
          .operator link.1 :: (link.2.pieces ++ Chain.piecesOf links) := rfl
      rw [hpieces, readOperator, hoperator]
      dsimp only
      obtain ⟨next, hnext⟩ := readOperand_pieces hprefixes.1 himage
        (⟨(Pending.closeWhile grammar.precedence operator level pending operand).2, operator,
          level⟩ :: (Pending.closeWhile grammar.precedence operator level pending operand).1)
        (some link.1.token) (Chain.piecesOf links)
      rw [hnext]
      exact ih hprefixes.2 hbinary.2 himages _ next

/-- A chain whose operators the grammar reads, and whose operands are leaves, is read. -/
theorem exists_readOperand {chain : Chain}
    (hprefixes : ∀ term ∈ chain.first :: chain.rest.map (·.2), ∀ occurrence ∈ term.prefixes,
      ∃ operator, asPrefix? grammar occurrence.token = some operator)
    (hbinary : ∀ link ∈ chain.rest, ∃ entry, asBinary? link.1 = some entry)
    {constants : ConstantTable} {built : List Expr × ConstantTable}
    (h : chain.operands.mapM leaf constants = .ok built) :
    ∃ result, readOperand grammar leaf [] [] none chain.pieces constants = .ok result := by
  rw [List.forall_mem_cons] at hprefixes
  rw [Chain.operands, List.mapM_cons] at h
  obtain ⟨image, known, himage, h⟩ := bindState_eq_ok.mp h
  obtain ⟨images, learned, himages, -⟩ := bindState_eq_ok.mp h
  obtain ⟨operand, hfirst⟩ := readOperand_pieces hprefixes.1 himage [] none
    (Chain.piecesOf chain.rest)
  rw [Chain.pieces, hfirst]
  exact exists_readOperator
    (fun link hlink => hprefixes.2 link.2 (List.mem_map_of_mem hlink)) hbinary himages [] operand

/-- How a flat expression may fail: by the fault of an operand, or because an operand or an operator
is missing. -/
inductive FlatFault (leaf : Text → Building Expr) (pieces : List Piece) : CompileError → Prop where
  | leaf {operand : Text} {constants : ConstantTable} {fault : CompileError}
      (hmem : .operand operand ∈ pieces) (h : leaf operand constants = .error fault) :
      FlatFault leaf pieces fault
  | emptyExpression (h : pieces = []) : FlatFault leaf pieces (.malformed .emptyExpression)
  | missingOperator {operand : Text} (h : .operand operand ∈ pieces) :
      FlatFault leaf pieces (.malformed (.missingOperator operand))
  | missingLeftOperand {occurrence : Occurrence} (h : .operator occurrence ∈ pieces) :
      FlatFault leaf pieces (.malformed (.missingLeftOperand occurrence.token))
  | missingRightOperand {occurrence : Occurrence} (h : .operator occurrence ∈ pieces) :
      FlatFault leaf pieces (.malformed (.missingRightOperand occurrence.token))
  | cannotFollowOperand {occurrence : Occurrence} (h : .operator occurrence ∈ pieces) :
      FlatFault leaf pieces (.malformed (.cannotFollowOperand occurrence.token))

/-- Reading the rest of the pieces fails as a flat expression may. -/
theorem flatFault_of_read {pieces rest : List Piece} (hmem : ∀ piece ∈ rest, piece ∈ pieces)
    {fault : CompileError} :
    (∀ pending before last constants, (last = none → rest = pieces) →
      (∀ token, last = some token → ∃ occurrence, .operator occurrence ∈ pieces ∧
        occurrence.token = token) →
      readOperand grammar leaf pending before last rest constants = .error fault →
      FlatFault leaf pieces fault) ∧
    ∀ pending operand constants,
      readOperator grammar leaf pending operand rest constants = .error fault →
      FlatFault leaf pieces fault := by
  -- Each way of reading on calls the other, so both are shown in one induction.
  induction rest with
  | nil =>
      refine ⟨fun pending before last constants hnone hlast h => ?_, fun _ _ _ h => by cases h⟩
      cases last with
      | none =>
          cases h
          exact .emptyExpression (hnone rfl).symm
      | some token =>
          obtain ⟨occurrence, hoccurrence, rfl⟩ := hlast token rfl
          cases h
          exact .missingRightOperand hoccurrence
  | cons piece rest ih =>
      rw [List.forall_mem_cons] at hmem
      obtain ⟨hoperand, hoperator⟩ := ih hmem.2
      cases piece with
      | operand text =>
          constructor
          · intro pending before last constants _ _ h
            unfold readOperand at h
            rcases bind_eq_error.mp h with himage | ⟨⟨image, learned⟩, -, h⟩
            · exact .leaf hmem.1 himage
            · exact hoperator pending (applyPrefixes before image) learned h
          · intro pending operand constants h
            cases h
            exact .missingOperator hmem.1
      | operator occurrence =>
          constructor
          · intro pending before last constants _ _ h
            unfold readOperand at h
            cases hfront : asPrefix? grammar occurrence.token with
            | none =>
                rw [hfront] at h
                cases h
                exact .missingLeftOperand hmem.1
            | some operator =>
                rw [hfront] at h
                refine hoperand pending _ (some occurrence.token) constants
                  (fun hnone => absurd hnone (Option.some_ne_none _)) ?_ h
                rintro _ ⟨⟩
                exact ⟨occurrence, hmem.1, rfl⟩
          · intro pending operand constants h
            unfold readOperator at h
            cases hbinary : asBinary? occurrence with
            | none =>
                rw [hbinary] at h
                cases h
                exact .cannotFollowOperand hmem.1
            | some entry =>
                rw [hbinary] at h
                refine hoperand _ _ (some occurrence.token) constants
                  (fun hnone => absurd hnone (Option.some_ne_none _)) ?_ h
                rintro _ ⟨⟩
                exact ⟨occurrence, hmem.1, rfl⟩

/-- A flat expression fails as it may. -/
theorem flatFault_of_ofFlat {text : Text} {constants : ConstantTable} {fault : CompileError}
    (h : ofFlat grammar leaf text constants = .error fault) :
    FlatFault leaf (Piece.ofOccurrences text 0 (grammar.occurrences text)) fault := by
  rw [ofFlat_eq_readOperand] at h
  exact (flatFault_of_read fun piece hpiece => hpiece).1 [] [] none constants (fun _ => rfl) nofun h

/-- With the leaves of a source, the stacks of a flat expression fit its operators. -/
theorem not_isUnbalanced_ofFlat {symbols : SymbolTable} {trees : List Expr} {text : Text}
    {constants : ConstantTable} {fault : CompileError}
    (h : ofFlat grammar (ofOperand symbols trees) text constants = .error fault) :
    ¬ fault.IsUnbalanced := by
  cases flatFault_of_ofFlat h with
  | leaf hmem hleaf =>
      cases operandFault_of_eq_error hleaf with
      | literal hliteral => cases hliteral <;> nofun
      | usedBeforeDefined | unrecognized => nofun
  | emptyExpression | missingOperator | missingLeftOperand | missingRightOperand
  | cannotFollowOperand => nofun

theorem mem_pieces_of_link {chain : Chain} {link : Occurrence × Term} (h : link ∈ chain.rest) :
    .operator link.1 ∈ chain.pieces := by
  rw [Chain.pieces, Chain.piecesOf, List.mem_append, List.mem_flatMap]
  exact .inr ⟨link, h, .head _⟩

/-- The chain of a tree is admitted, if the operators of the tree are those that the grammar reads.
-/
theorem admitted_of_valid {tree : FlatTree} (h : tree.Valid grammar) :
    tree.chain.Admitted grammar := by
  have hfront {occurrence : Occurrence} {operator : UnaryOperator}
      (h : asPrefix? grammar occurrence.token = some operator) :
      grammar.isPrefixToken occurrence.token = true :=
    (Option.ite_none_right_eq_some.mp h).1
  have hlevel {occurrence : Occurrence} {entry : BinaryOperator × Nat}
      (h : asBinary? occurrence = some entry) : occurrence.level.isSome = true := by
    unfold asBinary? at h
    cases hlevel : occurrence.level with
    | none =>
        rw [hlevel] at h
        cases h
    | some level => rfl
  constructor
  · induction tree with
    | term prefixes operand leaf =>
        intro term hterm occurrence hoccurrence
        obtain rfl := List.mem_singleton.mp hterm
        obtain ⟨entry, hentry, rfl⟩ := List.mem_map.mp hoccurrence
        exact hfront (h entry hentry)
    | binary occurrence operator level left right ihLeft ihRight =>
        intro term hterm
        have hsplit : term ∈ left.first :: left.rest.map (·.2) ∨
            term ∈ right.first :: right.rest.map (·.2) := by
          simpa [FlatTree.chain, FlatTree.first, FlatTree.rest, or_assoc] using hterm
        exact hsplit.elim (ihLeft h.2.1 term) (ihRight h.2.2 term)
  · induction tree with
    | term prefixes operand leaf =>
        intro link hlink
        cases hlink
    | binary occurrence operator level left right ihLeft ihRight =>
        intro link hlink
        rcases List.mem_append.mp hlink with hlink | hlink
        · exact ihLeft h.2.1 link hlink
        · rcases List.mem_cons.mp hlink with rfl | hlink
          · exact hlevel h.1
          · exact ihRight h.2.2 link hlink

/-- In a grammar that can be compiled against, a text is read whose pieces are those of an admitted
chain, if the operands of the chain are leaves. -/
theorem exists_ofFlat (hgrammar : grammar.check = .ok ()) {text : Text} {constants : ConstantTable}
    {chain : Chain} (hpieces : chain.pieces = Piece.ofOccurrences text 0 (grammar.occurrences text))
    (hadmitted : chain.Admitted grammar) {built : List Expr × ConstantTable}
    (h : chain.operands.mapM leaf constants = .ok built) :
    ∃ result, ofFlat grammar leaf text constants = .ok result := by
  obtain ⟨hbinary, hunary⟩ := Grammar.operators_of_check hgrammar
  rw [ofFlat_eq_readOperand, ← hpieces]
  refine exists_readOperand (fun term hterm occurrence hoccurrence => ?_) (fun link hlink => ?_) h
  · have hfront := hadmitted.prefixes term hterm occurrence hoccurrence
    obtain ⟨operator, hoperator⟩ := Option.isSome_iff_exists.mp
      (hunary occurrence.token (List.contains_iff_mem.mp hfront))
    exact ⟨operator, by rw [asPrefix?, if_pos hfront, hoperator]⟩
  · obtain ⟨level, hlevel⟩ := Option.isSome_iff_exists.mp (hadmitted.levels link hlink)
    have hmem : link.1 ∈ grammar.occurrences text :=
      Piece.mem_of_operator (hpieces ▸ mem_pieces_of_link hlink)
    obtain ⟨operator, hoperator⟩ := Option.isSome_iff_exists.mp
      (hbinary _ (Grammar.mem_tokens_of_level hmem hlevel))
    exact ⟨(operator, level), by rw [asBinary?, hlevel, hoperator]⟩

/-- The precedence parser accepts exactly its grammar and builds exactly the precedence tree. In a
grammar that can be compiled against, a flat expression is read if and only if its pieces are a
chain of terms in which every operator in front of an operand is a prefix and every operator behind
one has a level, and all operands are leaves. What is built then is the one ordered tree over these
pieces and leaves. It fails only by the fault of an operand, or at an operand or an operator that is
missing; with the leaves of a source, no operator ever lacks an operand on the stack, and what is
left there at the end is one tree. -/
theorem ofFlat_iff_ordered (hgrammar : grammar.check = .ok ()) (leaf : Text → Building Expr)
    (text : Text) (constants : ConstantTable) :
    let pieces := Piece.ofOccurrences text 0 (grammar.occurrences text)
    ((∃ result, ofFlat grammar leaf text constants = .ok result) ↔
      ∃ chain : Chain, chain.pieces = pieces ∧ chain.Admitted grammar ∧
        ∃ built, chain.operands.mapM leaf constants = .ok built) ∧
    (∀ result learned, ofFlat grammar leaf text constants = .ok (result, learned) ↔
      ∃ tree : FlatTree, tree.pieces = pieces ∧ tree.Valid grammar ∧
        tree.Ordered grammar.precedence ∧
        tree.operands.mapM leaf constants = .ok (tree.leaves, learned) ∧ tree.toExpr = result) ∧
    (∀ fault, ofFlat grammar leaf text constants = .error fault → FlatFault leaf pieces fault) ∧
    ∀ symbols trees fault, ofFlat grammar (ofOperand symbols trees) text constants = .error fault →
      ¬ fault.IsUnbalanced := by
  intro pieces
  have hsound {result : Expr} {learned : ConstantTable}
      (h : ofFlat grammar leaf text constants = .ok (result, learned)) :
      ∃ tree : FlatTree, tree.pieces = pieces ∧ tree.Sound grammar ∧
        tree.operands.mapM leaf constants = .ok (tree.leaves, learned) ∧ tree.toExpr = result :=
    readOperand_sound (ofFlat_eq_readOperand grammar leaf text ▸ h)
  refine ⟨⟨?_, ?_⟩, fun result learned => ⟨?_, ?_⟩, ?_, ?_⟩
  · rintro ⟨⟨result, learned⟩, h⟩
    obtain ⟨tree, htree, hordered, hleaves, -⟩ := hsound h
    refine ⟨tree.chain, ?_, admitted_of_valid hordered.valid, (tree.leaves, learned), ?_⟩
    · rw [tree.pieces_chain, htree]
    · rw [tree.operands_chain, hleaves]
  · rintro ⟨chain, hpieces, hadmitted, built, h⟩
    exact exists_ofFlat hgrammar hpieces hadmitted h
  · intro h
    obtain ⟨tree, htree, hordered, hleaves, hresult⟩ := hsound h
    exact ⟨tree, htree, hordered.valid, hordered.ordered, hleaves, hresult⟩
  · rintro ⟨tree, htree, hvalid, hordered, hleaves, rfl⟩
    obtain ⟨⟨result, known⟩, h⟩ := exists_ofFlat hgrammar (tree.pieces_chain.trans htree)
      (admitted_of_valid hvalid) (tree.operands_chain.symm ▸ hleaves)
    obtain ⟨other, hother, hsame, hothers, rfl⟩ := hsound h
    -- Both trees stand over the same pieces, so over the same chain.
    have hchain : other.chain = tree.chain :=
      Chain.pieces_inj (by rw [other.pieces_chain, tree.pieces_chain, hother, htree])
    rw [← other.operands_chain, hchain, tree.operands_chain, hleaves] at hothers
    obtain ⟨hleavesSame, rfl⟩ := Prod.mk.inj (Except.ok.inj hothers)
    rw [h, FlatTree.eq_of_ordered hsame.valid hvalid hsame.ordered hordered hchain
      hleavesSame.symm]
  · intro fault h
    exact flatFault_of_ofFlat h
  · intro symbols trees fault h
    exact not_isUnbalanced_ofFlat h

/-- Both differences of `x - y - z` stand on one level, so the left one is taken first. -/
theorem ofFlat_iff_ordered_difference :
    let leaf : Text → Building Expr := fun text => return parameter (String.ofList text)
    let pieces : List Piece := [.operand ['x'], .operator ⟨some 2, 1, ['-']⟩, .operand ['y'],
      .operator ⟨some 2, 3, ['-']⟩, .operand ['z']]
    let difference := operation (.binary .sub)
      [operation (.binary .sub) [parameter "x", parameter "y"], parameter "z"]
    Grammar.standard.check = .ok () ∧
      ofFlat Grammar.standard leaf ['x', '-', 'y', '-', 'z'] (.empty ['"'] []) =
        .ok (difference, .empty ['"'] []) ∧
      ∃ tree : FlatTree, tree.pieces = pieces ∧ tree.Ordered Grammar.standard.precedence ∧
        tree.toExpr = difference := by
  intro leaf pieces difference
  have hgrammar : Grammar.standard.check = .ok () := rfl
  have hoccurrences : Grammar.standard.occurrences ['x', '-', 'y', '-', 'z'] =
      [⟨some 2, 1, ['-']⟩, ⟨some 2, 3, ['-']⟩] := by
    have hfound : Grammar.standard.found ['x', '-', 'y', '-', 'z'] =
        [⟨some 2, 1, ['-']⟩, ⟨some 2, 3, ['-']⟩] := rfl
    rw [Grammar.occurrences_eq, Grammar.ordered, hfound, List.mergeSort_of_pairwise (by decide)]
    rfl
  have hpieces : Piece.ofOccurrences ['x', '-', 'y', '-', 'z'] 0
      (Grammar.standard.occurrences ['x', '-', 'y', '-', 'z']) = pieces := by
    rw [hoccurrences]
    rfl
  have hread : ofFlat Grammar.standard leaf ['x', '-', 'y', '-', 'z'] (.empty ['"'] []) =
      .ok (difference, .empty ['"'] []) := by
    rw [ofFlat_eq_readOperand, hpieces]
    rfl
  obtain ⟨-, hbuilt, -⟩ := ofFlat_iff_ordered hgrammar leaf ['x', '-', 'y', '-', 'z']
    (.empty ['"'] [])
  obtain ⟨tree, htree, -, hordered, -, hresult⟩ := (hbuilt _ _).mp hread
  exact ⟨hgrammar, hread, tree, htree.trans hpieces, hordered, hresult⟩

end Expr

end Reckon
