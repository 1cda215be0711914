import Reckon.Expr.Flat

/-!
# Trees of flat expressions

A flat expression is a chain of terms, with a binary operator between each two, and a term is an
operand with operators in front of it. `FlatTree` is a tree over such a chain that remembers where
each operator stands. It is `Ordered` when no binary operator stands above one that should have been
above it: below an operator stand tighter ones and, on its own level, those that group the way they
lean. A chain has one such tree only (`FlatTree.eq_of_ordered`).
-/

namespace Reckon

namespace Precedence

variable {precedence : Precedence} {a b c : Nat}

theorem bindsLooser_trans (hab : precedence.bindsLooser a b = true)
    (hbc : precedence.bindsLooser b c = true) : precedence.bindsLooser a c = true := by
  cases precedence <;> simp only [bindsLooser, decide_eq_true_eq] at hab hbc ⊢ <;> omega

theorem bindsLooser_asymm (hab : precedence.bindsLooser a b = true)
    (hba : precedence.bindsLooser b a = true) : False := by
  cases precedence <;> simp only [bindsLooser, decide_eq_true_eq] at hab hba <;> omega

theorem not_bindsLooser_self : precedence.bindsLooser a a ≠ true :=
  fun h => bindsLooser_asymm h h

theorem bindsLooser_total (hab : precedence.bindsLooser a b = false) (hne : a ≠ b) :
    precedence.bindsLooser b a = true := by
  cases precedence <;>
    simp only [bindsLooser, decide_eq_true_eq, decide_eq_false_iff_not] at hab ⊢ <;> omega

end Precedence

/-- An operand with the operators in front of it. -/
structure Term where
  prefixes : List Occurrence
  operand : Text

namespace Term

/-- The pieces of a term. -/
def pieces (term : Term) : List Piece :=
  term.prefixes.map .operator ++ [.operand term.operand]

/-- Pieces begin with one term at most. -/
theorem append_inj {term other : Term} {behind rest : List Piece}
    (h : term.pieces ++ behind = other.pieces ++ rest) : term = other ∧ behind = rest := by
  obtain ⟨prefixes, operand⟩ := term
  obtain ⟨others, text⟩ := other
  simp only [pieces, List.append_assoc, List.singleton_append] at h
  induction prefixes generalizing others with
  | nil =>
      cases others with
      | nil =>
          cases h
          exact ⟨rfl, rfl⟩
      | cons first others => cases h
  | cons first prefixes ih =>
      cases others with
      | nil => cases h
      | cons second others =>
          simp only [List.map_cons, List.cons_append, List.cons.injEq, Piece.operator.injEq] at h
          obtain ⟨rfl, h⟩ := h
          obtain ⟨hsame, hbehind⟩ := ih others h
          cases hsame
          exact ⟨rfl, hbehind⟩

end Term

/-- A term, and further terms behind it with an operator before each. -/
structure Chain where
  first : Term
  rest : List (Occurrence × Term)

namespace Chain

/-- The pieces of further terms with the operators before them. -/
def piecesOf (rest : List (Occurrence × Term)) : List Piece :=
  rest.flatMap fun link => .operator link.1 :: link.2.pieces

/-- The pieces of a chain. -/
def pieces (chain : Chain) : List Piece :=
  chain.first.pieces ++ piecesOf chain.rest

/-- Further terms are determined by their pieces. -/
theorem piecesOf_inj {rest others : List (Occurrence × Term)}
    (h : piecesOf rest = piecesOf others) : rest = others := by
  induction rest generalizing others with
  | nil =>
      cases others with
      | nil => rfl
      | cons link others => cases h
  | cons link rest ih =>
      cases others with
      | nil => cases h
      | cons other others =>
          simp only [piecesOf, List.flatMap_cons, List.cons_append, List.cons.injEq,
            Piece.operator.injEq] at h
          obtain ⟨hoccurrence, h⟩ := h
          obtain ⟨hterm, h⟩ := Term.append_inj h
          rw [Prod.ext hoccurrence hterm, ih h]

theorem pieces_inj {chain other : Chain} (h : chain.pieces = other.pieces) : chain = other := by
  obtain ⟨hfirst, hrest⟩ := Term.append_inj h
  cases chain
  cases other
  rw [Chain.mk.injEq]
  exact ⟨hfirst, piecesOf_inj hrest⟩

/-- The operands of a chain. -/
def operands (chain : Chain) : List Text :=
  chain.first.operand :: chain.rest.map (·.2.operand)

/-- Every operator in front of an operand is a prefix of the grammar, and every one behind an
operand has a level. -/
structure Admitted (chain : Chain) (grammar : Grammar) : Prop where
  prefixes : ∀ term ∈ chain.first :: chain.rest.map (·.2), ∀ occurrence ∈ term.prefixes,
    grammar.isPrefixToken occurrence.token = true
  levels : ∀ link ∈ chain.rest, link.1.level.isSome = true

end Chain

/-- A tree over the terms of a flat expression. -/
inductive FlatTree where
  /-- The tree of an operand, with the operators in front of it in the order of reading. -/
  | term (prefixes : List (Occurrence × UnaryOperator)) (operand : Text) (leaf : Expr)
  | binary (occurrence : Occurrence) (operator : BinaryOperator) (level : Nat)
      (left right : FlatTree)

namespace FlatTree

/-- The pieces of the tree, read from left to right. -/
def pieces : FlatTree → List Piece
  | term prefixes operand _ => prefixes.map (.operator ·.1) ++ [.operand operand]
  | binary occurrence _ _ left right => left.pieces ++ .operator occurrence :: right.pieces

/-- The operands of the tree, read from left to right. -/
def operands : FlatTree → List Text
  | term _ operand _ => [operand]
  | binary _ _ _ left right => left.operands ++ right.operands

/-- The trees of the operands. -/
def leaves : FlatTree → List Expr
  | term _ _ leaf => [leaf]
  | binary _ _ _ left right => left.leaves ++ right.leaves

/-- The expression. Of the operators in front of an operand, the nearest one is applied first. -/
def toExpr : FlatTree → Expr
  | term prefixes _ leaf =>
    prefixes.foldr (fun entry operand => .operation (.unary entry.2) [operand]) leaf
  | binary _ operator _ left right => .operation (.binary operator) [left.toExpr, right.toExpr]

/-- The operators are those that the grammar reads at their places. -/
def Valid (grammar : Grammar) : FlatTree → Prop
  | term prefixes _ _ => ∀ entry ∈ prefixes, Expr.asPrefix? grammar entry.1.token = some entry.2
  | binary occurrence operator level left right =>
    Expr.asBinary? occurrence = some (operator, level) ∧ left.Valid grammar ∧ right.Valid grammar

/-- The tree may be the left operand of an operator: its own operator, if it is binary, binds
tighter, or stands on the same level and the other one does not group to the right. -/
def FitsLeft (precedence : Precedence) (operator : BinaryOperator) (level : Nat) : FlatTree → Prop
  | term .. => True
  | binary _ _ inner _ _ =>
    precedence.bindsLooser level inner = true ∨
      inner = level ∧ operator.isRightAssociative = false

/-- The tree may be the right operand of an operator on a level: its own operator, if it is binary,
binds tighter, or stands on that level and groups to the right. -/
def FitsRight (precedence : Precedence) (level : Nat) : FlatTree → Prop
  | term .. => True
  | binary _ operator inner _ _ =>
    precedence.bindsLooser level inner = true ∨ inner = level ∧ operator.isRightAssociative = true

/-- Every operand of a binary operator may stand where it does. -/
def Ordered (precedence : Precedence) : FlatTree → Prop
  | term .. => True
  | binary _ operator level left right =>
    left.FitsLeft precedence operator level ∧ right.FitsRight precedence level ∧
      left.Ordered precedence ∧ right.Ordered precedence

/-- The first term. -/
def first : FlatTree → Term
  | term prefixes operand _ => ⟨prefixes.map (·.1), operand⟩
  | binary _ _ _ left _ => left.first

/-- The terms behind the first one. -/
def rest : FlatTree → List (Occurrence × Term)
  | term .. => []
  | binary occurrence _ _ left right => left.rest ++ (occurrence, right.first) :: right.rest

/-- The chain that the tree stands over. -/
def chain (tree : FlatTree) : Chain :=
  ⟨tree.first, tree.rest⟩

/-- The pieces of the tree are those of its chain. -/
theorem pieces_chain (tree : FlatTree) : tree.chain.pieces = tree.pieces := by
  have hparts (tree : FlatTree) : tree.first.pieces ++ Chain.piecesOf tree.rest = tree.pieces := by
    induction tree with
    | term prefixes operand leaf =>
        simp [first, rest, pieces, Term.pieces, Chain.piecesOf, Function.comp_def]
    | binary occurrence operator level left right ihLeft ihRight =>
        simp only [first, rest, pieces, Chain.piecesOf, List.flatMap_append, List.flatMap_cons] at *
        rw [← ihLeft, ← ihRight]
        simp
  exact hparts tree

/-- The operands of the tree are those of its chain. -/
theorem operands_chain (tree : FlatTree) : tree.chain.operands = tree.operands := by
  have hparts (tree : FlatTree) :
      tree.first.operand :: tree.rest.map (·.2.operand) = tree.operands := by
    induction tree with
    | term prefixes operand leaf => rfl
    | binary occurrence operator level left right ihLeft ihRight =>
        simp only [first, rest, operands, List.map_append, List.map_cons]
        rw [← ihLeft, ← ihRight]
        simp
  exact hparts tree

theorem length_leaves (tree : FlatTree) : tree.leaves.length = tree.rest.length + 1 := by
  induction tree with
  | term prefixes operand leaf => rfl
  | binary occurrence operator level left right ihLeft ihRight =>
      simp only [leaves, rest, List.length_append, List.length_cons, ihLeft, ihRight]
      omega

variable {grammar : Grammar} {precedence : Precedence}

/-- In an ordered tree an operator may stand below another one if the operator at the top may: on
the left side of it, and on its right side. -/
theorem fits_of_mem {tree : FlatTree} (hvalid : tree.Valid grammar)
    (hordered : tree.Ordered precedence) {link : Occurrence × Term} (hlink : link ∈ tree.rest)
    {operator : BinaryOperator} {level : Nat}
    (hbinary : Expr.asBinary? link.1 = some (operator, level)) :
    (∀ above limit, tree.FitsLeft precedence above limit →
      precedence.bindsLooser limit level = true ∨
        level = limit ∧ above.isRightAssociative = false) ∧
    ∀ limit, tree.FitsRight precedence limit →
      precedence.bindsLooser limit level = true ∨
        level = limit ∧ operator.isRightAssociative = true := by
  -- What stands left of the top matters to what is right of it and the other way round, so both
  -- sides are shown in one induction.
  induction tree with
  | term prefixes operand leaf => cases hlink
  | binary occurrence top topLevel left right ihLeft ihRight =>
      obtain ⟨htop, hvalidLeft, hvalidRight⟩ := hvalid
      obtain ⟨hfitsLeft, hfitsRight, horderedLeft, horderedRight⟩ := hordered
      -- Below the top stand operators that bind tighter, or as tight.
      have hbelow : (precedence.bindsLooser topLevel level = true ∨ level = topLevel) ∧
          (level = topLevel → top.isRightAssociative = true →
            operator.isRightAssociative = true) := by
        rcases List.mem_append.mp hlink with hlink | hlink
        · rcases (ihLeft hvalidLeft horderedLeft hlink).1 top topLevel hfitsLeft with
            htight | ⟨hsame, hleft⟩
          · exact ⟨.inl htight, fun h => absurd (h ▸ htight) Precedence.not_bindsLooser_self⟩
          · exact ⟨.inr hsame, fun _ hright => by rw [hleft] at hright; cases hright⟩
        · rcases List.mem_cons.mp hlink with rfl | hlink
          · rw [htop] at hbinary
            cases hbinary
            exact ⟨.inr rfl, fun _ h => h⟩
          · rcases (ihRight hvalidRight horderedRight hlink).2 topLevel hfitsRight with
              htight | ⟨hsame, hright⟩
            · exact ⟨.inl htight, fun h => absurd (h ▸ htight) Precedence.not_bindsLooser_self⟩
            · exact ⟨.inr hsame, fun _ _ => hright⟩
      obtain ⟨htight, hassociative⟩ := hbelow
      constructor
      · intro above limit hfits
        rcases hfits with hlooser | ⟨rfl, habove⟩
        · rcases htight with htight | rfl
          · exact .inl (Precedence.bindsLooser_trans hlooser htight)
          · exact .inl hlooser
        · exact htight.imp_right fun h => ⟨h, habove⟩
      · intro limit hfits
        rcases hfits with hlooser | ⟨rfl, hright⟩
        · rcases htight with htight | rfl
          · exact .inl (Precedence.bindsLooser_trans hlooser htight)
          · exact .inl hlooser
        · exact htight.imp_right fun h => ⟨h, hassociative h hright⟩

/-- Two ordered trees do not disagree about which of two operators stands above the other. -/
theorem not_disagree {first second : Occurrence} {a b : BinaryOperator} {m n : Nat}
    {left right other behind : FlatTree}
    (hvalid : (binary first a m left right).Valid grammar)
    (hordered : (binary first a m left right).Ordered precedence)
    (hothers : (binary second b n other behind).Valid grammar)
    (hothersOrdered : (binary second b n other behind).Ordered precedence) {x y : Term}
    (hbelow : (second, x) ∈ right.rest) (habove : (first, y) ∈ other.rest) : False := by
  obtain ⟨hfirst, -, hright⟩ := hvalid
  obtain ⟨-, hfitsRight, -, horderedRight⟩ := hordered
  obtain ⟨hsecond, hother, -⟩ := hothers
  obtain ⟨hfitsLeft, -, horderedOther, -⟩ := hothersOrdered
  have hupper := (fits_of_mem hright horderedRight hbelow hsecond).2 m hfitsRight
  have hlower := (fits_of_mem hother horderedOther habove hfirst).1 b n hfitsLeft
  rcases hupper with hupper | ⟨rfl, hupper⟩
  · rcases hlower with hlower | ⟨rfl, hlower⟩
    · exact Precedence.bindsLooser_asymm hupper hlower
    · exact Precedence.not_bindsLooser_self hupper
  · rcases hlower with hlower | ⟨-, hlower⟩
    · exact Precedence.not_bindsLooser_self hlower
    · rw [hupper] at hlower
      cases hlower

/-- Operators in front of an operand are determined by where they stand. -/
theorem prefixes_inj {prefixes others : List (Occurrence × UnaryOperator)}
    (hprefixes : ∀ entry ∈ prefixes, Expr.asPrefix? grammar entry.1.token = some entry.2)
    (hothers : ∀ entry ∈ others, Expr.asPrefix? grammar entry.1.token = some entry.2)
    (h : prefixes.map (·.1) = others.map (·.1)) : prefixes = others := by
  induction prefixes generalizing others with
  | nil => exact (List.map_eq_nil_iff.mp h.symm).symm
  | cons entry prefixes ih =>
      cases others with
      | nil => cases h
      | cons other others =>
          rw [List.forall_mem_cons] at hprefixes hothers
          rw [List.map_cons, List.map_cons, List.cons.injEq] at h
          have hoperator : entry.2 = other.2 := by
            have hentry := hprefixes.1
            rw [h.1, hothers.1] at hentry
            exact (Option.some.inj hentry).symm
          rw [Prod.ext h.1 hoperator, ih hprefixes.2 hothers.2 h.2]

/-- Over a chain with given trees of its operands there is one ordered tree only. -/
theorem eq_of_ordered {tree other : FlatTree} (hvalid : tree.Valid grammar)
    (hothers : other.Valid grammar) (hordered : tree.Ordered precedence)
    (hothersOrdered : other.Ordered precedence) (hchain : tree.chain = other.chain)
    (hleaves : tree.leaves = other.leaves) : tree = other := by
  induction tree generalizing other with
  | term prefixes operand leaf =>
      cases other with
      | binary => simp [chain, rest] at hchain
      | term others text image =>
          simp only [chain, first, rest, Chain.mk.injEq, Term.mk.injEq, and_true] at hchain
          cases hleaves
          rw [prefixes_inj hvalid hothers hchain.1, hchain.2]
  | binary occurrence operator level left right ihLeft ihRight =>
      cases other with
      | term => simp [chain, rest] at hchain
      | binary second b n before behind =>
          simp only [chain, Chain.mk.injEq] at hchain
          obtain ⟨hfirst, hrest⟩ := hchain
          rw [rest, rest, List.append_eq_append_iff] at hrest
          -- If one tree splits the chain further to the right than the other, each has the
          -- operator of the other below its own.
          have hsplit : left.rest = before.rest ∧
              (occurrence, right.first) :: right.rest = (second, behind.first) :: behind.rest := by
            rcases hrest with ⟨between, hbefore, hbehind⟩ | ⟨between, hleft, hbehind⟩
            · cases between with
              | nil => exact ⟨by simpa using hbefore.symm, hbehind⟩
              | cons link between =>
                  rw [List.cons_append, List.cons.injEq] at hbehind
                  refine absurd (not_disagree hvalid hordered hothers hothersOrdered
                    (x := behind.first) (y := right.first) ?_ ?_) id
                  · rw [hbehind.2]
                    simp
                  · rw [hbefore, hbehind.1]
                    simp
            · cases between with
              | nil => exact ⟨by simpa using hleft, hbehind.symm⟩
              | cons link between =>
                  rw [List.cons_append, List.cons.injEq] at hbehind
                  refine absurd (not_disagree hothers hothersOrdered hvalid hordered
                    (x := right.first) (y := behind.first) ?_ ?_) id
                  · rw [hbehind.2]
                    simp
                  · rw [hleft, hbehind.1]
                    simp
          obtain ⟨hleft, hright⟩ := hsplit
          simp only [List.cons.injEq, Prod.mk.injEq] at hright
          obtain ⟨⟨rfl, hterm⟩, hright⟩ := hright
          obtain ⟨hoperator, hvalidLeft, hvalidRight⟩ := hvalid
          obtain ⟨hsame, hvalidBefore, hvalidBehind⟩ := hothers
          rw [hoperator] at hsame
          cases hsame
          obtain ⟨hleavesLeft, hleavesRight⟩ := List.append_inj hleaves (by
            rw [length_leaves, length_leaves, hleft])
          have hchainLeft : left.chain = before.chain := Chain.mk.injEq .. ▸ ⟨hfirst, hleft⟩
          have hchainRight : right.chain = behind.chain := Chain.mk.injEq .. ▸ ⟨hterm, hright⟩
          rw [ihLeft hvalidLeft hvalidBefore hordered.2.2.1 hothersOrdered.2.2.1 hchainLeft
              hleavesLeft,
            ihRight hvalidRight hvalidBehind hordered.2.2.2 hothersOrdered.2.2.2 hchainRight
              hleavesRight]

end FlatTree

end Reckon
