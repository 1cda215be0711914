import Reckon.Proofs.Expr.Stacks
import Reckon.Proofs.Fallible
import Reckon.Proofs.Source.Lexemes

/-!
# Reading flat expressions

Building the tree of a flat expression goes piece by piece and may meet new literals. Here it is
taken apart: `Item.read` reads a sequence whose operands are trees already, and `follows_ofFlat`
says that building does just that. Since operands in a row are never read, a blank divides the
reading of a flat expression (`readLexemes_blank`).
-/

namespace Reckon

/-- A piece of a flat expression whose operands are trees. -/
inductive Item where
  | operand (tree : Expr)
  | operator (token : Text) (level : Option Nat)

/-- The piece with the tree of its operand, if the operand has one. -/
def Lexeme.item? (leaf : Text → Option Expr) : Lexeme → Option Item
  | .operand text => (leaf text).map .operand
  | .operator token level => some (.operator token level)

namespace Item

mutual
/-- Read on where an operand has to come. -/
def readOperand (grammar : Grammar) (pending : List Pending) (prefixes : List UnaryOperator) :
    List Item → Option Expr
  | [] => none
  | .operand tree :: rest =>
    readOperator grammar pending (Expr.applyPrefixes prefixes tree) rest
  | .operator token _ :: rest => do
    let op ← Expr.asPrefix? grammar token
    readOperand grammar pending (op :: prefixes) rest

/-- Read on behind an operand. -/
def readOperator (grammar : Grammar) (pending : List Pending) (operand : Expr) :
    List Item → Option Expr
  | [] => some (pending.foldl (fun right pending => pending.close right) operand)
  | .operand _ :: _ => none
  | .operator token level :: rest => do
    let (op, level) ← Expr.asBinary? ⟨level, 0, token⟩
    let (pending, left) := Pending.closeWhile grammar.precedence op level pending operand
    readOperand grammar (⟨left, op, level⟩ :: pending) [] rest
end

/-- The tree that a sequence of operands and operators stands for. -/
def read (grammar : Grammar) (items : List Item) : Option Expr :=
  readOperand grammar [] [] items

end Item

/-- The tree that lexemes stand for, given the trees of operands. -/
def readLexemes (grammar : Grammar) (leaf : Text → Option Expr) (lexemes : List Lexeme) :
    Option Expr :=
  (lexemes.mapM (Lexeme.item? leaf)).bind (Item.read grammar)

/-- Reading lexemes one by one. -/
theorem mapM_item_cons (leaf : Text → Option Expr) (lexeme : Lexeme) (rest : List Lexeme)
    (next : List Item → Option Expr) :
    ((lexeme :: rest).mapM (Lexeme.item? leaf)).bind next =
      (lexeme.item? leaf).bind fun item =>
        (rest.mapM (Lexeme.item? leaf)).bind fun items => next (item :: items) := by
  rw [List.mapM_cons]
  cases lexeme.item? leaf with
  | none => rfl
  | some item =>
      cases rest.mapM (Lexeme.item? leaf) with
      | none => rfl
      | some items => rfl

/-- An operand behind an operand is never read. -/
theorem readOperator_operand (grammar : Grammar) (leaf : Text → Option Expr)
    (pending : List Pending) (operand : Expr) (text : Text) (rest : List Lexeme) :
    ((.operand text :: rest).mapM (Lexeme.item? leaf)).bind
      (Item.readOperator grammar pending operand) = none := by
  rw [mapM_item_cons, Lexeme.item?]
  cases leaf text with
  | none => rfl
  | some tree =>
      cases rest.mapM (Lexeme.item? leaf) with
      | none => rfl
      | some items => rfl

/-- Building a tree gives the result, if there is one, and otherwise fails; either way it keeps an
invariant of the literals. -/
def Building.Follows {α : Type} (invariant : ConstantTable → Prop) (building : Building α)
    (result : Option α) : Prop :=
  ∀ constants, invariant constants → match result with
    | some a => ∃ learned, building constants = .ok (a, learned) ∧ invariant learned
    | none => ∃ fault, building constants = .error fault

namespace Building

variable {α β : Type} {invariant : ConstantTable → Prop}

theorem follows_pure (a : α) : Follows invariant (pure a : Building α) (some a) :=
  fun constants h => ⟨constants, rfl, h⟩

theorem follows_throw (fault : CompileError) :
    Follows invariant (throw fault : Building α) none :=
  fun _ _ => ⟨fault, rfl⟩

/-- Builders compose as their results do. -/
theorem Follows.bind {building : Building α} {result : Option α} {next : α → Building β}
    {rest : α → Option β} (h : Follows invariant building result)
    (hnext : ∀ a, result = some a → Follows invariant (next a) (rest a)) :
    Follows invariant (building >>= next) (result.bind rest) := by
  intro constants hconstants
  have hfirst := h constants hconstants
  cases result with
  | none =>
      obtain ⟨fault, hfault⟩ := hfirst
      refine ⟨fault, ?_⟩
      show (building constants >>= fun (a, learned) => next a learned) = _
      rw [hfault]
      rfl
  | some a =>
      obtain ⟨learned, hlearned, hinvariant⟩ := hfirst
      have hrun : (building >>= next) constants = next a learned := by
        show (building constants >>= fun (a, learned) => next a learned) = _
        rw [hlearned]
        rfl
      rw [hrun]
      exact hnext a rfl learned hinvariant

end Building

namespace Expr

open Building (Follows)

variable {grammar : Grammar} {invariant : ConstantTable → Prop} {leaf : Text → Option Expr}
  {build : Text → Building Expr}

/-- Building from an operand on, or from behind one, gives what reading does. -/
theorem follows_pieces (pieces : List Piece)
    (hleaf : ∀ text, .operand text ∈ pieces → Follows invariant (build text) (leaf text)) :
    (∀ pending prefixes last,
      Follows invariant (readOperand grammar build pending prefixes last pieces)
        (((pieces.map Piece.lexeme).mapM (Lexeme.item? leaf)).bind
          (Item.readOperand grammar pending prefixes))) ∧
    ∀ pending operand,
      Follows invariant (readOperator grammar build pending operand pieces)
        (((pieces.map Piece.lexeme).mapM (Lexeme.item? leaf)).bind
          (Item.readOperator grammar pending operand)) := by
  -- Each way of reading on calls the other, so both are shown in one induction.
  induction pieces with
  | nil =>
      refine ⟨fun pending prefixes last => ?_, fun pending operand => Building.follows_pure _⟩
      unfold readOperand
      split <;> exact Building.follows_throw _
  | cons piece rest ih =>
      obtain ⟨hoperand, hoperator⟩ := ih fun text htext => hleaf text (.tail _ htext)
      cases piece with
      | operand text =>
          refine ⟨fun pending prefixes last => ?_, fun pending operand => ?_⟩
          · unfold readOperand
            rw [List.map_cons, mapM_item_cons, Piece.lexeme, Lexeme.item?, Option.bind_map]
            exact (hleaf text (.head _)).bind fun tree _ => hoperator pending _
          · unfold readOperator
            rw [List.map_cons, Piece.lexeme, readOperator_operand]
            exact Building.follows_throw _
      | operator occurrence =>
          refine ⟨fun pending prefixes last => ?_, fun pending operand => ?_⟩
          · unfold readOperand
            rw [List.map_cons, mapM_item_cons, Piece.lexeme, Lexeme.item?, Option.bind_some]
            simp only [Item.readOperand, Option.bind_eq_bind]
            split
            · next op hop =>
                simp only [hop, Option.bind_some]
                exact hoperand _ _ _
            · next hop =>
                simp only [hop, Option.bind_none, Option.bind_fun_none]
                exact Building.follows_throw _
          · unfold readOperator
            rw [List.map_cons, mapM_item_cons, Piece.lexeme, Lexeme.item?, Option.bind_some]
            have hbinary : asBinary? ⟨occurrence.level, 0, occurrence.token⟩ =
                asBinary? occurrence := rfl
            simp only [Item.readOperator, Option.bind_eq_bind, hbinary]
            split
            · next op level hop =>
                simp only [hop, Option.bind_some]
                exact hoperand _ _ _
            · next hop =>
                simp only [hop, Option.bind_none, Option.bind_fun_none]
                exact Building.follows_throw _

/-- Building a flat expression gives what reading its lexemes does. -/
theorem follows_ofFlat {text : Text}
    (hleaf : ∀ operand, .operand operand ∈ grammar.lexemes text →
      Follows invariant (build operand) (leaf operand)) :
    Follows invariant (ofFlat grammar build text)
      (readLexemes grammar leaf (grammar.lexemes text)) := by
  obtain ⟨hread, -⟩ := follows_pieces (Piece.ofOccurrences text 0 (grammar.occurrences text))
    fun operand h => hleaf operand (List.mem_map_of_mem h)
  rw [ofFlat_eq_readOperand]
  exact hread [] [] none

end Expr

namespace Item

variable {grammar : Grammar}

/-- Operands in a row are never read, whatever stands before them. -/
theorem read_adjacent (before behind : List Item) (s t : Expr) :
    (∀ pending prefixes, readOperand grammar pending prefixes
      (before ++ .operand s :: .operand t :: behind) = none) ∧
    ∀ pending operand, readOperator grammar pending operand
      (before ++ .operand s :: .operand t :: behind) = none := by
  -- Both ways of reading on meet the two operands, so both are shown in one induction.
  induction before with
  | nil => exact ⟨fun _ _ => rfl, fun _ _ => rfl⟩
  | cons item before ih =>
      obtain ⟨hoperand, hoperator⟩ := ih
      cases item with
      | operand tree => exact ⟨fun pending prefixes => hoperator pending _, fun _ _ => rfl⟩
      | operator token level =>
          refine ⟨fun pending prefixes => ?_, fun pending operand => ?_⟩
          · rw [List.cons_append, readOperand]
            cases Expr.asPrefix? grammar token with
            | none => rfl
            | some op => exact hoperand pending (op :: prefixes)
          · rw [List.cons_append, readOperator]
            cases Expr.asBinary? ⟨level, 0, token⟩ with
            | none => rfl
            | some binary => exact hoperand _ []

end Item

section Lexemes

variable {grammar : Grammar} {leaf : Text → Option Expr}

/-- Reading lexemes part by part. -/
theorem mapM_item_append (leaf : Text → Option Expr) (before behind : List Lexeme)
    (next : List Item → Option Expr) :
    ((before ++ behind).mapM (Lexeme.item? leaf)).bind next =
      (before.mapM (Lexeme.item? leaf)).bind fun items =>
        (behind.mapM (Lexeme.item? leaf)).bind fun others => next (items ++ others) := by
  rw [List.mapM_append]
  cases before.mapM (Lexeme.item? leaf) with
  | none => rfl
  | some items =>
      cases behind.mapM (Lexeme.item? leaf) with
      | none => rfl
      | some others => rfl

theorem readLexemes_of_leaf {text : Text} (h : leaf text = none) (before behind : List Lexeme) :
    readLexemes grammar leaf (before ++ .operand text :: behind) = none := by
  rw [readLexemes, mapM_item_append]
  cases before.mapM (Lexeme.item? leaf) with
  | none => rfl
  | some items =>
      rw [Option.bind_some, mapM_item_cons, Lexeme.item?, h, Option.map_none, Option.bind_none]

/-- Operands in a row are not read. -/
theorem readLexemes_adjacent (before behind : List Lexeme) (x y : Text) :
    readLexemes grammar leaf (before ++ .operand x :: .operand y :: behind) = none := by
  rw [readLexemes, mapM_item_append]
  cases before.mapM (Lexeme.item? leaf) with
  | none => rfl
  | some items =>
      rw [Option.bind_some, mapM_item_cons, Lexeme.item?]
      cases leaf x with
      | none => rfl
      | some s =>
          rw [Option.map_some, Option.bind_some]
          rw [mapM_item_cons leaf (.operand y) behind fun others =>
            Item.read grammar (items ++ .operand s :: others), Lexeme.item?]
          cases leaf y with
          | none => rfl
          | some t =>
              cases behind.mapM (Lexeme.item? leaf) with
              | none => rfl
              | some others => exact (Item.read_adjacent items others s t).1 [] []

end Lexemes

namespace Lexeme.Joined

variable {before behind joined : List Lexeme}

/-- Joined lexemes are read as those of the parts, if no operand with a blank inside has a tree. -/
theorem readLexemes_eq {grammar : Grammar} {leaf : Text → Option Expr}
    (hleaf : ∀ z : Text, z.Divided → leaf z = none) (h : Joined before behind joined)
    (more : List Lexeme) :
    readLexemes grammar leaf (more ++ joined) =
      readLexemes grammar leaf (more ++ (before ++ behind)) := by
  cases h with
  | apart => rfl
  | across before behind x y hz =>
      have hparts : more ++ (before ++ [.operand x] ++ .operand y :: behind) =
          more ++ before ++ .operand x :: .operand y :: behind := by simp
      rw [hparts, readLexemes_adjacent, ← List.append_assoc, readLexemes_of_leaf (hleaf _ hz)]

end Lexeme.Joined

namespace Grammar

variable {grammar : Grammar} (hgrammar : grammar.Lexical) {b : Char}
  (hb : Unicode.isBlank b = true)
include hgrammar hb

/-- A blank divides the reading of a text. -/
theorem readLexemes_blank {leaf : Text → Option Expr}
    (hleaf : ∀ z : Text, z.Divided → leaf z = none) (more : List Lexeme) (a rest : Text) :
    readLexemes grammar leaf (more ++ grammar.lexemes (a ++ b :: rest)) =
      readLexemes grammar leaf (more ++ (grammar.lexemes a ++ grammar.lexemes rest)) :=
  (joined_lexemes hgrammar hb a rest).readLexemes_eq hleaf more

end Grammar

end Reckon
