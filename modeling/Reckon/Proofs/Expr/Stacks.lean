import Reckon.Expr.Flat

/-!
# The stacks of a flat expression never run out

Every waiting operator has its left operand on the stack, and behind an operand there is one more.
So the two stacks are one list of pending operators, and reading a flat expression is a recursion
over its pieces: `Expr.ofFlat_eq_readOperand` says that the loop over the stacks is this recursion,
in which no operator can lack an operand and no operand can be left over.
-/

namespace Reckon

/-- A binary operator that waits, with its left operand, for its right one. -/
structure Pending where
  left : Expr
  operator : BinaryOperator
  level : Nat

namespace Pending

/-- The waiting operator takes what follows as its right operand. -/
def close (pending : Pending) (right : Expr) : Expr :=
  .operation (.binary pending.operator) [pending.left, right]

/-- Complete waiting operators as long as they are complete before the operator that follows. -/
def closeWhile (precedence : Precedence) (operator : BinaryOperator) (level : Nat) :
    List Pending → Expr → List Pending × Expr
  | [], right => ([], right)
  | pending :: rest, right =>
    if Stacks.closesBefore precedence operator level pending.level then
      closeWhile precedence operator level rest (pending.close right)
    else
      (pending :: rest, right)

end Pending

namespace Expr

mutual
/-- Read on where an operand has to come. `last` is the operator read last. -/
def readOperand (grammar : Grammar) (leaf : Text → Building Expr) (pending : List Pending)
    (prefixes : List UnaryOperator) (last : Option Text) : List Piece → Building Expr
  | [] =>
    match last with
    | some token => throw (.malformed (.missingRightOperand token))
    | none => throw (.malformed .emptyExpression)
  | .operand text :: rest => do
    let operand ← leaf text
    readOperator grammar leaf pending (applyPrefixes prefixes operand) rest
  | .operator occurrence :: rest =>
    match asPrefix? grammar occurrence.token with
    | some op => readOperand grammar leaf pending (op :: prefixes) (some occurrence.token) rest
    | none => throw (.malformed (.missingLeftOperand occurrence.token))

/-- Read on behind an operand. -/
def readOperator (grammar : Grammar) (leaf : Text → Building Expr) (pending : List Pending)
    (operand : Expr) : List Piece → Building Expr
  | [] => return pending.foldl (fun right pending => pending.close right) operand
  | .operand text :: _ => throw (.malformed (.missingOperator text))
  | .operator occurrence :: rest =>
    match asBinary? occurrence with
    | some (operator, level) =>
      let (pending, left) :=
        Pending.closeWhile grammar.precedence operator level pending operand
      readOperand grammar leaf (⟨left, operator, level⟩ :: pending) [] (some occurrence.token) rest
    | none => throw (.malformed (.cannotFollowOperand occurrence.token))
end

end Expr

namespace Pending

/-- The operators that wait. -/
def entries (pending : List Pending) : List (BinaryOperator × Nat) :=
  pending.map fun entry => (entry.operator, entry.level)

/-- Their left operands. -/
def lefts (pending : List Pending) : List Expr :=
  pending.map (·.left)

end Pending

namespace Stacks

open Pending (entries lefts)

/-- The stacks where an operand has to come: an operand for each operator. -/
def expecting (pending : List Pending) (prefixes : List UnaryOperator) : Stacks :=
  ⟨lefts pending, entries pending, prefixes, true⟩

/-- The stacks behind an operand: one operand more. -/
def behind (pending : List Pending) (operand : Expr) : Stacks :=
  ⟨operand :: lefts pending, entries pending, [], false⟩

/-- Behind an operand, completing operators finds an operand on either side of each. -/
theorem reduceWhile_pending (precedence : Precedence) (operator : BinaryOperator) (level : Nat)
    (pending : List Pending) (operand : Expr) :
    reduceWhile precedence operator level (entries pending) (operand :: lefts pending) =
      let (rest, left) := Pending.closeWhile precedence operator level pending operand
      .ok (entries rest, left :: lefts rest) := by
  induction pending generalizing operand with
  | nil => rfl
  | cons entry pending ih =>
      rw [entries, lefts, List.map_cons, List.map_cons, reduceWhile, Pending.closeWhile]
      split
      · exact ih (entry.close operand)
      · rfl

/-- Behind an operand, completing all operators leaves one tree. -/
theorem reduceAll_pending (pending : List Pending) (operand : Expr) :
    reduceAll (entries pending) (operand :: lefts pending) =
      .ok [pending.foldl (fun right entry => entry.close right) operand] := by
  induction pending generalizing operand with
  | nil => rfl
  | cons entry pending ih => exact ih (entry.close operand)

end Stacks

namespace Piece

/-- The operator that was read last, behind further pieces. -/
def lastToken (last : Option Text) : List Piece → Option Text
  | [] => last
  | .operand _ :: rest => lastToken last rest
  | .operator occurrence :: rest => lastToken (some occurrence.token) rest

theorem lastToken_append (last : Option Text) (pieces rest : List Piece) :
    lastToken last (pieces ++ rest) = lastToken (lastToken last pieces) rest := by
  induction pieces generalizing last with
  | nil => rfl
  | cons piece pieces ih =>
      cases piece with
      | operand text => exact ih last
      | operator occurrence => exact ih (some occurrence.token)

/-- The operator that is read last in a text is its last one. -/
theorem lastToken_ofOccurrences (last : Option Text) (text : Text) (place : Nat)
    (occurrences : List Occurrence) :
    lastToken last (ofOccurrences text place occurrences) =
      (occurrences.getLast?.map (·.token)).or last := by
  have hoperands (last : Option Text) (text : Text) : lastToken last (operands text) = last := by
    unfold operands
    dsimp only
    split <;> rfl
  induction occurrences generalizing last place with
  | nil => exact hoperands last _
  | cons occurrence rest ih =>
      rw [ofOccurrences, lastToken_append, hoperands, lastToken, ih, List.getLast?_cons]
      cases rest.getLast? <;> rfl

end Piece

namespace Stacks

open Pending (entries lefts)

variable {grammar : Grammar} {leaf : Text → Building Expr} {text : Text}
  {occurrences : List Occurrence}

/-- Read the rest of the pieces of a text, and finish. -/
def run (grammar : Grammar) (leaf : Text → Building Expr) (text : Text)
    (occurrences : List Occurrence) (pieces : List Piece) (state : Stacks) : Building Expr := do
  let state ← pieces.foldlM (read grammar leaf) state
  state.finish text occurrences

/-- Where an operand has to come, a text cannot end. -/
theorem finish_expecting {pending : List Pending} {prefixes : List UnaryOperator}
    {last : Option Text} (hlast : last = occurrences.getLast?.map (·.token))
    (hwaits : last.isSome = true → pending ≠ [] ∨ prefixes ≠ []) :
    finish text occurrences (expecting pending prefixes) = .error
      (.malformed (last.elim .emptyExpression .missingRightOperand)) := by
  subst hlast
  unfold finish
  cases hfound : occurrences.getLast? with
  | none => rfl
  | some occurrence =>
      have hempty : ((lefts pending).isEmpty && prefixes.isEmpty) = false := by
        rw [hfound] at hwaits
        rcases hwaits rfl with h | h <;> simp [lefts, h]
      show (if ((lefts pending).isEmpty && prefixes.isEmpty) = true then _ else _) = _
      rw [hempty]
      rfl

/-- Behind an operand, a text ends with all operators completed. -/
theorem finish_behind (pending : List Pending) (operand : Expr) :
    finish text occurrences (behind pending operand) =
      .ok (pending.foldl (fun right entry => entry.close right) operand) := by
  show (reduceAll (entries pending) (operand :: lefts pending) >>= _) = _
  rw [reduceAll_pending]
  rfl

theorem run_cons (piece : Piece) (rest : List Piece) (state : Stacks) :
    run grammar leaf text occurrences (piece :: rest) state =
      read grammar leaf state piece >>= run grammar leaf text occurrences rest := by
  unfold run
  rw [List.foldlM_cons, bind_assoc]

theorem read_operand (pending : List Pending) (prefixes : List UnaryOperator) (word : Text) :
    read grammar leaf (expecting pending prefixes) (.operand word) =
      leaf word >>= fun operand => pure (behind pending (Expr.applyPrefixes prefixes operand)) :=
  rfl

theorem read_prefix (pending : List Pending) (prefixes : List UnaryOperator)
    (occurrence : Occurrence) :
    read grammar leaf (expecting pending prefixes) (.operator occurrence) =
      match Expr.asPrefix? grammar occurrence.token with
      | some op => pure (expecting pending (op :: prefixes))
      | none => throw (.malformed (.missingLeftOperand occurrence.token)) :=
  rfl

/-- An operator behind an operand waits with what the complete operators before it give. -/
theorem read_binary (pending : List Pending) (operand : Expr) (occurrence : Occurrence) :
    read grammar leaf (behind pending operand) (.operator occurrence) =
      match Expr.asBinary? occurrence with
      | some (operator, level) =>
        let (rest, left) := Pending.closeWhile grammar.precedence operator level pending operand
        pure (expecting (⟨left, operator, level⟩ :: rest) [])
      | none => throw (.malformed (.cannotFollowOperand occurrence.token)) := by
  show (match Expr.asBinary? occurrence with
    | some (operator, level) => (reduceWhile grammar.precedence operator level (entries pending)
        (operand :: lefts pending) : Building _) >>= _
    | none => _) = _
  cases Expr.asBinary? occurrence with
  | none => rfl
  | some entry =>
      dsimp only
      rw [reduceWhile_pending]
      rfl

/-- From any of its states on, the loop over the stacks is the recursion over the pieces. -/
theorem run_eq_read (pieces : List Piece) :
    (∀ pending prefixes last,
      Piece.lastToken last pieces = occurrences.getLast?.map (·.token) →
      (last.isSome = true → pending ≠ [] ∨ prefixes ≠ []) →
      run grammar leaf text occurrences pieces (expecting pending prefixes) =
        Expr.readOperand grammar leaf pending prefixes last pieces) ∧
    ∀ pending operand last,
      Piece.lastToken last pieces = occurrences.getLast?.map (·.token) →
      run grammar leaf text occurrences pieces (behind pending operand) =
        Expr.readOperator grammar leaf pending operand pieces := by
  -- Each way of reading on calls the other, so both are shown in one induction.
  induction pieces with
  | nil =>
      refine ⟨fun pending prefixes last hlast hwaits => ?_, fun pending operand last _ => ?_⟩
      · show (finish text occurrences (expecting pending prefixes) : Building Expr) = _
        rw [finish_expecting hlast hwaits]
        cases last <;> rfl
      · show (finish text occurrences (behind pending operand) : Building Expr) = _
        rw [finish_behind]
        rfl
  | cons piece rest ih =>
      obtain ⟨hoperand, hoperator⟩ := ih
      cases piece with
      | operand word =>
          refine ⟨fun pending prefixes last hlast _ => ?_, fun pending operand last _ => ?_⟩
          · rw [run_cons, read_operand, Expr.readOperand, bind_assoc]
            exact bind_congr fun operand => hoperator pending _ last hlast
          · rw [run_cons]
            rfl
      | operator occurrence =>
          refine ⟨fun pending prefixes last hlast _ => ?_, fun pending operand last hlast => ?_⟩
          · rw [run_cons, read_prefix, Expr.readOperand]
            cases Expr.asPrefix? grammar occurrence.token with
            | none => rfl
            | some op =>
                exact hoperand pending (op :: prefixes) (some occurrence.token) hlast
                  fun _ => .inr (List.cons_ne_nil _ _)
          · rw [run_cons, read_binary, Expr.readOperator]
            cases Expr.asBinary? occurrence with
            | none => rfl
            | some entry =>
                exact hoperand _ [] (some occurrence.token) hlast
                  fun _ => .inl (List.cons_ne_nil _ _)

end Stacks

/-- Reading a flat expression on its stacks is the recursion over its pieces. -/
theorem Expr.ofFlat_eq_readOperand (grammar : Grammar) (leaf : Text → Building Expr)
    (text : Text) :
    ofFlat grammar leaf text =
      readOperand grammar leaf [] [] none
        (Piece.ofOccurrences text 0 (grammar.occurrences text)) := by
  obtain ⟨hread, -⟩ := Stacks.run_eq_read
    (Piece.ofOccurrences text 0 (grammar.occurrences text))
  exact hread [] [] none
    (by rw [Piece.lastToken_ofOccurrences, Option.or_none]) nofun

end Reckon
