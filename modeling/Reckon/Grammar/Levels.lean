import Reckon.Text.Basic

/-!
# Operator levels

A table that puts operator tokens on numbered levels. Levels are kept in ascending order and are
never empty; a token stands on one level at most, and tokens of a level keep the order in which they
came there.
-/

namespace Reckon

/-- Operator tokens by level. -/
structure Levels where
  rows : List (Nat × List Text)

namespace Levels

/-- The table without tokens. -/
def empty : Levels :=
  ⟨[]⟩

/-- The rows without a token, and without rows that it leaves empty. -/
def removeToken (token : Text) (rows : List (Nat × List Text)) : List (Nat × List Text) :=
  (rows.map fun row => (row.1, row.2.filter (· != token))).filter fun row => !row.2.isEmpty

/-- The rows with a token at the end of a level. -/
def appendToken (level : Nat) (token : Text) : List (Nat × List Text) → List (Nat × List Text)
  | [] => [(level, [token])]
  | (first, tokens) :: rows =>
    if level < first then (level, [token]) :: (first, tokens) :: rows
    else if level = first then (first, tokens ++ [token]) :: rows
    else (first, tokens) :: appendToken level token rows

/-- The table with a token on a level, taken from any other place it had. -/
def insert (table : Levels) (level : Nat) (token : Text) : Levels :=
  ⟨appendToken level token (removeToken token table.rows)⟩

/-- The table with several tokens on a level. -/
def insertAll (table : Levels) (level : Nat) (tokens : List Text) : Levels :=
  tokens.foldl (fun table token => table.insert level token) table

/-- Every token with its level. -/
def tokens (table : Levels) : List (Nat × Text) :=
  table.rows.flatMap fun row => row.2.map fun token => (row.1, token)

/-- The level of a token. -/
def level? (table : Levels) (token : Text) : Option Nat :=
  (table.tokens.find? fun entry => entry.2 == token).map (·.1)

/-- No token is on any level. -/
def isEmpty (table : Levels) : Bool :=
  table.rows.isEmpty

end Levels

/-- Which end of the level numbers binds tighter. -/
inductive Precedence where
  | lowerBindsTighter
  | higherBindsTighter
deriving DecidableEq, Repr

/-- The first level binds more loosely than the second. -/
def Precedence.bindsLooser (precedence : Precedence) (a b : Nat) : Bool :=
  match precedence with
  | .lowerBindsTighter => b < a
  | .higherBindsTighter => a < b

end Reckon
