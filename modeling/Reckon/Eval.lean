import Reckon.Value.Expect

/-!
# Evaluation with random draws

An evaluation ends in a value or an error, and may draw random words on its way. The words come from
a fixed supply and are used in order, so an evaluation is a function of the supply: two evaluations
that draw alike from one supply see the same words.
-/

namespace Reckon

/-- A supply of random words, and how many of them are used up. -/
structure Draws where
  word : Nat → UInt64
  used : Nat

/-- An evaluation: it uses some of the supply, and ends in a result or an error. -/
abbrev Eval (α : Type) := StateT Draws (Except EvalError) α

namespace Draws

/-- Spread the bits of a word over all of its positions. -/
def mix (z : UInt64) : UInt64 :=
  let z := (z ^^^ (z >>> 30)) * 0xBF58476D1CE4E5B9
  let z := (z ^^^ (z >>> 27)) * 0x94D049BB133111EB
  z ^^^ (z >>> 31)

/-- The supply that a seed determines: the mixed terms of an arithmetic progression. -/
def ofSeed (seed : UInt64) : Draws :=
  { word := fun n => mix (seed + UInt64.ofNat (n + 1) * 0x9E3779B97F4A7C15), used := 0 }

end Draws

namespace Eval

/-- An evaluation that draws nothing. -/
def ofExcept {α : Type} (result : Except EvalError α) : Eval α :=
  fun draws => result.map fun value => (value, draws)

/-- The next word of the supply. -/
def draw : Eval UInt64 :=
  fun draws => .ok (draws.word draws.used, { draws with used := draws.used + 1 })

/-- The outcome of an evaluation on a supply. -/
def outcome {α : Type} (evaluation : Eval α) (draws : Draws) : Except EvalError α :=
  (evaluation draws).map (·.1)

end Eval

end Reckon
