import Reckon.Function.Basic

/-!
# Random functions

Each draw uses words of the supply. A whole number below a bound is the remainder of a word by the
bound. Words behind the last whole run of the bound are passed over, so that no remainder comes up
more often than another.
-/

namespace Reckon.Random

/-- The number of words that are whole runs of a bound. -/
def zone (bound : UInt64) : UInt64 :=
  0xFFFFFFFFFFFFFFFF - 0xFFFFFFFFFFFFFFFF % bound

/-- The remainder of the next word that is in the zone of a bound, among so many words. -/
def accepted (bound : UInt64) : Nat → Eval UInt64
  | 0 => return 0
  | tries + 1 => do
    let word ← Eval.draw
    if word < zone bound then return word % bound else accepted bound tries

/-- A natural number below a positive bound. As many words are tried as there are, and the words of
a seed do not repeat before that. -/
def natural (bound : Nat) : Eval Nat :=
  return (← accepted (UInt64.ofNat bound) 0x10000000000000000).toNat

/-- A float from zero up to, and without, one. -/
def fraction : List Value → Eval Value
  | [] => return .float (((← Eval.draw) >>> 11).toFloat / 9007199254740992)
  | arguments => .ofExcept (wrongCount 0 arguments)

/-- An integer from zero up to, and without, a bound. -/
def belowBound : List Value → Eval Value
  | [bound] => do
    let bound ← Eval.ofExcept bound.expectInteger
    if bound.toInt ≤ 0 then
      throw (.invalidArgument (.emptyRange bound))
    return .integer (Int64.ofNat (← natural bound.toInt.toNat))
  | arguments => .ofExcept (wrongCount 1 arguments)

/-- An integer from a lower bound up to, and without, an upper bound. -/
def inRange : List Value → Eval Value
  | [low, high] => do
    let low ← Eval.ofExcept low.expectInteger
    let high ← Eval.ofExcept high.expectInteger
    if high.toInt ≤ low.toInt then
      throw (.invalidArgument (.emptyRangeBetween low high))
    let offset ← natural (high.toInt - low.toInt).toNat
    return .integer (Int64.ofInt (low.toInt + offset))
  | arguments => .ofExcept (wrongCount 2 arguments)

end Reckon.Random
