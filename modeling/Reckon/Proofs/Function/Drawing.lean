import Mathlib.Data.Nat.Find
import Reckon.Function.Random
import Reckon.Proofs.Fallible

/-!
# Draws end

A number below a bound is drawn by passing words over until one is in the zone of the bound, and the
zone has the word zero in it. The words of a seed are the mixed terms of an arithmetic progression,
which comes by every word before it repeats. So a draw from a seed is answered with the first word
in the zone (`Random.natural_ofSeed`), and the number of tries never cuts it short.
-/

namespace Reckon

/-- Among as many words of a seed as there are words, one is zero. -/
theorem Draws.exists_zero (seed : UInt64) (start : Nat) :
    ∃ k < UInt64.size, (ofSeed seed).word (start + k) = 0 := by
  -- The term after so many steps is zero, since the step has an inverse.
  let rest : UInt64 := -(seed * 0xf1de83e19937733d) - UInt64.ofNat (start + 1)
  refine ⟨rest.toNat, rest.toNat_lt, ?_⟩
  have hterm : seed + UInt64.ofNat (start + rest.toNat + 1) * 0x9E3779B97F4A7C15 = 0 := by
    have hcount : UInt64.ofNat (start + rest.toNat + 1) = UInt64.ofNat (start + 1) + rest := by
      rw [Nat.add_right_comm, UInt64.ofNat_add, UInt64.ofNat_toNat]
    rw [hcount]
    grind
  show mix _ = 0
  rw [hterm]
  decide

theorem Eval.draw_bind {α : Type} (next : UInt64 → Eval α) (draws : Draws) :
    (draw >>= next) draws =
      next (draws.word draws.used) { draws with used := draws.used + 1 } :=
  rfl

namespace Random

variable {bound : UInt64} {draws : Draws}

/-- The first word in the zone is drawn, and the words before it are used up. -/
theorem accepted_eq {tries k : Nat} (hk : k < tries)
    (hpassed : ∀ j < k, ¬ draws.word (draws.used + j) < zone bound)
    (hfound : draws.word (draws.used + k) < zone bound) :
    accepted bound tries draws =
      .ok (draws.word (draws.used + k) % bound, { draws with used := draws.used + k + 1 }) := by
  induction tries generalizing k draws with
  | zero => omega
  | succ tries ih =>
      rw [accepted, Eval.draw_bind]
      cases k with
      | zero =>
          rw [Nat.add_zero] at hfound ⊢
          rw [if_pos hfound]
          rfl
      | succ k =>
          have hshift (j : Nat) : draws.used + 1 + j = draws.used + (j + 1) := by omega
          have hrest := @ih { draws with used := draws.used + 1 } k (by omega)
            (fun j hj => by simpa only [hshift] using hpassed (j + 1) (by omega))
            (by simpa only [hshift] using hfound)
          have hfirst := hpassed 0 (Nat.succ_pos k)
          rw [Nat.add_zero] at hfirst
          rw [if_neg hfirst, hrest]
          simp only [hshift]

/-- Zero is in the zone of every bound. -/
theorem zone_pos (h : 0 < bound) : 0 < zone bound := by
  rw [UInt64.lt_iff_toNat_lt] at h ⊢
  have hremainder : (0xFFFFFFFFFFFFFFFF % bound).toNat = (2 ^ 64 - 1) % bound.toNat :=
    UInt64.toNat_mod ..
  have hle : (2 ^ 64 - 1) % bound.toNat < 2 ^ 64 - 1 := by
    rcases Nat.lt_or_ge bound.toNat (2 ^ 64 - 1) with hsmall | hlarge
    · exact Nat.lt_trans (Nat.mod_lt _ h) hsmall
    · have hbound := bound.toNat_lt
      rw [show bound.toNat = 2 ^ 64 - 1 by omega, Nat.mod_self]
      decide
  rw [zone, UInt64.toNat_sub_of_le]
  · rw [hremainder]
    exact Nat.sub_pos_of_lt hle
  · rw [UInt64.le_iff_toNat_le, hremainder]
    exact Nat.le_of_lt hle

/-- A number below a bound is drawn from a seed as the remainder of the first word in the zone of
the bound. -/
theorem natural_ofSeed {seed : UInt64} (hseed : draws.word = (Draws.ofSeed seed).word) {bound : Nat}
    (hbound : 0 < bound) (hword : bound < UInt64.size) :
    ∃ k, (∀ j < k, ¬ draws.word (draws.used + j) < zone (UInt64.ofNat bound)) ∧
      draws.word (draws.used + k) < zone (UInt64.ofNat bound) ∧
      natural bound draws = .ok ((draws.word (draws.used + k)).toNat % bound,
        { draws with used := draws.used + k + 1 }) := by
  have hofNat : (UInt64.ofNat bound).toNat = bound := UInt64.toNat_ofNat_of_lt hword
  have hpos : 0 < UInt64.ofNat bound := by
    rw [UInt64.lt_iff_toNat_lt, hofNat]
    exact hbound
  obtain ⟨last, hlimit, hlast⟩ := Draws.exists_zero seed draws.used
  have hexists : ∃ k, draws.word (draws.used + k) < zone (UInt64.ofNat bound) :=
    ⟨last, by rw [hseed, hlast]; exact zone_pos hpos⟩
  have hfirst : Nat.find hexists ≤ last :=
    Nat.find_le (by rw [hseed, hlast]; exact zone_pos hpos)
  refine ⟨Nat.find hexists, fun j hj => Nat.find_min hexists hj, Nat.find_spec hexists, ?_⟩
  have haccepted := accepted_eq (Nat.lt_of_le_of_lt hfirst hlimit)
    (fun j hj => Nat.find_min hexists hj) (Nat.find_spec hexists)
  refine bindState_eq_ok.mpr ⟨_, _, haccepted, ?_⟩
  rw [UInt64.toNat_mod, hofNat]
  rfl

end Random

end Reckon
