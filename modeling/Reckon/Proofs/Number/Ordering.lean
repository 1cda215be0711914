import Reckon.Number.Whole
import Reckon.Proofs.Number.Rounding

/-!
# The order of floats

A float stands for a rational number or for something beyond all of them, and the comparison of
floats is the order of what they stand for: `compare_eq`. Its bits give an exponent and a mantissa
of which the exponent counts first; that this is the order of the numbers rests on the leading bit,
which every mantissa has but those of the least exponent.
-/

namespace Reckon

/-- What floats stand for: the rational numbers, and on each side something beyond all of them. -/
abbrev Extended : Type :=
  WithBot (WithTop ℚ)

/-- A rational number among what floats stand for. -/
def Extended.ofRat (q : ℚ) : Extended :=
  ((q : WithTop ℚ) : WithBot (WithTop ℚ))

theorem Extended.ofRat_strictMono : StrictMono Extended.ofRat :=
  WithBot.coe_strictMono.comp WithTop.coe_strictMono

theorem Extended.bot_lt_ofRat (q : ℚ) : ⊥ < Extended.ofRat q :=
  WithBot.bot_lt_coe _

theorem Extended.ofRat_lt_top (q : ℚ) : Extended.ofRat q < ⊤ :=
  WithBot.coe_lt_coe.mpr (WithTop.coe_lt_top q)

theorem Extended.compares_ofRat {order : Ordering} {q r : ℚ} (h : order.Compares q r) :
    order.Compares (Extended.ofRat q) (Extended.ofRat r) := by
  cases order with
  | lt => exact Extended.ofRat_strictMono h
  | eq => exact congrArg Extended.ofRat h
  | gt => exact Extended.ofRat_strictMono h

/-- What an exact number stands for. -/
def Exact.number? : Exact → Option Extended
  | .nan => none
  | .infinite negative => some (if negative then ⊥ else ⊤)
  | .finite negative significand exponent =>
    some (.ofRat (signed negative significand * 2 ^ exponent))

namespace Binary64

open Float.Model
open Float.Model.UnpackedFloat

/-- What a float stands for. -/
def number? (x : Float) : Option Extended :=
  (Exact.ofFloat x).number?

/-- The sign is that of negative numbers. -/
def isNegative : Sign → Bool
  | .negative => true
  | .positive => false

/-- How the parts of a float stand for an exact number. A mantissa has its leading bit, unless the
exponent is the least one. -/
inductive Unpacks : UnpackedFloat → Exact → Prop where
  | nan : Unpacks .notANumber .nan
  | infinite (sign : Sign) : Unpacks (.infinity sign) (.infinite (isNegative sign))
  | zero (sign : Sign) : Unpacks (.zero sign) (.finite (isNegative sign) 0 (-1074))
  | finite (sign : Sign) {mantissa : Nat} {exponent : Int} (hpos : 0 < mantissa)
      (hmantissa : mantissa < 2 ^ 53) (hexponent : -1074 ≤ exponent)
      (hleading : 2 ^ 52 ≤ mantissa ∨ exponent = -1074) :
      Unpacks (.finite sign mantissa exponent hpos) (.finite (isNegative sign) mantissa exponent)

theorem toNat_unpackExponent (bits : BitVec 64) :
    (@unpackExponent Format.binary64 bits).toNat = bits.toNat / 0x10000000000000 % 0x800 := by
  show bits.toNat >>> 52 % 2 ^ 11 = _
  rw [Nat.shiftRight_eq_div_pow]

theorem toNat_unpackMantissa (bits : BitVec 64) :
    (@unpackMantissa Format.binary64 bits).toNat = bits.toNat % 0x10000000000000 := by
  show bits.toNat >>> 0 % 2 ^ 52 = _
  rfl

/-- The sign of a pattern of bits. -/
theorem isNegative_unpackSign (bits : BitVec 64) :
    isNegative (Sign.ofBitVec (@unpackSign Format.binary64 bits)) =
      (bits.toNat / 0x8000000000000000 == 1) := by
  have hsign : (@unpackSign Format.binary64 bits).toNat = bits.toNat / 0x8000000000000000 := by
    show bits.toNat >>> 63 % 2 ^ 1 = _
    have hbits := bits.isLt
    rw [Nat.shiftRight_eq_div_pow]
    omega
  rw [← hsign]
  generalize @unpackSign Format.binary64 bits = sign
  revert sign
  decide

/-- The parts of a float are those of its number. -/
theorem unpacks (x : Float) : Unpacks x.toModel.unpack (Exact.ofFloat x) := by
  have hexponent := toNat_unpackExponent x.toBits.toBitVec
  have hmantissa := toNat_unpackMantissa x.toBits.toBitVec
  have hsign := isNegative_unpackSign x.toBits.toBitVec
  show Unpacks (UnpackedFloat.unpack Format.binary64 x.toBits.toBitVec) _
  simp only [Exact.ofFloat, UnpackedFloat.unpack]
  have hlt : x.toBits.toNat / 0x10000000000000 % 0x800 < 0x800 := Nat.mod_lt _ (by decide)
  have hlow : x.toBits.toNat % 0x10000000000000 < 0x10000000000000 := Nat.mod_lt _ (by decide)
  rw [UInt64.toNat_toBitVec] at hexponent hmantissa hsign
  generalize x.toBits.toNat / 0x10000000000000 % 0x800 = biased at *
  generalize x.toBits.toNat % 0x10000000000000 = fraction at *
  rw [← hsign]
  have hfull : @unpackExponent Format.binary64 x.toBits.toBitVec = -1#11 ↔ biased = 2047 := by
    rw [← BitVec.toNat_inj, hexponent]
    rfl
  have hleast : @unpackExponent Format.binary64 x.toBits.toBitVec = 0#11 ↔ biased = 0 := by
    rw [← BitVec.toNat_inj, hexponent]
    rfl
  have hempty : @unpackMantissa Format.binary64 x.toBits.toBitVec = 0#52 ↔ fraction = 0 := by
    rw [← BitVec.toNat_inj, hmantissa]
    rfl
  by_cases hinfinite : biased = 2047
  · rw [if_pos hinfinite, if_pos (hfull.mpr hinfinite)]
    by_cases hzero : fraction = 0
    · rw [if_pos hzero, if_pos (hempty.mpr hzero)]
      exact .infinite _
    · rw [if_neg hzero, if_neg (hempty.not.mpr hzero)]
      exact .nan
  · rw [if_neg hinfinite, if_neg (hfull.not.mpr hinfinite)]
    by_cases hsmall : biased = 0
    · rw [if_pos hsmall, if_pos (hleast.mpr hsmall)]
      by_cases hzero : fraction = 0
      · rw [dif_pos (hempty.mpr hzero), hzero]
        exact .zero _
      · rw [dif_neg (hempty.not.mpr hzero)]
        simp only [hmantissa, hexponent, hsmall, exponentBias_eq]
        exact .finite _ (by omega) (by omega) (Int.le_refl _) (.inr rfl)
    · rw [if_neg hsmall, if_neg (hleast.not.mpr hsmall)]
      have hleading : (1#1 ++ @unpackMantissa Format.binary64 x.toBits.toBitVec).toNat =
          0x10000000000000 + fraction := by
        rw [BitVec.toNat_append, hmantissa]
        exact (Nat.shiftLeft_add_eq_or_of_lt (b := fraction) (i := 52) (by omega) 1).symm
      simp only [hleading, hexponent, exponentBias_eq]
      exact .finite _ (by omega) (by omega) (by omega) (.inl (by omega))

/-- Of two numbers with their leading bits the one with the smaller exponent is smaller. -/
theorem lt_of_exponent_lt {m n : Nat} {e f : Int} (hm : m < 2 ^ 53) (hn : 2 ^ 52 ≤ n) (h : e < f) :
    (m : ℚ) * 2 ^ e < n * 2 ^ f := by
  have hm : (m : ℚ) < 2 ^ 53 := by exact_mod_cast hm
  have hn : (2 : ℚ) ^ 52 ≤ n := by exact_mod_cast hn
  calc (m : ℚ) * 2 ^ e < 2 ^ 53 * 2 ^ e := mul_lt_mul_of_pos_right hm (by positivity)
    _ = 2 ^ 52 * 2 ^ (e + 1) := by rw [zpow_add₀ two_ne_zero, zpow_one]; ring
    _ ≤ 2 ^ 52 * 2 ^ f := by gcongr; exacts [one_le_two, h]
    _ ≤ n * 2 ^ f := by gcongr

/-- Two numbers are in the order of their exponents, and for one exponent in that of their
mantissas. -/
theorem compares_mantissa {m n : Nat} {e f : Int} (hm : m < 2 ^ 53) (hn : n < 2 ^ 53)
    (he : -1074 ≤ e) (hf : -1074 ≤ f) (hm' : 2 ^ 52 ≤ m ∨ e = -1074)
    (hn' : 2 ^ 52 ≤ n ∨ f = -1074) :
    ((compare e f).then (compare m n)).Compares ((m : ℚ) * 2 ^ e) (n * 2 ^ f) := by
  rcases lt_trichotomy e f with h | rfl | h
  · rw [compare_lt_iff_lt.mpr h]
    exact lt_of_exponent_lt hm (hn'.resolve_right (by omega)) h
  · have hpos : (0 : ℚ) < 2 ^ e := by positivity
    rw [compare_eq_iff_eq.mpr rfl]
    rcases lt_trichotomy m n with hlt | rfl | hgt
    · rw [compare_lt_iff_lt.mpr hlt]
      exact mul_lt_mul_of_pos_right (Nat.cast_lt.mpr hlt) hpos
    · rw [compare_eq_iff_eq.mpr rfl]
      exact rfl
    · rw [compare_gt_iff_gt.mpr hgt]
      exact mul_lt_mul_of_pos_right (Nat.cast_lt.mpr hgt) hpos
  · rw [compare_gt_iff_gt.mpr h]
    exact lt_of_exponent_lt hn (hm'.resolve_right (by omega)) h

theorem compares_neg {order : Ordering} {q r : ℚ} (h : order.Compares q r) :
    order.swap.Compares (-q) (-r) := by
  cases order with
  | lt => exact neg_lt_neg h
  | eq => exact congrArg Neg.neg h
  | gt => exact neg_lt_neg h

/-- What the parts of a float stand for, by sign. -/
inductive Stands : UnpackedFloat → Extended → Prop where
  | bot : Stands (.infinity .negative) ⊥
  | negative {m : Nat} {e : Int} (hpos : 0 < m) (hm : m < 2 ^ 53) (he : -1074 ≤ e)
      (hleading : 2 ^ 52 ≤ m ∨ e = -1074) :
      Stands (.finite .negative m e hpos) (.ofRat (-(m * 2 ^ e)))
  | zero (sign : Sign) : Stands (.zero sign) (.ofRat 0)
  | positive {m : Nat} {e : Int} (hpos : 0 < m) (hm : m < 2 ^ 53) (he : -1074 ≤ e)
      (hleading : 2 ^ 52 ≤ m ∨ e = -1074) :
      Stands (.finite .positive m e hpos) (.ofRat (m * 2 ^ e))
  | top : Stands (.infinity .positive) ⊤

/-- The parts of a float stand for its number. -/
theorem stands_of_number {x : Float} {p : Extended} (h : number? x = some p) :
    Stands x.toModel.unpack p := by
  have hunpacks := unpacks x
  rw [number?] at h
  generalize x.toModel.unpack = u at hunpacks ⊢
  generalize Exact.ofFloat x = a at hunpacks h
  cases hunpacks with
  | nan => cases h
  | infinite sign =>
      cases h
      cases sign with
      | negative => exact .bot
      | positive => exact .top
  | zero sign =>
      rw [Exact.number?, Option.some.injEq] at h
      subst h
      have hzero : (Exact.signed (isNegative sign) 0 : ℚ) * 2 ^ (-1074 : Int) = 0 := by
        cases sign <;> simp [Exact.signed]
      rw [hzero]
      exact .zero sign
  | @finite sign m e hpos hm he hleading =>
      rw [Exact.number?, Option.some.injEq] at h
      subst h
      cases sign with
      | negative =>
          have hnegative : (Exact.signed (isNegative .negative) m : ℚ) * 2 ^ e = -(m * 2 ^ e) := by
            simp [Exact.signed, isNegative]
          rw [hnegative]
          exact .negative hpos hm he hleading
      | positive =>
          have hpositive : (Exact.signed (isNegative .positive) m : ℚ) * 2 ^ e = m * 2 ^ e := by
            simp [Exact.signed, isNegative]
          rw [hpositive]
          exact .positive hpos hm he hleading

/-- A float that stands for nothing is no number. -/
theorem unpack_of_number_eq_none {x : Float} :
    number? x = none ↔ x.toModel.unpack = .notANumber := by
  have hunpacks := unpacks x
  rw [number?]
  generalize x.toModel.unpack = u at hunpacks ⊢
  generalize Exact.ofFloat x = a at hunpacks ⊢
  cases hunpacks with
  | nan => exact iff_of_true rfl rfl
  | infinite | zero | finite => exact iff_of_false nofun nofun

/-- Unpacked floats compare as what they stand for. -/
theorem compares_unpacked {u v : UnpackedFloat} {p q : Extended} (hu : Stands u p)
    (hv : Stands v q) : ∃ order, u.compare v = some order ∧ order.Compares p q := by
  have hpositive {m : Nat} (hm : 0 < m) {e : Int} : (0 : ℚ) < m * 2 ^ e := by positivity
  have hnegative {m : Nat} (hm : 0 < m) {e : Int} : -((m : ℚ) * 2 ^ e) < 0 :=
    neg_lt_zero.mpr (hpositive hm)
  have hlt {q r : ℚ} (h : q < r) : Extended.ofRat q < .ofRat r := Extended.ofRat_strictMono h
  cases hu with
  | bot =>
      cases hv with
      | bot => exact ⟨.eq, rfl, rfl⟩
      | negative | zero | positive => exact ⟨.lt, rfl, Extended.bot_lt_ofRat _⟩
      | top => exact ⟨.lt, rfl, bot_lt_top⟩
  | @negative m e hpos hm he hleading =>
      cases hv with
      | bot => exact ⟨.gt, rfl, Extended.bot_lt_ofRat _⟩
      | negative _ hn hf hleading' =>
          exact ⟨_, rfl, Extended.compares_ofRat
            (compares_neg (compares_mantissa hm hn he hf hleading hleading'))⟩
      | zero => exact ⟨.lt, rfl, hlt (hnegative hpos)⟩
      | positive hpos' => exact ⟨.lt, rfl, hlt ((hnegative hpos).trans (hpositive hpos'))⟩
      | top => exact ⟨.lt, rfl, Extended.ofRat_lt_top _⟩
  | zero =>
      cases hv with
      | bot => exact ⟨.gt, rfl, Extended.bot_lt_ofRat _⟩
      | negative hpos' => exact ⟨.gt, rfl, hlt (hnegative hpos')⟩
      | zero => exact ⟨.eq, rfl, rfl⟩
      | positive hpos' => exact ⟨.lt, rfl, hlt (hpositive hpos')⟩
      | top => exact ⟨.lt, rfl, Extended.ofRat_lt_top _⟩
  | @positive m e hpos hm he hleading =>
      cases hv with
      | bot => exact ⟨.gt, rfl, Extended.bot_lt_ofRat _⟩
      | negative hpos' => exact ⟨.gt, rfl, hlt ((hnegative hpos').trans (hpositive hpos))⟩
      | zero => exact ⟨.gt, rfl, hlt (hpositive hpos)⟩
      | positive _ hn hf hleading' =>
          exact ⟨_, rfl, Extended.compares_ofRat
            (compares_mantissa hm hn he hf hleading hleading')⟩
      | top => exact ⟨.lt, rfl, Extended.ofRat_lt_top _⟩
  | top =>
      cases hv with
      | bot => exact ⟨.gt, rfl, bot_lt_top⟩
      | negative | zero | positive => exact ⟨.gt, rfl, Extended.ofRat_lt_top _⟩
      | top => exact ⟨.eq, rfl, rfl⟩

/-- Floats compare as what they stand for; nothing orders a float that is no number. -/
theorem compare_eq (x y : Float) :
    compare? x y = (number? x).bind fun p => (number? y).map (cmp p) := by
  show x.toModel.unpack.compare y.toModel.unpack = _
  cases hx : number? x with
  | none =>
      rw [unpack_of_number_eq_none.mp hx]
      rfl
  | some p =>
      cases hy : number? y with
      | none =>
          rw [unpack_of_number_eq_none.mp hy]
          cases x.toModel.unpack <;> rfl
      | some q =>
          obtain ⟨order, hcompare, horder⟩ :=
            compares_unpacked (stands_of_number hx) (stands_of_number hy)
          rw [hcompare]
          exact congrArg some (horder.cmp_eq).symm

section Numbers

variable {x y : Float} {p q : Extended}

theorem compare_of_number (hx : number? x = some p) (hy : number? y = some q) :
    compare? x y = some (cmp p q) := by
  rw [compare_eq, hx, hy]
  rfl

theorem lt_iff (hx : number? x = some p) (hy : number? y = some q) : x < y ↔ p < q := by
  have hlt : x < y ↔ (compare? x y == some .lt) = true := decide_eq_true_iff
  rw [hlt, compare_of_number hx hy, beq_iff_eq, Option.some.injEq, cmp_eq_lt_iff]

theorem le_iff (hx : number? x = some p) (hy : number? y = some q) : x ≤ y ↔ p ≤ q := by
  have hle : x ≤ y ↔ (compare? x y).any (·.isLE) = true := decide_eq_true_iff
  rw [hle, compare_of_number hx hy, Option.any_some, Ordering.isLE_iff_ne_gt, cmp_eq_gt_iff,
    not_lt]

/-- A float equals another one if both stand for the same. -/
theorem beq_iff (hx : number? x = some p) (hy : number? y = some q) : (x == y) = true ↔ p = q := by
  show (compare? x y == some .eq) = true ↔ p = q
  rw [compare_of_number hx hy, beq_iff_eq, Option.some.injEq, cmp_eq_eq_iff]

end Numbers

end Binary64

end Reckon
