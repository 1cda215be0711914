import Reckon.Proofs.Number.Ordering

/-!
# The whole part of a float

Truncating a float clears the bits behind its point, so it is exact (`number_truncate`). The float
that is left over is rounded, but has the sign of what is left over (`compare_fraction`).
-/

namespace Reckon

/-- The integer toward zero from an exact number. -/
def Exact.whole : Exact → Int
  | .finite negative significand exponent =>
    signed negative (significand * 2 ^ exponent.toNat / 2 ^ (-exponent).toNat)
  | _ => 0

theorem Exact.cast_signed (negative : Bool) (n : Nat) :
    (signed negative n : ℚ) = (if negative then -1 else 1) * n := by
  cases negative <;> simp [signed]

namespace Binary64

open Float.Model
open Float.Model.UnpackedFloat

/-- Clearing last bits leaves the bits in front of them, and clears those behind. -/
theorem clear_bits (bits : Nat) {count width : Nat} (h : count ≤ width) :
    bits / 2 ^ count * 2 ^ count / 2 ^ width = bits / 2 ^ width ∧
      bits / 2 ^ count * 2 ^ count % 2 ^ width = bits % 2 ^ width / 2 ^ count * 2 ^ count := by
  obtain ⟨more, rfl⟩ := Nat.exists_eq_add_of_le h
  have hpos := Nat.two_pow_pos count
  rw [Nat.pow_add]
  constructor
  · rw [Nat.mul_comm (bits / 2 ^ count), Nat.mul_div_mul_left _ _ hpos, Nat.div_div_eq_div_mul]
  · rw [Nat.mul_comm (bits / 2 ^ count), Nat.mul_mod_mul_left, Nat.mod_mul_right_div_self,
      Nat.mul_comm]

/-- Bits that are not those of an infinity or of no number are kept by the float that they make. -/
theorem toBits_ofBits {bits : UInt64} (h : bits.toNat / 0x10000000000000 % 0x800 ≠ 2047) :
    (Float.ofBits bits).toBits = bits := by
  have hexponent : @unpackExponent Format.binary64 bits.toBitVec ≠ -1#11 := by
    intro heq
    have hfull := congrArg BitVec.toNat heq
    rw [toNat_unpackExponent, UInt64.toNat_toBitVec] at hfull
    exact h hfull
  have hnan : @isNaNBits Format.binary64 bits.toBitVec = false :=
    decide_eq_false fun hnan => hexponent hnan.1
  have hpack := @pack_unpack Format.binary64 bits.toBitVec (by decide)
  rw [hnan, if_neg Bool.false_ne_true] at hpack
  exact UInt64.toBitVec_inj.mp hpack

/-- The number of a finite float, by the fields of its bits. -/
inductive Fields (bits : Nat) : Exact → Prop where
  | subnormal (h : bits / 0x10000000000000 % 0x800 = 0) :
      Fields bits (.finite (bits / 0x8000000000000000 == 1) (bits % 0x10000000000000) (-1074))
  | normal {biased : Nat} (h : bits / 0x10000000000000 % 0x800 = biased) (hpos : 0 < biased)
      (hlt : biased < 2047) :
      Fields bits (.finite (bits / 0x8000000000000000 == 1)
        (0x10000000000000 + bits % 0x10000000000000) (biased - 1075))

/-- A finite float has its number from its fields. -/
theorem fields_of_finite {x : Float} {negative : Bool} {m : Nat} {e : Int}
    (h : Exact.ofFloat x = .finite negative m e) :
    Fields x.toBits.toNat (.finite negative m e) := by
  have hlt : x.toBits.toNat / 0x10000000000000 % 0x800 < 0x800 := Nat.mod_lt _ (by decide)
  rw [← h]
  unfold Exact.ofFloat at h ⊢
  simp only at h ⊢
  split at h
  · split at h <;> cases h
  · next hfinite =>
      rw [if_neg hfinite]
      by_cases hsmall : x.toBits.toNat / 0x10000000000000 % 0x800 = 0
      · rw [if_pos hsmall]
        exact .subnormal hsmall
      · rw [if_neg hsmall]
        exact .normal rfl (by omega) (by omega)

/-- A float that is made of the fields of a finite number stands for it. -/
theorem ofFloat_ofBits {bits : Nat} {number : Exact} (hlt : bits < 2 ^ 64)
    (h : Fields bits number) : Exact.ofFloat (Float.ofBits (UInt64.ofNat bits)) = number := by
  have hbits : (UInt64.ofNat bits).toNat = bits := Nat.mod_eq_of_lt hlt
  have hfinite : bits / 0x10000000000000 % 0x800 ≠ 2047 := by
    cases h with
    | subnormal h => omega
    | normal h hpos hlt => omega
  have hmade : (Float.ofBits (UInt64.ofNat bits)).toBits = UInt64.ofNat bits :=
    toBits_ofBits (by rwa [hbits])
  unfold Exact.ofFloat
  simp only [hmade, hbits]
  rw [if_neg hfinite]
  cases h with
  | subnormal h => rw [if_pos h]
  | normal h hpos hlt => rw [if_neg (by omega), h]

theorem zpow_eq_div (e : Int) : (2 : ℚ) ^ e = 2 ^ e.toNat / 2 ^ (-e).toNat := by
  rw [← zpow_natCast, ← zpow_natCast, ← zpow_sub₀ two_ne_zero, Int.toNat_sub_toNat_neg]

/-- A significand without the bits behind the point makes a whole number. -/
theorem cleared_mul (m : Nat) (e : Int) :
    ((m / 2 ^ (-e).toNat * 2 ^ (-e).toNat : Nat) : ℚ) * 2 ^ e =
      (m * 2 ^ e.toNat / 2 ^ (-e).toNat : Nat) := by
  have hpos : (2 : ℚ) ^ (-e).toNat ≠ 0 := by positivity
  rw [zpow_eq_div]
  rcases le_total e 0 with hle | hle
  · rw [Int.toNat_of_nonpos hle]
    push_cast
    rw [pow_zero, mul_one_div, mul_div_cancel_right₀ _ hpos, mul_one]
  · rw [Int.toNat_of_nonpos (neg_nonpos.mpr hle)]
    simp

/-- The quotient of a significand by its exponent, rounded down. -/
theorem floor_near (m : Nat) (e : Int) :
    ((m * 2 ^ e.toNat / 2 ^ (-e).toNat : Nat) : ℚ) ≤ m * 2 ^ e ∧
      (m : ℚ) * 2 ^ e < (m * 2 ^ e.toNat / 2 ^ (-e).toNat : Nat) + 1 := by
  have hvalue : (m : ℚ) * 2 ^ e = (m * 2 ^ e.toNat : Nat) / (2 ^ (-e).toNat : Nat) := by
    rw [zpow_eq_div]
    push_cast
    rw [mul_div_assoc]
  rw [hvalue, ← Nat.floor_div_eq_div (K := ℚ)]
  exact ⟨Nat.floor_le (by positivity), Nat.lt_floor_add_one _⟩

theorem whole_of_lt {negative : Bool} {m : Nat} {e : Int} (hm : m < 2 ^ 53) (he : e ≤ -53) :
    Exact.whole (.finite negative m e) = 0 := by
  have hplace : 2 ^ 53 ≤ 2 ^ (-e).toNat := Nat.pow_le_pow_right (by decide) (by omega)
  have hzero : e.toNat = 0 := by omega
  rw [Exact.whole, hzero, Nat.pow_zero, Nat.mul_one,
    Nat.div_eq_of_lt (Nat.lt_of_lt_of_le hm hplace)]
  cases negative <;> rfl

theorem fields_clear_all (bits : Nat) :
    Fields (bits / 2 ^ 63 * 2 ^ 63) (.finite (bits / 0x8000000000000000 == 1) 0 (-1074)) := by
  have hsign : bits / 2 ^ 63 * 2 ^ 63 / 0x8000000000000000 = bits / 0x8000000000000000 := by omega
  have hmantissa : bits / 2 ^ 63 * 2 ^ 63 % 0x10000000000000 = 0 := by omega
  have hfields := Fields.subnormal (show bits / 2 ^ 63 * 2 ^ 63 / 0x10000000000000 % 0x800 = 0 by
    omega)
  rwa [hsign, hmantissa] at hfields

/-- Clearing last bits of the mantissa clears these bits of the significand. -/
theorem fields_clear {bits biased count : Nat} (h : bits / 0x10000000000000 % 0x800 = biased)
    (hpos : 0 < biased) (hlt : biased < 2047) (hcount : count ≤ 52) :
    Fields (bits / 2 ^ count * 2 ^ count) (.finite (bits / 0x8000000000000000 == 1)
      ((0x10000000000000 + bits % 0x10000000000000) / 2 ^ count * 2 ^ count) (biased - 1075)) := by
  have hcleared : bits / 2 ^ count * 2 ^ count / 0x10000000000000 = bits / 0x10000000000000 ∧
      bits / 2 ^ count * 2 ^ count % 0x10000000000000 =
        bits % 0x10000000000000 / 2 ^ count * 2 ^ count := clear_bits bits hcount
  have hleading : 0x10000000000000 + bits % 0x10000000000000 / 2 ^ count * 2 ^ count =
      (0x10000000000000 + bits % 0x10000000000000) / 2 ^ count * 2 ^ count := by
    have hdvd : 2 ^ count ∣ 0x10000000000000 := pow_dvd_pow 2 hcount
    rw [Nat.add_div_of_dvd_right hdvd, Nat.add_mul, Nat.div_mul_cancel hdvd]
  generalize bits / 2 ^ count * 2 ^ count = cleared at *
  obtain ⟨hfront, hbehind⟩ := hcleared
  have hsign : cleared / 0x8000000000000000 = bits / 0x8000000000000000 := by omega
  have hfields := Fields.normal (show cleared / 0x10000000000000 % 0x800 = biased by
    rw [hfront, h]) hpos hlt
  rwa [hsign, hbehind, hleading] at hfields

/-- Truncating a finite number keeps some of its significand, which makes the whole part of it. -/
theorem ofFloat_truncate {x : Float} {negative : Bool} {m : Nat} {e : Int}
    (h : Exact.ofFloat x = .finite negative m e) :
    ∃ kept place, Exact.ofFloat (truncate x) = .finite negative kept place ∧ kept ≤ m ∧
      (kept = 0 ∨ place = e) ∧
      (Exact.signed negative kept : ℚ) * 2 ^ place = Exact.whole (.finite negative m e) := by
  have hbits : x.toBits.toNat < 2 ^ 64 := x.toBits.toNat_lt
  have hfields := fields_of_finite h
  clear h
  unfold truncate
  simp only
  generalize x.toBits.toNat = bits at hbits hfields ⊢
  have hcleared (count : Nat) : bits / Nat.pow 2 count * Nat.pow 2 count < 2 ^ 64 :=
    Nat.lt_of_le_of_lt (Nat.div_mul_le_self bits _) hbits
  by_cases hsmall : bits / 0x10000000000000 % 0x800 < 1023
  · -- Below one nothing but the sign is kept.
    have hfinite : negative = (bits / 0x8000000000000000 == 1) ∧ m < 2 ^ 53 ∧ e ≤ -53 := by
      cases hfields with
      | subnormal h => exact ⟨rfl, by omega, by omega⟩
      | normal h => exact ⟨rfl, by omega, by omega⟩
    obtain ⟨rfl, hm, he⟩ := hfinite
    rw [if_pos hsmall, whole_of_lt hm he]
    refine ⟨0, -1074, ofFloat_ofBits (hcleared 63) (fields_clear_all bits), Nat.zero_le _,
      .inl rfl, ?_⟩
    rw [Exact.cast_signed, Nat.cast_zero, mul_zero, zero_mul, Int.cast_zero]
  · rw [if_neg hsmall]
    cases hfields with
    | subnormal hbiased => omega
    | @normal biased hbiased hpos hlt =>
        have hplace : 1075 - biased = (-((biased : Int) - 1075)).toNat := by omega
        rw [hbiased]
        refine ⟨_, _, ofFloat_ofBits (hcleared _) (fields_clear hbiased hpos hlt (by omega)),
          Nat.div_mul_le_self _ _, .inr rfl, ?_⟩
        rw [Exact.whole, Exact.cast_signed, Exact.cast_signed, hplace, mul_assoc, cleared_mul]

/-- The whole part of a float. -/
def whole (x : Float) : Int :=
  (Exact.ofFloat x).whole

section Finite

variable {x : Float} {q : ℚ}

/-- A float that stands for a rational number is finite. -/
theorem exists_finite (h : number? x = some (.ofRat q)) :
    ∃ negative m e, Exact.ofFloat x = .finite negative m e ∧
      (Exact.signed negative m : ℚ) * 2 ^ e = q := by
  rw [number?] at h
  generalize Exact.ofFloat x = number at h ⊢
  cases number with
  | nan => cases h
  | infinite negative =>
      have hq := Option.some.inj h
      cases negative with
      | true => exact absurd hq (Extended.bot_lt_ofRat q).ne
      | false => exact absurd hq (Extended.ofRat_lt_top q).ne'
  | finite negative m e =>
      exact ⟨negative, m, e, rfl, Extended.ofRat_strictMono.injective (Option.some.inj h)⟩

/-- Truncating is exact. -/
theorem number_truncate (h : number? x = some (.ofRat q)) :
    number? (truncate x) = some (.ofRat (whole x)) := by
  obtain ⟨negative, m, e, hx, -⟩ := exists_finite h
  obtain ⟨kept, place, htruncate, -, -, hwhole⟩ := ofFloat_truncate hx
  rw [number?, htruncate, Exact.number?, hwhole, whole, hx]

/-- The whole part of a float is the integer next to it toward zero. -/
theorem whole_near (h : number? x = some (.ofRat q)) :
    (0 ≤ q → (whole x : ℚ) ≤ q ∧ q < whole x + 1) ∧
      (q ≤ 0 → (whole x : ℚ) - 1 < q ∧ q ≤ whole x) := by
  obtain ⟨negative, m, e, hx, rfl⟩ := exists_finite h
  obtain ⟨hlow, hhigh⟩ := floor_near m e
  have hpos : (0 : ℚ) ≤ m * 2 ^ e := by positivity
  have hfloor : (0 : ℚ) ≤ (m * 2 ^ e.toNat / 2 ^ (-e).toNat : Nat) := Nat.cast_nonneg _
  rw [whole, hx, Exact.whole, Exact.cast_signed, Exact.cast_signed, mul_assoc]
  cases negative with
  | false =>
      simp only [Bool.false_eq_true, if_false, one_mul]
      refine ⟨fun _ => ⟨hlow, hhigh⟩, fun hzero => ⟨?_, ?_⟩⟩ <;> linarith
  | true =>
      simp only [if_true, neg_one_mul]
      refine ⟨fun hzero => ⟨?_, ?_⟩, fun _ => ⟨?_, ?_⟩⟩ <;> linarith

/-- The conversion to an integer takes the whole part. -/
theorem toInt_unpack (low high : Int) (h : number? x = some (.ofRat q)) :
    x.toModel.unpack.toInt low high = whole x := by
  obtain ⟨negative, m, e, hx, -⟩ := exists_finite h
  have hunpacks := unpacks x
  rw [whole, hx]
  rw [hx] at hunpacks
  generalize x.toModel.unpack = u at hunpacks ⊢
  cases hunpacks with
  | zero sign =>
      rw [whole_of_lt (by decide) (by decide)]
      rfl
  | finite sign hpos =>
      show roundToInt sign m e = _
      have hplace : (0 - (e - (e.toNat : Int))).toNat = (-e).toNat := by omega
      simp only [roundToInt, decreaseExponent, shiftToExponent, mantissa_shiftRight,
        mantissa_ofMantissaAndAccuracy, Nat.shiftLeft_eq, sub_zero, hplace]
      cases sign <;> rfl

/-- A whole number is its own whole part. -/
theorem whole_of_number {t : Int} (h : number? x = some (.ofRat t)) : whole x = t := by
  obtain ⟨hpositive, hnegative⟩ := whole_near h
  rcases le_total 0 t with ht | ht
  · obtain ⟨hlow, hhigh⟩ := hpositive (Int.cast_nonneg ht)
    have hlow : whole x ≤ t := Int.cast_le.mp hlow
    have hhigh : t < whole x + 1 := by exact_mod_cast hhigh
    omega
  · obtain ⟨hlow, hhigh⟩ := hnegative (Int.cast_nonpos.mpr ht)
    have hlow : whole x - 1 < t := by exact_mod_cast hlow
    have hhigh : t ≤ whole x := Int.cast_le.mp hhigh
    omega

/-- The conversion of a float in range gives its whole part. -/
theorem toInt_toInt64 (h : number? x = some (.ofRat q)) (hlow : -2 ^ 63 ≤ whole x)
    (hhigh : whole x < 2 ^ 63) : x.toModel.toInt64.toInt = whole x := by
  show (Int64.ofIntClamp (x.toModel.unpack.toInt _ _)).toInt = _
  rw [toInt_unpack _ _ h]
  refine Int64.toInt_ofIntClamp ?_ ?_
  · rwa [Int64.toInt_minValue]
  · rw [Int64.toInt_maxValue]
    omega

theorem sub_finite (sign : Sign) {m n : Nat} (e : Int) (hm : 0 < m) (hn : 0 < n) :
    UnpackedFloat.sub Format.binary64 (.finite sign m e hm) (.finite sign n e hn) =
      UnpackedFloat.normalize Format.binary64 (sign.apply m - sign.apply n) e .positive := by
  simp [UnpackedFloat.sub, decreaseExponent]

/-- A float is packed from its parts. -/
theorem pack_unpack_toModel (x : Float) : Float.Model.pack x.toModel.unpack = x.toModel := by
  obtain ⟨⟨bits, hvalid⟩⟩ := x
  have hpack : UnpackedFloat.pack Format.binary64
      (UnpackedFloat.unpack Format.binary64 bits.toBitVec) = bits.toBitVec :=
    pack_unpack_of_valid hvalid
  simp only [Float.Model.pack, Float.Model.unpack, hpack]

theorem number_zero : number? 0 = some (.ofRat 0) := by
  have hzero : Exact.ofFloat 0 = .finite false 0 (-1074) := rfl
  rw [number?, hzero, Exact.number?, Exact.cast_signed, Nat.cast_zero, mul_zero, zero_mul]

theorem isNegative_injective : Function.Injective isNegative := by
  intro a b h
  cases a <;> cases b <;> first | rfl | cases h

theorem signed_isNegative (sign : Sign) (n : Nat) :
    Exact.signed (isNegative sign) n = sign.apply n := by
  cases sign <;> rfl

theorem unpack_pack_zero (sign : Sign) :
    (Float.Model.pack (.zero sign)).unpack = .zero sign :=
  unpack_packedZero

/-- A rounded number is on the same side of zero as the number itself. -/
theorem compare_normalize (d : Int) {e : Int} (he : -1074 ≤ e) :
    (UnpackedFloat.zero .positive).compare
        (Float.Model.pack (UnpackedFloat.normalize Format.binary64 d e .positive)).unpack =
      some (cmp 0 d) := by
  unfold UnpackedFloat.normalize
  rcases lt_trichotomy d 0 with hlt | rfl | hgt
  · obtain ⟨m, f, hpos, hround, hm, hf⟩ :=
      exists_round .negative (show 0 < (-d).toNat by omega) he
    rw [compare_lt_iff_lt.mpr hlt, (cmp_eq_gt_iff 0 d).mpr hlt]
    simp only [hround]
    rcases @unpack_pack .negative _ _ hpos hm hf with hpack | ⟨_, _, _, hpack⟩ <;>
      rw [hpack] <;> rfl
  · rw [compare_eq_iff_eq.mpr rfl, cmp_self_eq_eq]
    show (UnpackedFloat.zero .positive).compare (Float.Model.pack (.zero .positive)).unpack = _
    rw [unpack_pack_zero]
    rfl
  · obtain ⟨m, f, hpos, hround, hm, hf⟩ :=
      exists_round .positive (show 0 < d.toNat by omega) he
    rw [compare_gt_iff_gt.mpr hgt, (cmp_eq_lt_iff 0 d).mpr hgt]
    simp only [hround]
    rcases @unpack_pack .positive _ _ hpos hm hf with hpack | ⟨_, _, _, hpack⟩ <;>
      rw [hpack] <;> rfl

/-- A number is the sum of its whole part and of what is left over. -/
theorem cmp_add_mul (t : ℚ) (d : Int) (e : Int) : cmp t (t + d * 2 ^ e) = cmp 0 d := by
  have hpos : (0 : ℚ) < 2 ^ e := by positivity
  calc cmp t (t + d * 2 ^ e) = cmp (t + 0 * 2 ^ e) (t + d * 2 ^ e) := by rw [zero_mul, add_zero]
    _ = cmp ((0 : ℚ) * 2 ^ e) (d * 2 ^ e) := cmp_add_left _ _ _
    _ = cmp ((0 : Int) : ℚ) d := by rw [cmp_mul_pos_right hpos, Int.cast_zero]
    _ = cmp 0 d := Int.cast_strictMono.cmp_map_eq 0 d

/-- The parts of a finite number: those of a zero, or its sign, its significand and its exponent. -/
theorem Unpacks.finite_cases {u : UnpackedFloat} {negative : Bool} {m : Nat} {e : Int}
    (h : Unpacks u (.finite negative m e)) :
    (m = 0 ∧ ∃ sign, u = .zero sign) ∨
      ∃ sign, ∃ hpos : 0 < m, u = .finite sign m e hpos ∧ isNegative sign = negative ∧
        -1074 ≤ e := by
  generalize hnumber : Exact.finite negative m e = number at h
  cases h with
  | nan => cases hnumber
  | infinite => cases hnumber
  | zero sign =>
      cases hnumber
      exact .inl ⟨rfl, sign, rfl⟩
  | finite sign hpos hm he =>
      cases hnumber
      exact .inr ⟨sign, hpos, rfl, rfl, he⟩

/-- What is left over behind the point has the sign of the difference to the whole part. -/
theorem compare_fraction (h : number? x = some (.ofRat q)) :
    compare? 0 (fraction x) = some (cmp (whole x : ℚ) q) := by
  obtain ⟨negative, m, e, hx, rfl⟩ := exists_finite h
  obtain ⟨kept, place, htruncate, hle, hplace, hwhole⟩ := ofFloat_truncate hx
  rw [← hx, ← whole] at hwhole
  have hu := unpacks x
  have hw := unpacks (truncate x)
  rw [hx] at hu
  rw [htruncate] at hw
  show (UnpackedFloat.zero .positive).compare (Float.Model.pack (UnpackedFloat.sub Format.binary64
    x.toModel.unpack (truncate x).toModel.unpack)).unpack = _
  rcases hw.finite_cases with ⟨rfl, zero, hw⟩ | ⟨sign, hkept, hw, hsign, -⟩
  · -- Nothing is kept, and the float itself is left over.
    have hzero : (whole x : ℚ) = 0 := by
      rw [← hwhole, Exact.cast_signed, Nat.cast_zero, mul_zero, zero_mul]
    rcases hu.finite_cases with ⟨rfl, other, hu⟩ | ⟨sign, hpos, hu, -, -⟩
    · have hsub : ∃ sign, UnpackedFloat.sub Format.binary64 (.zero other) (.zero zero) =
          .zero sign := by
        cases other <;> cases zero <;> exact ⟨_, rfl⟩
      obtain ⟨sign, hsub⟩ := hsub
      rw [hu, hw, hsub, unpack_pack_zero, hzero, Exact.cast_signed, Nat.cast_zero, mul_zero,
        zero_mul, cmp_self_eq_eq]
      rfl
    · have hsub : UnpackedFloat.sub Format.binary64 x.toModel.unpack (.zero zero) =
          x.toModel.unpack := by
        rw [hu]
        rfl
      rw [hw, hsub, pack_unpack_toModel, hzero, ← Extended.ofRat_strictMono.cmp_map_eq]
      exact compare_of_number number_zero h
  · have hpos : 0 < m := Nat.lt_of_lt_of_le hkept hle
    rcases hu.finite_cases with ⟨rfl, -⟩ | ⟨other, hpos, hu, hother, he⟩
    · exact absurd hpos (Nat.lt_irrefl 0)
    · obtain rfl := hplace.resolve_left (Nat.ne_of_gt hkept)
      obtain rfl : sign = other := isNegative_injective (hsign.trans hother.symm)
      rw [hu, hw, sub_finite, compare_normalize _ he, ← hwhole, ← hsign, signed_isNegative,
        signed_isNegative, ← cmp_add_mul (sign.apply kept * 2 ^ place)]
      push_cast
      ring_nf

end Finite

end Binary64

end Reckon
