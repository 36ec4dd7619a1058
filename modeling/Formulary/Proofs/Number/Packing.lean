import Formulary.Proofs.Number.Closest
import Formulary.Proofs.Number.Subtraction

/-!
# Rounded mantissas and their bits

Arithmetic makes a mantissa and an exponent, shifts the mantissa down to 53 bits, rounds what is
shifted out, shifts once more if that made a 54th bit, and packs the result. `Binary64.nearest`
divides two natural numbers in one step. Both make the same bits (`pack_round`): the last place is
the same one (`placeExponent_eq`), shifting down is dividing (`roundedMantissa_shiftRight`), and the
second shift is the carry into the exponent that the bits have of themselves (`pack_carried`).
-/

namespace Formulary.Binary64

open Float.Model Float.Model.UnpackedFloat

/-! ## Rounding a mantissa -/

theorem shiftRight_exact (m k : Nat) : ExtendedMantissa.ofMantissaAndAccuracy m .exact >>> (k + 1) =
    ⟨m / 2 ^ (k + 1), m / 2 ^ k % 2 != 0, m % 2 ^ k != 0⟩ := by
  induction k with
  | zero =>
    show ExtendedMantissa.mk (m / 2) (m % 2 != 0) false = _
    simp [Nat.mod_one]
  | succ k ih =>
    show (ExtendedMantissa.ofMantissaAndAccuracy m .exact >>> (k + 1)).shiftRightOne = _
    rw [ih, ExtendedMantissa.shiftRightOne]
    have hdiv : m / 2 ^ (k + 1) / 2 = m / 2 ^ (k + 2) := by
      rw [Nat.div_div_eq_div_mul, Nat.pow_succ 2 (k + 1)]
    have hmod : (m / 2 ^ k % 2 != 0 || m % 2 ^ k != 0) = (m % 2 ^ (k + 1) != 0) := by
      have hpos := Nat.two_pow_pos k
      rw [Nat.mod_pow_succ, Bool.eq_iff_iff]
      simp only [Bool.or_eq_true, bne_iff_ne]
      rcases Nat.mod_two_eq_zero_or_one (m / 2 ^ k) with h | h <;> rw [h] <;> omega
    rw [hdiv, hmod]

/-- Shifting a mantissa down and rounding what is shifted out is rounding a quotient. -/
theorem roundedMantissa_shiftRight (m k : Nat) :
    (ExtendedMantissa.ofMantissaAndAccuracy m .exact >>> k).roundedMantissa = roundDiv m (2 ^ k) := by
  cases k with
  | zero =>
    show m = _
    simp [roundDiv, Nat.mod_one]
  | succ k =>
    have hpos := Nat.two_pow_pos k
    have hlt := Nat.mod_lt m hpos
    rw [shiftRight_exact, roundDiv, Nat.mod_pow_succ, Nat.pow_succ 2 k]
    -- the first bit that is shifted out, and whether there is another one
    rcases Nat.mod_two_eq_zero_or_one (m / 2 ^ k) with hbit | hbit
    · rw [hbit, if_pos (by omega)]
      cases m % 2 ^ k != 0 <;> rfl
    · rw [hbit, if_neg (by omega)]
      by_cases hrest : m % 2 ^ k = 0
      · rw [if_neg (by omega), bne_eq_false_iff_eq.2 hrest]
        rfl
      · rw [if_pos (by omega), bne_iff_ne.2 hrest]
        rfl

theorem targetExponent_eq (m : Nat) (e : Int) : Format.binary64.targetExponent (totalExponent m e) =
    max ((m.log2 : Int) + e - 52) (-1074) := by
  show max ((m.log2 : Int) + 1 + e - 53) (-1074) = _
  omega

/-- The last place of a quotient is the one that a mantissa with its value is shifted to. -/
theorem placeExponent_eq {num den m : Nat} {e : Int} (hnum : 0 < num) (hden : 0 < den) (hm : 0 < m)
    (hvalue : (num : ℚ) / den = m * 2 ^ e) :
    placeExponent num den = Format.binary64.targetExponent (totalExponent m e) := by
  obtain ⟨hlow, hhigh⟩ := topExponent_spec hnum hden
  rw [hvalue] at hlow hhigh
  have hpow : (0 : ℚ) < 2 ^ e := by positivity
  have hmLow : (2 : ℚ) ^ m.log2 ≤ m := by exact_mod_cast Nat.log2_self_le hm.ne'
  have hmHigh : (m : ℚ) < 2 ^ (m.log2 + 1) := by exact_mod_cast Nat.lt_log2_self
  have habove : topExponent num den < m.log2 + e + 1 := by
    refine (zpow_lt_zpow_iff_right₀ (one_lt_two (α := ℚ))).1 (hlow.trans_lt ?_)
    calc (m : ℚ) * 2 ^ e < 2 ^ (m.log2 + 1) * 2 ^ e := by gcongr
      _ = 2 ^ ((m.log2 : ℤ) + e + 1) := by
        rw [add_right_comm, zpow_add₀ two_ne_zero]
        norm_cast
  have hbelow : m.log2 + e < topExponent num den + 1 := by
    refine (zpow_lt_zpow_iff_right₀ (one_lt_two (α := ℚ))).1 (lt_of_le_of_lt ?_ hhigh)
    calc (2 : ℚ) ^ ((m.log2 : ℤ) + e) = 2 ^ m.log2 * 2 ^ e := by
          rw [zpow_add₀ two_ne_zero, zpow_natCast]
      _ ≤ m * 2 ^ e := by gcongr
  rw [targetExponent_eq, placeExponent]
  omega

/-! ## Bits of packed numbers -/

theorem toNat_packComponents (s : Sign) (e : BitVec 11) (m : BitVec 52) :
    (packComponents Format.binary64 s e m).toNat =
      s.toBitVec.toNat * 2 ^ 63 + e.toNat * 2 ^ 52 + m.toNat := by
  show ((s.toBitVec ++ e) ++ m).toNat = _
  rw [BitVec.toNat_append, ← Nat.shiftLeft_add_eq_or_of_lt m.isLt, BitVec.toNat_append,
    ← Nat.shiftLeft_add_eq_or_of_lt e.isLt, Nat.shiftLeft_eq, Nat.shiftLeft_eq]
  omega

theorem eq_ofMagnitudeBits {x : Float} {s : Sign} {bits : Nat} (hbits : bits ≤ infinityBits)
    (h : x.toBits.toNat = s.toBitVec.toNat * 2 ^ 63 + bits) :
    x = ofMagnitudeBits (s == .negative) bits := by
  have hlt := infinityBits_lt
  have htwo : twoTo 63 = 2 ^ 63 := rfl
  rw [← ofMagnitudeBits_magnitudeBits x, isNegative, magnitudeBits, h, htwo]
  cases s with
  | positive =>
    have hsign : Sign.positive.toBitVec.toNat = 0 := rfl
    rw [hsign, Nat.zero_mul, Nat.zero_add, Nat.mod_eq_of_lt (by omega), decide_eq_false (by omega)]
    rfl
  | negative =>
    have hsign : Sign.negative.toBitVec.toNat = 1 := rfl
    rw [hsign, Nat.one_mul, Nat.add_mod_left, Nat.mod_eq_of_lt (by omega), decide_eq_true (by omega)]
    rfl

/-- The bits of a canonical number are its mantissa and the places of its exponent, or those of
infinity if it is too large. -/
theorem pack_finite (s : Sign) {m : Nat} {e : Int} (hm : 0 < m) (h : IsCanonical m e) :
    Float.ofModel (.pack (.finite s m e hm)) =
      ofMagnitudeBits (s == .negative) (min ((e + 1074).toNat * 2 ^ 52 + m) infinityBits) := by
  refine eq_ofMagnitudeBits (Nat.min_le_right _ _) ?_
  have hinfinity : infinityBits = 2047 * 2 ^ 52 := rfl
  have hlt := h.lt
  have hle := h.le
  have hbiased : (e + Format.binary64.exponentBias +
      Format.binary64.mantissaBitsWithoutImplicit).toNat = (e + 1075).toNat := by
    rw [Int.add_assoc]
    rfl
  show (UnpackedFloat.pack Format.binary64 (.finite s m e hm)).toNat = _
  unfold UnpackedFloat.pack
  dsimp only
  rw [hbiased]
  split
  · next hlarge =>
    change 2048 ≤ (e + 1075).toNat + 1 at hlarge
    rw [packedInfinity, toNat_packComponents]
    have hnormal := h.normal.resolve_left (by omega)
    show _ + 2047 * 2 ^ 52 + 0 = _
    omega
  · next hlarge =>
    change ¬ 2048 ≤ (e + 1075).toNat + 1 at hlarge
    split
    · next hbits =>
      change m.log2 + 1 = 53 at hbits
      have hnormal : 2 ^ 52 ≤ m := by
        have := Nat.log2_self_le hm.ne'
        rwa [Nat.succ.inj hbits] at this
      rw [toNat_packComponents, BitVec.toNat_ofNat, BitVec.toNat_ofNat]
      change _ + (e + 1075).toNat % 2 ^ 11 * 2 ^ 52 + m % 2 ^ 52 = _
      omega
    · next hbits =>
      change ¬ m.log2 + 1 = 53 at hbits
      have hsubnormal : m < 2 ^ 52 := by
        refine (Nat.log2_lt hm.ne').1 ?_
        have := (Nat.log2_lt hm.ne').2 hlt
        omega
      have he := h.normal.resolve_right (by omega)
      rw [toNat_packComponents, BitVec.toNat_ofNat, BitVec.toNat_ofNat]
      change _ + 0 % 2 ^ 11 * 2 ^ 52 + m % 2 ^ 52 = _
      omega

theorem pack_zero (s : Sign) :
    Float.ofModel (.pack (.zero s)) = ofMagnitudeBits (s == .negative) 0 := by
  cases s <;> rfl

/-! ## Rounding unpacked numbers -/

/-- An integer in places as a quotient of natural numbers. -/
theorem numerator_div_places (m : Nat) (e : Int) :
    ((m * twoTo e.toNat : Nat) : ℚ) / (twoTo (-e).toNat : Nat) = m * 2 ^ e := by
  rw [Nat.cast_mul, cast_twoTo, cast_twoTo, mul_div_assoc, pow_toNat_div]

/-- The bits of a rounded mantissa of at most 54 bits, which is shifted down once more if it has
as many. -/
theorem pack_carried (s : Sign) {r : Nat} {t : Int} (hr : r ≤ 2 ^ 53) (ht : -1074 ≤ t)
    (hnormal : t = -1074 ∨ 2 ^ 52 ≤ r) :
    Float.ofModel (.pack (
      let shifted := shiftToTargetExponent Format.binary64 r t .exact
      if h : shifted.1.mantissa = 0 then .zero s
      else .finite s shifted.1.mantissa shifted.2 (Nat.pos_of_ne_zero h))) =
      ofMagnitudeBits (s == .negative) (min ((t + 1074).toNat * 2 ^ 52 + r) infinityBits) := by
  have hshifted : (shiftToTargetExponent Format.binary64 r t .exact).1.mantissa =
      r / 2 ^ (r.log2 - 52) := by
    unfold shiftToTargetExponent shiftToExponent
    dsimp only
    rw [mantissa_shiftRight, mantissa_ofMantissaAndAccuracy, shiftAmount_eq ht]
  have hexponent : (shiftToTargetExponent Format.binary64 r t .exact).2 =
      t + (r.log2 - 52 : Nat) := by
    show t + ((_ : Int).toNat : Int) = _
    rw [shiftAmount_eq ht]
  dsimp only
  simp only [hshifted, hexponent]
  rcases Nat.eq_zero_or_pos r with rfl | hpos
  · rw [dif_pos (by simp), pack_zero, hnormal.resolve_right (by omega)]
    rfl
  · obtain ⟨hpos', hlt⟩ := shifted_pos_lt hpos
    rw [dif_neg (by omega)]
    rcases Nat.lt_or_ge r (2 ^ 53) with hsmall | hlarge
    · have hlog : r.log2 - 52 = 0 := by
        have := (Nat.log2_lt hpos.ne').2 hsmall
        omega
      have hcanonical : IsCanonical r t := ⟨hpos, hsmall, ht, hnormal⟩
      simp only [hlog, Nat.pow_zero, Nat.div_one, Int.natCast_zero, Int.add_zero]
      exact pack_finite s hpos hcanonical
    · obtain rfl : r = 2 ^ 53 := by omega
      have hlog : (2 ^ 53).log2 - 52 = 1 := by rw [Nat.log2_two_pow]
      have hcanonical : IsCanonical (2 ^ 52) (t + 1) := ⟨by omega, by omega, by omega, .inr (by omega)⟩
      have hbits : (t + 1 + 1074).toNat * 2 ^ 52 + 2 ^ 52 = (t + 1074).toNat * 2 ^ 52 + 2 ^ 53 := by
        omega
      simp only [hlog]
      rw [← hbits]
      exact pack_finite s (by omega) hcanonical

section Round

variable {num den m : Nat} {e : Int} (hnum : 0 < num) (hden : 0 < den) (hm : 0 < m)
  (hvalue : (num : ℚ) / den = m * 2 ^ e)
include hnum hden hm hvalue

theorem pack_roundWithAccuracy (s : Sign)
    (he : e ≤ Format.binary64.targetExponent (totalExponent m e)) :
    Float.ofModel (.pack (roundWithAccuracy Format.binary64 s m e .exact)) =
      nearest (s == .negative) num den := by
  have hplace := placeExponent_eq hnum hden hm hvalue
  obtain ⟨r, hround, hr, hnormal, hbits⟩ := exists_nearestBits_eq hnum hden
  rw [hvalue, hplace] at hround
  rw [hplace] at hnormal hbits
  generalize ht : Format.binary64.targetExponent (totalExponent m e) = t at *
  have hle : -1074 ≤ t := ht ▸ Int.le_max_right _ _
  have hshift : e + ((t - e).toNat : Int) = t := by omega
  -- the first shift rounds the quotient
  have hrounded : roundDiv m (2 ^ (t - e).toNat) = r := by
    have hquotient : (m : ℚ) / (2 ^ (t - e).toNat : Nat) = m * 2 ^ e / 2 ^ t := by
      rw [Nat.cast_pow, Nat.cast_ofNat, ← zpow_natCast, Int.toNat_of_nonneg (by omega),
        zpow_sub₀ two_ne_zero, div_div_eq_mul_div]
    have hshifted := isHalfEven_roundDiv m (Nat.two_pow_pos (t - e).toNat)
    rw [hquotient] at hshifted
    exact_mod_cast hround.unique hshifted
  rw [nearest, hbits]
  refine Eq.trans ?_ (pack_carried s hr hle hnormal)
  unfold roundWithAccuracy
  rw [shiftToTargetExponent, ht, shiftToExponent]
  dsimp only
  rw [roundedMantissa_shiftRight, hrounded, hshift]

/-- A mantissa is rounded to the number nearest to its value. -/
theorem pack_round (s : Sign) : Float.ofModel (.pack (UnpackedFloat.round Format.binary64 s m e)) =
    nearest (s == .negative) num den := by
  unfold UnpackedFloat.round decreaseExponent
  dsimp only
  have hplace := placeExponent_eq hnum hden hm hvalue
  generalize Format.binary64.targetExponent (totalExponent m e) = t at *
  -- filling up with zeros leaves the value and the place
  have hpow : (2 : ℚ) ^ (e - t).toNat * 2 ^ (e - ((e - t).toNat : Int)) = 2 ^ e := by
    rw [← zpow_natCast, ← zpow_add₀ two_ne_zero, add_sub_cancel]
  have hfilled : (num : ℚ) / den =
      (m <<< (e - t).toNat : Nat) * 2 ^ (e - ((e - t).toNat : Int)) := by
    rw [Nat.shiftLeft_eq, Nat.cast_mul, Nat.cast_pow, Nat.cast_ofNat, mul_assoc, hpow, hvalue]
  have hpos : 0 < m <<< (e - t).toNat := by
    rw [Nat.shiftLeft_eq]
    exact Nat.mul_pos hm (Nat.two_pow_pos _)
  refine pack_roundWithAccuracy hnum hden hpos hfilled s ?_
  rw [← placeExponent_eq hnum hden hpos hfilled, hplace]
  omega

end Round

end Formulary.Binary64
