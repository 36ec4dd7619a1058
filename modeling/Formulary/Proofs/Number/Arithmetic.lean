import Formulary.Proofs.Number.Numeral
import Formulary.Proofs.Number.Packing

/-!
# Arithmetic is rounded to the nearest number

A finite number has a value, a rational number (`toRat`), and it is unpacked as a zero or as a
canonical mantissa and exponent with this value (`unpack_of_isFinite`). Sums and differences of
finite numbers are computed exactly, as integers in the lower of two places, and products as
products of mantissas. Then they are rounded once: the result is the number nearest to the exact
one, or an infinity where that is too large (`isRoundedTo_add`, `isRoundedTo_sub`,
`isRoundedTo_mul`). A natural number of up to 53 bits is converted without an error (`toRat_ofNat`),
and `floor` is the integer part of the value (`floor_eq`).
-/

namespace Formulary.Binary64

open Float.Model Float.Model.UnpackedFloat

/-! ## Unpacked numbers and their values -/

/-- The value of an unpacked number, if it is finite. -/
def value : UnpackedFloat → ℚ
  | .finite s m e _ => s.apply m * 2 ^ e
  | _ => 0

@[simp] theorem value_zero (s : Sign) : value (.zero s) = 0 := rfl

/-- The absolute value of an unpacked number has no sign. -/
theorem abs_value (s : Sign) {m : Nat} {e : Int} (hm : 0 < m) :
    |value (.finite s m e hm)| = m * 2 ^ e := by
  have hpow : (0 : ℚ) < 2 ^ e := by positivity
  have hsign : |((s.apply m : Int) : ℚ)| = m := by cases s <;> simp [Sign.apply]
  rw [value, abs_mul, hsign, abs_of_pos hpow]

/-- A zero or a canonical number. -/
inductive IsCanonicalOrZero : UnpackedFloat → Prop where
  | zero (s : Sign) : IsCanonicalOrZero (.zero s)
  | finite (s : Sign) {m : Nat} {e : Int} (hm : 0 < m) (h : IsCanonical m e) :
    IsCanonicalOrZero (.finite s m e hm)

/-- No bits are the number zero. -/
theorem ofMagnitudeBits_zero (negative : Bool) :
    isFinite (ofMagnitudeBits negative 0) = true ∧ toRat (ofMagnitudeBits negative 0) = 0 := by
  have hbits := magnitudeBits_ofMagnitudeBits negative (Nat.zero_le infinityBits)
  refine ⟨?_, ?_⟩
  · rw [isFinite, hbits]
    rfl
  · rw [← abs_eq_zero, abs_toRat, magnitude, mantissa_eq_zero hbits, Nat.cast_zero, zero_mul]

/-- The number that a canonical mantissa and exponent make has their value. -/
theorem ofMagnitudeBits_canonical (s : Sign) {m : Nat} {e : Int} (h : IsCanonical m e)
    (hsmall : (e + 1074).toNat * 2 ^ 52 + m < infinityBits) :
    isFinite (ofMagnitudeBits (s == .negative) ((e + 1074).toNat * 2 ^ 52 + m)) = true ∧
      toRat (ofMagnitudeBits (s == .negative) ((e + 1074).toNat * 2 ^ 52 + m)) =
        s.apply m * 2 ^ e := by
  have hbits := magnitudeBits_ofMagnitudeBits (s == .negative) hsmall.le
  have hsign := isNegative_ofMagnitudeBits (s == .negative) hsmall.le
  have hlt := h.lt
  obtain ⟨hmagnitude, -⟩ := magnitude_eq_of_bits h.le (by omega) h.normal hbits
  refine ⟨?_, ?_⟩
  · rw [isFinite, hbits]
    exact decide_eq_true hsmall
  · rw [toRat, hsign, hmagnitude]
    cases s <;> simp [Sign.apply]

/-- A canonical number is packed as the number with its value, unless it is too large. -/
theorem toRat_pack {u : UnpackedFloat} (hu : IsCanonicalOrZero u) (hlt : |value u| < overflow) :
    isFinite (Float.ofModel (.pack u)) = true ∧ toRat (Float.ofModel (.pack u)) = value u := by
  cases hu with
  | zero s =>
    rw [pack_zero]
    exact ofMagnitudeBits_zero _
  | @finite s m e hm h =>
    have hpow : (0 : ℚ) < 2 ^ e := by positivity
    have he : e ≤ 971 := by
      by_contra hlarge
      have hnormal : (2 ^ 52 : ℚ) ≤ m := by
        exact_mod_cast h.normal.resolve_left (by omega)
      have hle : overflow ≤ m * 2 ^ e :=
        (overflow_le (not_le.1 hlarge)).trans (mul_le_mul_of_nonneg_right hnormal hpow.le)
      rw [abs_value] at hlt
      exact absurd hlt (not_lt.2 hle)
    have hinfinity : infinityBits = 2047 * 2 ^ 52 := rfl
    have hm' := h.lt
    have hsmall : (e + 1074).toNat * 2 ^ 52 + m < infinityBits := by omega
    rw [pack_finite s hm h, Nat.min_eq_left hsmall.le]
    exact ofMagnitudeBits_canonical s h hsmall

/-- A finite number is unpacked as a zero or a canonical number, with its value. -/
theorem unpack_of_isFinite {x : Float} (hx : isFinite x = true) :
    IsCanonicalOrZero x.toModel.unpack ∧ value x.toModel.unpack = toRat x := by
  have hpack := ofModel_pack_unpack x
  cases hu : x.toModel.unpack with
  | notANumber =>
    rw [hu] at hpack
    subst hpack
    cases hx
  | infinity s =>
    rw [hu] at hpack
    subst hpack
    cases s <;> cases hx
  | zero s =>
    rw [hu, pack_zero] at hpack
    rw [← hpack, (ofMagnitudeBits_zero _).2]
    exact ⟨.zero s, rfl⟩
  | finite s m e hm =>
    have h := isCanonical_of_unpack_toModel hu
    rw [hu, pack_finite s hm h] at hpack
    have hsmall : (e + 1074).toNat * 2 ^ 52 + m < infinityBits := by
      rw [← hpack, isFinite, magnitudeBits_ofMagnitudeBits _ (Nat.min_le_right _ _)] at hx
      have := of_decide_eq_true hx
      omega
    rw [Nat.min_eq_left hsmall.le] at hpack
    rw [← hpack, (ofMagnitudeBits_canonical s h hsmall).2]
    exact ⟨.finite s hm h, rfl⟩

/-! ## Sums and differences -/

/-- `x` is what the number `q` is rounded to: the nearest finite number, or the infinity on its side
of zero if it is too large for one. -/
structure IsRoundedTo (q : ℚ) (x : Float) : Prop where
  nearest : |q| < overflow → IsNearest q x
  infinite : overflow ≤ |q| → magnitudeBits x = infinityBits ∧ isNegative x = decide (q < 0)

/-- A number is its absolute value with its sign. -/
theorem signed_abs (q : ℚ) : signed (decide (q < 0)) |q| = q := by
  by_cases hq : q < 0
  · rw [decide_eq_true hq, abs_of_neg hq, signed, if_pos rfl, neg_neg]
  · rw [decide_eq_false hq, abs_of_nonneg (not_lt.1 hq), signed, if_neg Bool.false_ne_true]

/-- A rounded absolute value, with the sign, is a rounded number. -/
theorem IsRounding.isRoundedTo {q : ℚ} {x : Float} (h : IsRounding (decide (q < 0)) |q| x) :
    IsRoundedTo q x := by
  refine ⟨fun hlt => ?_, fun hle => ⟨h.infinite hle, h.sign⟩⟩
  have hnearest := h.nearest hlt
  rwa [signed_abs] at hnearest

/-- A finite number is rounded to itself. -/
theorem isRoundedTo_of_toRat_eq {x : Float} {q : ℚ} (hx : isFinite x = true) (h : toRat x = q) :
    IsRoundedTo q x := by
  subst h
  refine ⟨fun _ => ⟨hx, fun z _ => ?_, fun z _ heq hne => ?_⟩, fun hle => ?_⟩
  · rw [sub_self, abs_zero]
    exact abs_nonneg _
  · rw [sub_self, abs_zero, abs_eq_zero, sub_eq_zero] at heq
    exact absurd heq hne
  · rw [abs_toRat] at hle
    exact absurd hle (not_le.2 ((magnitude_le_largest hx).trans_lt largest_lt_overflow))

/-- An integer is rounded by its magnitude and its sign. -/
theorem normalize_eq_round {n : Int} (hn : n ≠ 0) (e : Int) :
    UnpackedFloat.normalize Format.binary64 n e .positive =
      UnpackedFloat.round Format.binary64 (if n < 0 then .negative else .positive) n.natAbs e := by
  unfold UnpackedFloat.normalize
  split
  · next hlt =>
    have hlt := Int.compare_eq_lt.1 hlt
    have hnat : (-n).toNat = n.natAbs := by omega
    rw [if_pos hlt, hnat]
  · next heq => exact absurd (Int.compare_eq_eq.1 heq) hn
  · next hgt =>
    have hgt := Int.compare_eq_gt.1 hgt
    have hnat : n.toNat = n.natAbs := by omega
    rw [if_neg (by omega), hnat]

/-- An integer in places is rounded. -/
theorem isRoundedTo_normalize (n e : Int) : IsRoundedTo (n * 2 ^ e)
    (Float.ofModel (.pack (UnpackedFloat.normalize Format.binary64 n e .positive))) := by
  rcases eq_or_ne n 0 with rfl | hn
  · obtain ⟨hfinite, hzero⟩ := ofMagnitudeBits_zero false
    rw [Int.cast_zero, zero_mul]
    exact isRoundedTo_of_toRat_eq hfinite hzero
  · have hpos : 0 < n.natAbs := Int.natAbs_pos.2 hn
    have hpow : (0 : ℚ) < 2 ^ e := by positivity
    have hvalue := numerator_div_places n.natAbs e
    have habs : (n.natAbs : ℚ) * 2 ^ e = |(n : ℚ) * 2 ^ e| := by
      rw [abs_mul, abs_of_pos hpow, Nat.cast_natAbs, Int.cast_abs]
    have hsign : ((if n < 0 then Sign.negative else .positive) == .negative) =
        decide ((n : ℚ) * 2 ^ e < 0) := by
      have hiff : n < 0 ↔ (n : ℚ) * 2 ^ e < 0 := by
        rw [← not_le, ← not_le, mul_nonneg_iff_of_pos_right hpow, Int.cast_nonneg_iff]
      by_cases hlt : n < 0
      · rw [if_pos hlt, decide_eq_true (hiff.1 hlt)]
        rfl
      · rw [if_neg hlt, decide_eq_false fun h => hlt (hiff.2 h)]
        rfl
    rw [normalize_eq_round hn, pack_round (Nat.mul_pos hpos (twoTo_pos _)) (twoTo_pos _) hpos hvalue,
      hsign]
    have hrounding := isRounding_nearest (decide ((n : ℚ) * 2 ^ e < 0)) (n.natAbs * twoTo e.toNat)
      (twoTo_pos (-e).toNat)
    rw [hvalue, habs] at hrounding
    exact hrounding.isRoundedTo

/-- Two integers in places are added in the lower place. -/
theorem cast_shiftLeft_mul {m : Nat} {e e' : Int} (s : Sign) (hle : e' ≤ e) :
    ((s.apply (m <<< (e - e').toNat : Nat) : Int) : ℚ) * 2 ^ e' = s.apply m * 2 ^ e := by
  have hpow : (2 : ℚ) ^ (e - e').toNat * 2 ^ e' = 2 ^ e := by
    rw [← zpow_natCast, Int.toNat_of_nonneg (by omega), ← zpow_add₀ two_ne_zero, Int.sub_add_cancel]
  have happly (n : Nat) : ((s.apply n : Int) : ℚ) = s.apply 1 * n := by
    cases s <;> simp [Sign.apply]
  rw [happly, happly m, Nat.shiftLeft_eq, Nat.cast_mul, Nat.cast_pow, Nat.cast_ofNat, mul_assoc,
    mul_assoc, hpow, mul_assoc]

/-- The sum of finite numbers is rounded. -/
theorem isRoundedTo_pack_add {u v : UnpackedFloat} (hu : IsCanonicalOrZero u)
    (hv : IsCanonicalOrZero v) (hu' : |value u| < overflow) (hv' : |value v| < overflow) :
    IsRoundedTo (value u + value v)
      (Float.ofModel (.pack (UnpackedFloat.add Format.binary64 u v))) := by
  cases hu with
  | zero s =>
    cases hv with
    | zero s' =>
      have hzero : ∃ s'', UnpackedFloat.add Format.binary64 (.zero s) (.zero s') = .zero s'' := by
        rw [UnpackedFloat.add]
        split
        · exact ⟨_, rfl⟩
        · exact ⟨_, rfl⟩
      obtain ⟨s'', hzero⟩ := hzero
      obtain ⟨hfinite, hvalue⟩ := ofMagnitudeBits_zero (s'' == .negative)
      rw [hzero, pack_zero]
      exact isRoundedTo_of_toRat_eq hfinite (hvalue.trans (Rat.add_zero 0).symm)
    | finite s' hm h =>
      obtain ⟨hfinite, hvalue⟩ := toRat_pack (.finite s' hm h) hv'
      exact isRoundedTo_of_toRat_eq hfinite (hvalue.trans (Rat.zero_add _).symm)
  | @finite s m e hm h =>
    cases hv with
    | zero s' =>
      obtain ⟨hfinite, hvalue⟩ := toRat_pack (.finite s hm h) hu'
      exact isRoundedTo_of_toRat_eq hfinite (hvalue.trans (Rat.add_zero _).symm)
    | @finite s' m' e' hm' h' =>
      have hsum : value (.finite s m e hm) + value (.finite s' m' e' hm') =
          ((s.apply (m <<< (e - min e e').toNat : Nat) +
            s'.apply (m' <<< (e' - min e e').toNat : Nat) : Int) : ℚ) * 2 ^ min e e' := by
        rw [Int.cast_add, add_mul, cast_shiftLeft_mul s (Int.min_le_left _ _),
          cast_shiftLeft_mul s' (Int.min_le_right _ _)]
        rfl
      rw [hsum]
      exact isRoundedTo_normalize _ _

/-- The other sign is the negated one. -/
theorem neg_apply (s : Sign) (n : Int) : (-s).apply n = -s.apply n := by
  cases s
  · exact (Int.neg_neg n).symm
  · rfl

/-- A difference is a sum with the negated number. -/
theorem sub_eq_add_neg_unpacked (u v : UnpackedFloat) :
    UnpackedFloat.sub Format.binary64 u v = UnpackedFloat.add Format.binary64 u v.neg := by
  cases u <;> cases v
  case finite.finite s m e hm s' m' e' hm' =>
    simp only [UnpackedFloat.sub, UnpackedFloat.add, UnpackedFloat.neg, neg_apply, decreaseExponent,
      Int.sub_eq_add_neg]
  all_goals rfl

/-- A negated number has the negated value. -/
theorem value_neg {u : UnpackedFloat} (hu : IsCanonicalOrZero u) :
    IsCanonicalOrZero u.neg ∧ value u.neg = -value u := by
  cases hu with
  | zero s => exact ⟨.zero _, neg_zero.symm⟩
  | @finite s m e hm h =>
    refine ⟨.finite _ hm h, ?_⟩
    show (((-s).apply m : Int) : ℚ) * 2 ^ e = -((s.apply m : Int) * 2 ^ e)
    rw [neg_apply, Int.cast_neg, neg_mul]

/-- No finite number is beyond the place where numbers are rounded to infinity. -/
theorem abs_toRat_lt {x : Float} (hx : isFinite x = true) : |toRat x| < overflow := by
  rw [abs_toRat]
  exact (magnitude_le_largest hx).trans_lt largest_lt_overflow

section Finite

variable {x y : Float} (hx : isFinite x = true) (hy : isFinite y = true)
include hx hy

/-- A sum of finite numbers is rounded. -/
theorem isRoundedTo_add : IsRoundedTo (toRat x + toRat y) (x + y) := by
  obtain ⟨hu, hu'⟩ := unpack_of_isFinite hx
  obtain ⟨hv, hv'⟩ := unpack_of_isFinite hy
  rw [← hu', ← hv']
  exact isRoundedTo_pack_add hu hv (hu' ▸ abs_toRat_lt hx) (hv' ▸ abs_toRat_lt hy)

/-- A difference of finite numbers is rounded. -/
theorem isRoundedTo_sub : IsRoundedTo (toRat x - toRat y) (x - y) := by
  obtain ⟨hu, hu'⟩ := unpack_of_isFinite hx
  obtain ⟨hv, hv'⟩ := unpack_of_isFinite hy
  obtain ⟨hneg, hneg'⟩ := value_neg hv
  have hlt : |value y.toModel.unpack.neg| < overflow := by
    rw [hneg', abs_neg, hv']
    exact abs_toRat_lt hy
  have hpack := isRoundedTo_pack_add hu hneg (hu' ▸ abs_toRat_lt hx) hlt
  rw [← sub_eq_add_neg_unpacked, hneg', hu', hv', ← sub_eq_add_neg] at hpack
  exact hpack

end Finite

/-! ## Products -/

/-- A mantissa is rounded, if none of its bits is left out before. -/
theorem isRoundedTo_pack_roundWithAccuracy (s : Sign) {m : Nat} {e : Int} (hm : 0 < m)
    (he : e ≤ Format.binary64.targetExponent (totalExponent m e)) :
    IsRoundedTo (s.apply m * 2 ^ e)
      (Float.ofModel (.pack (roundWithAccuracy Format.binary64 s m e .exact))) := by
  have hpow : (0 : ℚ) < 2 ^ e := by positivity
  have hmantissa : (0 : ℚ) < m := by exact_mod_cast hm
  have hsign : (s == .negative) = decide ((s.apply m : ℚ) * 2 ^ e < 0) := by
    cases s with
    | positive => exact (decide_eq_false (not_lt.2 (mul_pos hmantissa hpow).le)).symm
    | negative =>
      refine (decide_eq_true ?_).symm
      show ((-(m : Int) : Int) : ℚ) * 2 ^ e < 0
      rw [Int.cast_neg, Int.cast_natCast, neg_mul]
      exact neg_neg_of_pos (mul_pos hmantissa hpow)
  have hrounding := isRounding_nearest (s == .negative) (m * twoTo e.toNat) (twoTo_pos (-e).toNat)
  rw [numerator_div_places, ← abs_value s hm, value, hsign] at hrounding
  rw [pack_roundWithAccuracy (Nat.mul_pos hm (twoTo_pos _)) (twoTo_pos _) hm
    (numerator_div_places m e) s he, hsign]
  exact hrounding.isRoundedTo

/-- The product of finite numbers is rounded. -/
theorem isRoundedTo_pack_mul {u v : UnpackedFloat} (hu : IsCanonicalOrZero u)
    (hv : IsCanonicalOrZero v) :
    IsRoundedTo (value u * value v)
      (Float.ofModel (.pack (UnpackedFloat.mul Format.binary64 u v))) := by
  have hzero (s : Sign) : IsRoundedTo 0 (Float.ofModel (.pack (.zero s))) := by
    obtain ⟨hfinite, hvalue⟩ := ofMagnitudeBits_zero (s == .negative)
    rw [pack_zero]
    exact isRoundedTo_of_toRat_eq hfinite hvalue
  cases hu with
  | zero s =>
    rw [value_zero, zero_mul]
    cases hv <;> exact hzero _
  | @finite s m e hm h =>
    cases hv with
    | zero s' =>
      rw [value_zero, mul_zero]
      exact hzero _
    | @finite s' m' e' hm' h' =>
      have hproduct : value (.finite s m e hm) * value (.finite s' m' e' hm') =
          (s * s').apply (m * m' : Nat) * 2 ^ (e + e') := by
        rw [value, value, zpow_add₀ two_ne_zero]
        cases s <;> cases s' <;>
        · simp only [Sign.apply]
          push_cast
          ring
      have hpos : 0 < m * m' := Nat.mul_pos hm hm'
      -- either no exponent is above the least one, or a factor has 53 bits
      have htarget : e + e' ≤ Format.binary64.targetExponent (totalExponent (m * m') (e + e')) := by
        rw [targetExponent_eq]
        rcases h.normal with he | hbits
        · rcases h'.normal with he' | hbits
          · omega
          · have hlog := (Nat.le_log2 hpos.ne').2 (hbits.trans (Nat.le_mul_of_pos_left m' hm))
            omega
        · have hlog := (Nat.le_log2 hpos.ne').2 (hbits.trans (Nat.le_mul_of_pos_right m hm'))
          omega
      rw [hproduct]
      exact isRoundedTo_pack_roundWithAccuracy _ hpos htarget

/-- A product of finite numbers is rounded. -/
theorem isRoundedTo_mul {x y : Float} (hx : isFinite x = true) (hy : isFinite y = true) :
    IsRoundedTo (toRat x * toRat y) (x * y) := by
  obtain ⟨hu, hu'⟩ := unpack_of_isFinite hx
  obtain ⟨hv, hv'⟩ := unpack_of_isFinite hy
  rw [← hu', ← hv']
  exact isRoundedTo_pack_mul hu hv

/-! ## Natural numbers -/

/-- A natural number of up to 53 bits is a binary64 number. -/
theorem exists_toRat_eq_natCast {n : Nat} (hn : n < 2 ^ 53) :
    ∃ x, isFinite x = true ∧ toRat x = n := by
  rcases Nat.eq_zero_or_pos n with rfl | hpos
  · exact ⟨_, ofMagnitudeBits_zero false⟩
  · have hlog : n.log2 ≤ 52 := Nat.le_of_lt_succ ((Nat.log2_lt hpos.ne').2 hn)
    have hlow := Nat.mul_le_mul_right (2 ^ (52 - n.log2)) (Nat.log2_self_le hpos.ne')
    have hhigh := Nat.mul_lt_mul_of_pos_right (Nat.lt_log2_self (n := n))
      (Nat.two_pow_pos (52 - n.log2))
    rw [← Nat.pow_add] at hlow hhigh
    have hbits : n.log2 + (52 - n.log2) = 52 := by omega
    have hbits' : n.log2 + 1 + (52 - n.log2) = 53 := by omega
    rw [hbits] at hlow
    rw [hbits'] at hhigh
    have h : IsCanonical (n * 2 ^ (52 - n.log2)) (n.log2 - 52) :=
      ⟨by omega, hhigh, by omega, .inr hlow⟩
    have hinfinity : infinityBits = 2047 * 2 ^ 52 := rfl
    obtain ⟨hfinite, hvalue⟩ := ofMagnitudeBits_canonical .positive h (by omega)
    refine ⟨_, hfinite, hvalue.trans ?_⟩
    have hpow : (2 : ℚ) ^ (52 - n.log2) * 2 ^ ((n.log2 : Int) - 52) = 1 := by
      rw [← zpow_natCast, ← zpow_add₀ two_ne_zero, Nat.cast_sub hlog]
      simp
    show (((n * 2 ^ (52 - n.log2) : Nat) : Int) : ℚ) * _ = _
    rw [Int.cast_natCast, Nat.cast_mul, Nat.cast_pow, Nat.cast_ofNat, mul_assoc, hpow, mul_one]

/-- A number that is there is rounded to itself. -/
theorem IsNearest.toRat_eq {q : ℚ} {x z : Float} (h : IsNearest q x) (hz : isFinite z = true)
    (hvalue : toRat z = q) : toRat x = q := by
  have hclose := h.nearest z hz
  rw [hvalue, sub_self, abs_zero, abs_nonpos_iff, sub_eq_zero] at hclose
  exact hclose

/-- Rounding stays on the side of a number that is there. -/
theorem IsNearest.le_of_le {q : ℚ} {x z : Float} (h : IsNearest q x) (hz : isFinite z = true)
    (hle : q ≤ toRat z) : toRat x ≤ toRat z := by
  have hclose := h.nearest z hz
  rw [abs_of_nonneg (sub_nonneg.2 hle)] at hclose
  have habove := le_abs_self (toRat x - q)
  linarith

/-- Rounding does not cross a number. -/
theorem IsNearest.ge_of_ge {q : ℚ} {x z : Float} (h : IsNearest q x) (hz : isFinite z = true)
    (hle : toRat z ≤ q) : toRat z ≤ toRat x := by
  have hclose := h.nearest z hz
  rw [abs_of_nonpos (sub_nonpos.2 hle)] at hclose
  have hbelow := neg_abs_le (toRat x - q)
  linarith

/-- Rounding reaches a number that is there only from this side of it, or by rounding to it. -/
theorem IsNearest.le_toRat_iff {q : ℚ} {x z : Float} (h : IsNearest q x) (hz : isFinite z = true) :
    toRat z ≤ toRat x ↔ toRat z ≤ q ∨ (q < toRat z ∧ toRat x = toRat z) := by
  constructor
  · intro hle
    rcases le_or_gt (toRat z) q with hq | hq
    · exact .inl hq
    · exact .inr ⟨hq, le_antisymm (h.le_of_le hz hq.le) hle⟩
  · rintro (hq | ⟨-, heq⟩)
    · exact h.ge_of_ge hz hq
    · exact heq.ge

/-- A number times one. -/
theorem toRat_mul_one {x : Float} (hx : isFinite x = true) :
    isFinite (x * Float.ofBits 0x3FF0000000000000) = true ∧
      toRat (x * Float.ofBits 0x3FF0000000000000) = toRat x := by
  have hone : toRat (Float.ofBits 0x3FF0000000000000) = 1 := toRat_one
  have hrounded := isRoundedTo_mul hx (y := Float.ofBits 0x3FF0000000000000) rfl
  rw [hone, mul_one] at hrounded
  have hnearest := hrounded.nearest (abs_toRat_lt hx)
  exact ⟨hnearest.finite, hnearest.toRat_eq hx rfl⟩

/-- Natural numbers below `2 ^ 53` are numbers. -/
theorem toRat_ofNat {n : Nat} (hn : n < 2 ^ 53) :
    isFinite (Float.ofNat n) = true ∧ toRat (Float.ofNat n) = n := by
  have hnat : n.toUInt64.toNat = n := by
    rw [Nat.toUInt64_eq, UInt64.toNat_ofNat', Nat.mod_eq_of_lt (by omega)]
  have hconvert : n.toUInt64.toFloat =
      Float.ofModel (.pack (UnpackedFloat.normalize Format.binary64 n 0 .positive)) := by
    conv_rhs => rw [← hnat]
    rfl
  have hofNat : Float.ofNat n = n.toUInt64.toFloat * Float.ofBits 0x3FF0000000000000 := by
    show Float.ofScientific n false 0 = _
    rw [Float.ofScientific, dif_pos ⟨hn, by decide⟩]
    rfl
  obtain ⟨z, hz, hzvalue⟩ := exists_toRat_eq_natCast hn
  have hrounded := isRoundedTo_normalize n 0
  rw [zpow_zero, mul_one, Int.cast_natCast, ← hzvalue, ← hconvert] at hrounded
  have hnearest := hrounded.nearest (abs_toRat_lt hz)
  obtain ⟨hfinite, hvalue⟩ := toRat_mul_one hnearest.finite
  rw [hofNat]
  exact ⟨hfinite, hvalue.trans ((hnearest.toRat_eq hz rfl).trans hzvalue)⟩

/-! ## The integer part -/

/-- The integer part is that of the value. -/
theorem floor_eq (x : Float) : floor x = ⌊toRat x⌋ := by
  have hpos : 0 < denominator x := twoTo_pos _
  have hpos' : (0 : ℚ) < denominator x := by exact_mod_cast hpos
  rw [toRat, ← numerator_div_denominator, floor]
  split
  · -- the integer above the magnitude
    have hdiv := Nat.div_add_mod' (numerator x + denominator x - 1) (denominator x)
    have hmod := Nat.mod_lt (numerator x + denominator x - 1) hpos
    generalize (numerator x + denominator x - 1) / denominator x = c at *
    have habove : numerator x ≤ c * denominator x := by omega
    have hbelow : c * denominator x < numerator x + denominator x := by omega
    rw [eq_comm, Int.floor_eq_iff, ← neg_div, le_div_iff₀ hpos', div_lt_iff₀ hpos']
    have habove' : (numerator x : ℚ) ≤ c * denominator x := by exact_mod_cast habove
    have hbelow' : (c : ℚ) * denominator x < numerator x + denominator x := by exact_mod_cast hbelow
    rw [Int.ofNat_eq_natCast, Int.cast_neg, Int.cast_natCast]
    constructor <;> linarith
  · exact (Rat.floor_intCast_div_natCast (numerator x) (denominator x)).symm

end Formulary.Binary64
