import Formulary.Proofs.Number.Arithmetic

/-!
# What is rounded to zero

The least positive number is `2 ^ (-1074)`. Whatever is at most half of it is rounded to zero, the
half itself because zero is its even neighbour (`IsNearest.toRat_eq_zero_iff`). So there are numbers
whose squares are zero although they are not zero themselves: these numbers, up to about
`1.57e-162`, are `IsTiny`.

Addition does not add any zeros: the sum of two magnitudes is zero only if both are
(`isZero_add_iff`), because the numbers are multiples of the least one. Hence a sum of two squares
is zero exactly if each number is zero or tiny (`isZero_squares_iff`).
-/

namespace Formulary.Binary64

open Float.Model Float.Model.UnpackedFloat

/-! ## The least number -/

theorem least_eq : (2 : ℚ) ^ (-1074 : ℤ) = 2 * 2 ^ (-1075 : ℤ) := by
  rw [← zpow_one_add₀ two_ne_zero]
  rfl

theorem exists_least : ∃ x, isFinite x = true ∧ toRat x = 2 ^ (-1074 : ℤ) := by
  have h : IsCanonical 1 (-1074) := ⟨by omega, by omega, by omega, .inl rfl⟩
  obtain ⟨hfinite, hvalue⟩ := ofMagnitudeBits_canonical .positive h (by decide)
  refine ⟨_, hfinite, hvalue.trans ?_⟩
  rw [Sign.apply, Nat.cast_one, Int.cast_one, one_mul]

/-- A magnitude is at least as many times the least number as its mantissa says. -/
theorem mantissa_mul_le (x : Float) : mantissa x * 2 ^ (-1074 : ℤ) ≤ magnitude x :=
  mul_le_mul_of_nonneg_left (zpow_le_zpow_right₀ one_le_two (le_exponent x)) (Nat.cast_nonneg _)

/-- Nothing is between zero and the least number. -/
theorem toRat_eq_zero_of_lt {x : Float} (h : |toRat x| < 2 ^ (-1074 : ℤ)) : toRat x = 0 := by
  have hleast : (0 : ℚ) < 2 ^ (-1074 : ℤ) := by positivity
  have hmantissa : mantissa x = 0 := by
    by_contra hne
    have hone : (1 : ℚ) ≤ mantissa x := by exact_mod_cast Nat.one_le_iff_ne_zero.2 hne
    have hle := (le_mul_of_one_le_left hleast.le hone).trans (mantissa_mul_le x)
    rw [abs_toRat] at h
    exact absurd h (not_lt.2 hle)
  rw [← abs_eq_zero, abs_toRat, magnitude, hmantissa, Nat.cast_zero, zero_mul]

/-- Up to half the least number everything is rounded to zero, and nothing above it. -/
theorem IsNearest.toRat_eq_zero_iff {q : ℚ} {x : Float} (h : IsNearest q x) (hq : 0 ≤ q) :
    toRat x = 0 ↔ q ≤ 2 ^ (-1075 : ℤ) := by
  have hleast := least_eq
  have hpos : (0 : ℚ) < 2 ^ (-1075 : ℤ) := by positivity
  obtain ⟨least, hfinite, hvalue⟩ := exists_least
  constructor
  · intro hzero
    -- zero is at least as near as the least number
    have hnear := h.nearest least hfinite
    rw [hzero, hvalue, zero_sub, abs_neg, abs_of_nonneg hq] at hnear
    rcases abs_cases ((2 : ℚ) ^ (-1074 : ℤ) - q) with ⟨habs, -⟩ | ⟨habs, -⟩ <;> linarith
  · intro hle
    by_contra hne
    obtain ⟨hzeroFinite, hzero⟩ := ofMagnitudeBits_zero false
    have hnear := h.nearest _ hzeroFinite
    rw [hzero, zero_sub, abs_neg, abs_of_nonneg hq] at hnear
    obtain ⟨hlow, hhigh⟩ := abs_le.1 hnear
    have hfar : 2 ^ (-1074 : ℤ) ≤ |toRat x| := by
      by_contra hlt
      exact hne (toRat_eq_zero_of_lt (not_le.1 hlt))
    rw [abs_of_nonneg (by linarith)] at hfar
    -- only the least number itself is left, as near as zero but with an odd mantissa
    have hvalue' : toRat x = 2 ^ (-1074 : ℤ) := by linarith
    have hhalf : q = 2 ^ (-1075 : ℤ) := by linarith
    have htie : |toRat (ofMagnitudeBits false 0) - q| = |toRat x - q| := by
      rw [hzero, hvalue', hhalf, hleast, zero_sub, abs_neg, two_mul, add_sub_cancel_right]
    have heven := h.even _ hzeroFinite htie (by rw [hzero]; exact Ne.symm hne)
    have hmantissa := mantissa_mul_le x
    rw [← abs_toRat, hvalue', abs_of_pos (by positivity)] at hmantissa
    have hone : (mantissa x : ℚ) ≤ 1 := by
      refine le_of_mul_le_mul_right ?_ (show (0 : ℚ) < 2 ^ (-1074 : ℤ) by positivity)
      rwa [one_mul]
    have hodd : mantissa x ≤ 1 := by exact_mod_cast hone
    have hmantissa : mantissa x = 0 := by omega
    refine hne ?_
    rw [← abs_eq_zero, abs_toRat, magnitude, hmantissa, Nat.cast_zero, zero_mul]

/-! ## Zeros of arithmetic -/

/-- A zero is recognised by its value. -/
theorem scalar_isZero_iff (x : Float) :
    Scalar.isZero x = true ↔ isFinite x = true ∧ toRat x = 0 := by
  constructor
  · intro h
    obtain ⟨s, hs⟩ := unpack_of_beq_zero h
    have hpack := ofModel_pack_unpack x
    rw [hs, pack_zero] at hpack
    rw [← hpack]
    exact ofMagnitudeBits_zero _
  · rintro ⟨hfinite, hzero⟩
    obtain ⟨hcanonical, hvalue⟩ := unpack_of_isFinite hfinite
    show UnpackedFloat.beq x.toModel.unpack (.zero .positive) = true
    rw [hzero] at hvalue
    generalize x.toModel.unpack = u at hcanonical hvalue
    cases hcanonical with
    | zero s => rfl
    | @finite s m e hm h =>
      have habs := abs_value s (e := e) hm
      have hpos : (0 : ℚ) < m * 2 ^ e := by positivity
      rw [hvalue, abs_zero] at habs
      exact absurd habs hpos.ne

/-- A finite number that is not below zero, or infinity. -/
inductive IsMagnitude : Float → Prop where
  | infinity : IsMagnitude infinity
  | finite {x : Float} (hx : isFinite x = true) (h : 0 ≤ toRat x) : IsMagnitude x

theorem IsRoundedTo.isMagnitude {q : ℚ} {x : Float} (h : IsRoundedTo q x) (hq : 0 ≤ q) :
    IsMagnitude x := by
  rcases lt_or_ge |q| overflow with hlt | hle
  · obtain ⟨hzeroFinite, hzero⟩ := ofMagnitudeBits_zero false
    have hnearest := h.nearest hlt
    have hnonneg := hnearest.ge_of_ge hzeroFinite (hzero.trans_le hq)
    exact .finite hnearest.finite (hzero ▸ hnonneg)
  · obtain ⟨hbits, hsign⟩ := h.infinite hle
    rw [decide_eq_false (not_lt.2 hq)] at hsign
    rw [← ofMagnitudeBits_magnitudeBits x, hbits, hsign]
    exact .infinity

/-- A sum with an infinite number or a NaN is one of these. -/
theorem add_of_special {u v : UnpackedFloat}
    (h : (u = .notANumber ∨ ∃ s, u = .infinity s) ∨ v = .notANumber ∨ ∃ s, v = .infinity s) :
    UnpackedFloat.add Format.binary64 u v = .notANumber ∨
      ∃ s, UnpackedFloat.add Format.binary64 u v = .infinity s := by
  have hneg : v.neg.neg = v := by
    have hsign (s : Sign) : -(-s) = s := by cases s <;> rfl
    cases v <;> simp only [UnpackedFloat.neg, hsign]
  rw [← hneg, ← sub_eq_add_neg_unpacked]
  refine sub_of_special (h.imp_right ?_)
  rintro (rfl | ⟨s, rfl⟩)
  · exact .inl rfl
  · exact .inr ⟨_, rfl⟩

/-- A sum with infinity is not zero. -/
theorem isZero_add_of_infinity {x y : Float} (h : x = infinity ∨ y = infinity) :
    Scalar.isZero (x + y) = false := by
  have hinfinity : infinity.toModel.unpack = .infinity .positive := rfl
  have hspecial := add_of_special (u := x.toModel.unpack) (v := y.toModel.unpack)
    (h.imp (fun hx => .inr ⟨_, hx ▸ hinfinity⟩) (fun hy => .inr ⟨_, hy ▸ hinfinity⟩))
  by_contra hzero
  obtain ⟨s, hs⟩ := unpack_of_beq_zero (Bool.of_not_eq_false hzero)
  exact unpack_pack_special hspecial hs

/-- What is rounded is zero exactly if it is at most half the least number. -/
theorem IsRoundedTo.isZero_iff {q : ℚ} {x : Float} (h : IsRoundedTo q x) (hq : 0 ≤ q) :
    Scalar.isZero x = true ↔ q ≤ 2 ^ (-1075 : ℤ) := by
  rw [scalar_isZero_iff]
  rcases lt_or_ge |q| overflow with hlt | hle
  · have hnearest := h.nearest hlt
    rw [hnearest.toRat_eq_zero_iff hq, and_iff_right hnearest.finite]
  · have hinfinite : isFinite x = false := by
      rw [isFinite, (h.infinite hle).1]
      rfl
    have hlarge : (2 : ℚ) ^ (-1075 : ℤ) < overflow := by
      refine lt_of_lt_of_le ?_ (le_overflow (e := -1075) (by decide))
      exact lt_mul_of_one_lt_left (by positivity) (by norm_num)
    rw [abs_of_nonneg hq] at hle
    have hnot : ¬ q ≤ 2 ^ (-1075 : ℤ) := not_le.2 (hlarge.trans_le hle)
    rw [hinfinite, iff_false_right hnot]
    rintro ⟨⟨⟩, -⟩

/-- A sum of magnitudes is zero only if both are. -/
theorem isZero_add_iff {x y : Float} (hx : IsMagnitude x) (hy : IsMagnitude y) :
    Scalar.isZero (x + y) = true ↔ Scalar.isZero x = true ∧ Scalar.isZero y = true := by
  have hinfinity : Scalar.isZero infinity = false := rfl
  cases hx with
  | infinity => simp [isZero_add_of_infinity, hinfinity]
  | finite hx hx' =>
    cases hy with
    | infinity => simp [isZero_add_of_infinity, hinfinity]
    | finite hy hy' =>
      rw [(isRoundedTo_add hx hy).isZero_iff (add_nonneg hx' hy'), scalar_isZero_iff,
        scalar_isZero_iff, and_iff_right hx, and_iff_right hy]
      have hleast := least_eq
      have hpos : (0 : ℚ) < 2 ^ (-1075 : ℤ) := by positivity
      constructor
      · intro hle
        constructor
        · refine toRat_eq_zero_of_lt ?_
          rw [abs_of_nonneg hx']
          linarith
        · refine toRat_eq_zero_of_lt ?_
          rw [abs_of_nonneg hy']
          linarith
      · rintro ⟨hx0, hy0⟩
        linarith

/-! ## Squares -/

/-- The number is not zero, but its square is rounded to zero. -/
structure IsTiny (x : Float) : Prop where
  ne_zero : toRat x ≠ 0
  square_le : toRat x ^ 2 ≤ 2 ^ (-1075 : ℤ)

theorem isZero_mul_self_iff {x : Float} (hx : isFinite x = true) :
    Scalar.isZero (x * x) = true ↔ Scalar.isZero x = true ∨ IsTiny x := by
  have hrounded := isRoundedTo_mul hx hx
  rw [hrounded.isZero_iff (mul_self_nonneg _), ← pow_two, scalar_isZero_iff, and_iff_right hx]
  constructor
  · intro hle
    by_cases hzero : toRat x = 0
    · exact .inl hzero
    · exact .inr ⟨hzero, hle⟩
  · rintro (hzero | htiny)
    · rw [hzero, zero_pow two_ne_zero]
      positivity
    · exact htiny.square_le

/-- A sum of two squares is zero if each number is zero or tiny. -/
theorem isZero_squares_iff {x y : Float} (hx : isFinite x = true) (hy : isFinite y = true) :
    Scalar.isZero (x * x + y * y) = true ↔
      (Scalar.isZero x = true ∨ IsTiny x) ∧ (Scalar.isZero y = true ∨ IsTiny y) := by
  have hmagnitude {z : Float} (hz : isFinite z = true) : IsMagnitude (z * z) :=
    (isRoundedTo_mul hz hz).isMagnitude (mul_self_nonneg _)
  rw [isZero_add_iff (hmagnitude hx) (hmagnitude hy), isZero_mul_self_iff hx, isZero_mul_self_iff hy]

end Formulary.Binary64
