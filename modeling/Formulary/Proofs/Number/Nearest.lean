import Formulary.Number.Shortest
import Formulary.Proofs.Number.Subtraction

/-!
# The number nearest to a quotient

`Binary64.nearestBits_of_rounds`: a quotient inside the interval of a number is rounded to this
number. The interval is the one that `shortest` searches (`lowerEnd`, `upperEnd`), so a decimal that
is found there reads back.

The place that a quotient is rounded at is that of the number, except just below a power of two.
There the quotient has one place more, and is rounded up to the power of two at that place.
-/

namespace Formulary

/-! ## Powers and quotients as rational numbers -/

/-- One of the two powers is one. -/
theorem pow_toNat_div (b : ℚ) (e : ℤ) : b ^ e.toNat / b ^ (-e).toNat = b ^ e := by
  rcases Int.le_total 0 e with he | he
  · have hneg : (-e).toNat = 0 := by omega
    rw [hneg, pow_zero, div_one, ← zpow_natCast, Int.toNat_of_nonneg he]
  · have hpos : e.toNat = 0 := by omega
    rw [hpos, pow_zero, one_div, ← zpow_natCast, Int.toNat_of_nonneg (by omega), zpow_neg, inv_inv]

/-- A comparison of a quotient with a power, without fractions. -/
theorem pow_le_div_iff {b : ℕ} (num : ℕ) {den : ℕ} (hb : 0 < b) (hden : 0 < den) (e : ℤ) :
    den * b ^ e.toNat ≤ num * b ^ (-e).toNat ↔ (b : ℚ) ^ e ≤ num / den := by
  have hden' : (0 : ℚ) < den := by exact_mod_cast hden
  have hpow : (0 : ℚ) < (b : ℚ) ^ (-e).toNat := by positivity
  rw [← pow_toNat_div, div_le_div_iff₀ hpow hden', ← Nat.cast_le (α := ℚ)]
  push_cast
  rw [mul_comm (den : ℚ)]

theorem cast_twoTo (n : ℕ) : (twoTo n : ℚ) = 2 ^ n := Nat.cast_pow 2 n

theorem cast_tenTo (n : ℕ) : (tenTo n : ℚ) = 10 ^ n := Nat.cast_pow 10 n

/-- A quotient counted in places of a power. -/
theorem scaled_pow {b : ℕ} (hb : 0 < b) (num den : ℕ) (e : ℤ) :
    ((num * b ^ (-e).toNat : ℕ) : ℚ) / (den * b ^ e.toNat : ℕ) = num / den / b ^ e := by
  rw [← pow_toNat_div b e, Nat.cast_mul, Nat.cast_mul, Nat.cast_pow, Nat.cast_pow]
  field_simp

theorem scaled_twoTo (num den : ℕ) (e : ℤ) :
    ((num * twoTo (-e).toNat : ℕ) : ℚ) / (den * twoTo e.toNat : ℕ) = num / den / 2 ^ e :=
  scaled_pow two_pos num den e

theorem scaled_tenTo (num den : ℕ) (e : ℤ) :
    ((num * tenTo (-e).toNat : ℕ) : ℚ) / (den * tenTo e.toNat : ℕ) = num / den / 10 ^ e :=
  scaled_pow (b := 10) (by decide) num den e

/-- Twice a quotient that is at most one away from twice an integer, and less if the integer is odd,
is rounded to it. -/
theorem roundDiv_eq_of_le {num den k : ℕ} (hden : 0 < den) (hlow : 2 * (k * den) ≤ 2 * num + den)
    (hhigh : 2 * num ≤ 2 * (k * den) + den)
    (hodd : k % 2 = 1 → 2 * (k * den) < 2 * num + den ∧ 2 * num < 2 * (k * den) + den) :
    roundDiv num den = k := by
  have hnum : num / den * den + num % den = num := Nat.div_add_mod' num den
  have hmod := Nat.mod_lt num hden
  -- the integer is the quotient rounded down or the one above it
  have hle : num / den ≤ k := by
    by_contra hlt
    have := Nat.mul_le_mul_right den (Nat.lt_of_not_le hlt)
    rw [Nat.succ_mul] at this
    omega
  have hge : k ≤ num / den + 1 := by
    by_contra hlt
    have := Nat.mul_le_mul_right den (Nat.lt_of_not_le hlt)
    rw [Nat.succ_mul, Nat.succ_mul] at this
    omega
  unfold roundDiv
  rcases Nat.eq_or_lt_of_le hle with heq | hlt
  · rw [heq] at hnum ⊢
    split
    · rfl
    · split <;> omega
  · obtain rfl : k = num / den + 1 := by omega
    rw [Nat.add_one_mul (num / den)] at hlow hhigh hodd
    split
    · omega
    · split <;> omega

/-- A quotient that is at most half away from an integer, and less if the integer is odd, is rounded
to it. -/
theorem roundDiv_eq {num den k : ℕ} (hden : 0 < den) (hlow : (k : ℚ) - 1 / 2 ≤ num / den)
    (hhigh : (num : ℚ) / den ≤ k + 1 / 2)
    (hodd : k % 2 = 1 → (k : ℚ) - 1 / 2 < num / den ∧ (num : ℚ) / den < k + 1 / 2) :
    roundDiv num den = k := by
  have hden' : (0 : ℚ) < den := by exact_mod_cast hden
  rw [le_div_iff₀ hden'] at hlow
  rw [div_le_iff₀ hden'] at hhigh
  rw [lt_div_iff₀ hden', div_lt_iff₀ hden'] at hodd
  refine roundDiv_eq_of_le hden ?_ ?_ fun hk => ⟨?_, ?_⟩
  · have : (2 * (k * den) : ℚ) ≤ 2 * num + den := by linarith
    exact_mod_cast this
  · have : (2 * num : ℚ) ≤ 2 * (k * den) + den := by linarith
    exact_mod_cast this
  · have : (2 * (k * den) : ℚ) < 2 * num + den := by linarith [(hodd hk).1]
    exact_mod_cast this
  · have : (2 * num : ℚ) < 2 * (k * den) + den := by linarith [(hodd hk).2]
    exact_mod_cast this

namespace Binary64

variable {x : Float}

/-! ## The parts of a number -/

/-- The parts of a finite number are canonical, but for zero. -/
theorem isCanonical_of_isFinite (hx : isFinite x = true) (hzero : isZero x = false) :
    IsCanonical (mantissa x) (exponent x) := by
  have hbits : magnitudeBits x < 2047 * 2 ^ 52 := of_decide_eq_true hx
  have hpos : magnitudeBits x ≠ 0 := by simpa [isZero] using hzero
  have htwo : twoTo 52 = 2 ^ 52 := rfl
  unfold mantissa exponent
  dsimp only
  rw [htwo]
  split
  · exact ⟨by omega, by omega, by omega, .inl rfl⟩
  · exact ⟨by omega, by omega, by omega, .inr (by omega)⟩

/-- The bits are the mantissa and the places of the exponent above the smallest one. -/
theorem magnitudeBits_eq (x : Float) :
    magnitudeBits x = (exponent x + 1074).toNat * 2 ^ 52 + mantissa x := by
  have htwo : twoTo 52 = 2 ^ 52 := rfl
  unfold mantissa exponent
  dsimp only
  rw [htwo]
  split <;> omega

/-- A number has no bits but its sign and those of its magnitude. -/
theorem ofMagnitudeBits_magnitudeBits (x : Float) :
    ofMagnitudeBits (isNegative x) (magnitudeBits x) = x := by
  have hlt : x.toBits.toNat < 2 ^ 64 := x.toBits.toNat_lt
  have htwo : twoTo 63 = 2 ^ 63 := rfl
  have hbits : (if isNegative x = true then magnitudeBits x + twoTo 63 else magnitudeBits x) =
      x.toBits.toNat := by
    simp only [isNegative, magnitudeBits, htwo, decide_eq_true_eq]
    split <;> omega
  rw [ofMagnitudeBits, hbits, UInt64.ofNat_toNat, Float.ofBits_toBits]

/-- The number without its sign. -/
def unsigned (x : Float) : Float := ofMagnitudeBits false (magnitudeBits x)

/-- A number that is not negative has no sign to drop. -/
theorem unsigned_of_not_isNegative (hx : isNegative x = false) : unsigned x = x := by
  have := ofMagnitudeBits_magnitudeBits x
  rwa [hx] at this

/-- The magnitude of a finite number. -/
def magnitude (x : Float) : ℚ := mantissa x * 2 ^ exponent x

/-- The fraction of a number is its magnitude. -/
theorem numerator_div_denominator (x : Float) :
    (numerator x : ℚ) / denominator x = magnitude x := by
  rw [numerator, denominator, magnitude, ← pow_toNat_div, Nat.cast_mul, cast_twoTo, cast_twoTo,
    mul_div_assoc]

/-! ## Rounding -/

/-- The lengths of two numbers say what power of two their quotient is near. -/
theorem log2_bounds {num den : ℕ} (hnum : 0 < num) (hden : 0 < den) :
    (2 : ℚ) ^ ((num.log2 : ℤ) - den.log2 - 1) ≤ num / den ∧
      (num : ℚ) / den < 2 ^ ((num.log2 : ℤ) - den.log2 + 1) := by
  have hnumLow : (2 : ℚ) ^ num.log2 ≤ num := by exact_mod_cast Nat.log2_self_le hnum.ne'
  have hnumHigh : (num : ℚ) < 2 ^ (num.log2 + 1) := by exact_mod_cast Nat.lt_log2_self
  have hdenLow : (2 : ℚ) ^ den.log2 ≤ den := by exact_mod_cast Nat.log2_self_le hden.ne'
  have hdenHigh : (den : ℚ) < 2 ^ (den.log2 + 1) := by exact_mod_cast Nat.lt_log2_self
  have hden' : (0 : ℚ) < den := by exact_mod_cast hden
  constructor
  · have heq : (2 : ℚ) ^ ((num.log2 : ℤ) - den.log2 - 1) = 2 ^ num.log2 / 2 ^ (den.log2 + 1) := by
      rw [sub_sub, zpow_sub₀ two_ne_zero]
      norm_cast
    rw [heq]
    exact div_le_div₀ (by positivity) hnumLow hden' hdenHigh.le
  · have heq : (2 : ℚ) ^ ((num.log2 : ℤ) - den.log2 + 1) = 2 ^ (num.log2 + 1) / 2 ^ den.log2 := by
      rw [sub_add_eq_add_sub, zpow_sub₀ two_ne_zero]
      norm_cast
    rw [heq]
    exact div_lt_div₀ hnumHigh hdenLow (by positivity) (by positivity)

/-- The top exponent of a quotient is the exponent of its first bit. -/
theorem topExponent_spec {num den : ℕ} (hnum : 0 < num) (hden : 0 < den) :
    (2 : ℚ) ^ topExponent num den ≤ num / den ∧ (num : ℚ) / den < 2 ^ (topExponent num den + 1) := by
  obtain ⟨hlower, hupper⟩ := log2_bounds hnum hden
  have htest := pow_le_div_iff num two_pos hden ((num.log2 : ℤ) - den.log2)
  unfold topExponent
  dsimp only
  split
  · next h => exact ⟨htest.1 h, hupper⟩
  · next h =>
    rw [Int.sub_add_cancel]
    exact ⟨hlower, not_le.1 fun hle => h (htest.2 hle)⟩

/-- A magnitude in quarters of the last place of a number. -/
def quarters (x : Float) (q : ℚ) : ℚ := 4 * (q / 2 ^ exponent x)

/-- The magnitude lies in the interval of those that are rounded to the number. -/
structure Rounds (x : Float) (q : ℚ) : Prop where
  lower : lowerEnd x ≤ quarters x q
  upper : quarters x q ≤ upperEnd x
  strict : mantissa x % 2 = 1 → lowerEnd x < quarters x q ∧ quarters x q < upperEnd x

/-- The interval of what is rounded to a number begins at most half a place below it. -/
theorem centre_le_lowerEnd_add_two (x : Float) : 4 * mantissa x ≤ lowerEnd x + 2 := by
  unfold lowerEnd centre
  split <;> omega

/-- What rounds to a number is at most half a place away from it. -/
theorem Rounds.half {q : ℚ} (h : Rounds x q) :
    mantissa x - 1 / 2 ≤ q / 2 ^ exponent x ∧ q / 2 ^ exponent x ≤ mantissa x + 1 / 2 := by
  have hlow : (4 * mantissa x : ℚ) ≤ lowerEnd x + 2 := by
    exact_mod_cast centre_le_lowerEnd_add_two x
  have hhigh : (upperEnd x : ℚ) = 4 * mantissa x + 2 := by simp [upperEnd, centre]
  have := h.lower
  have := h.upper
  unfold quarters at *
  constructor <;> linarith

/-- An odd mantissa is not rounded to from half way. -/
theorem Rounds.half_strict {q : ℚ} (h : Rounds x q) (hodd : mantissa x % 2 = 1) :
    mantissa x - 1 / 2 < q / 2 ^ exponent x ∧ q / 2 ^ exponent x < mantissa x + 1 / 2 := by
  have hlow : (4 * mantissa x : ℚ) ≤ lowerEnd x + 2 := by
    exact_mod_cast centre_le_lowerEnd_add_two x
  have hhigh : (upperEnd x : ℚ) = 4 * mantissa x + 2 := by simp [upperEnd, centre]
  obtain ⟨hlower, hupper⟩ := h.strict hodd
  unfold quarters at *
  constructor <;> linarith

/-- A quotient has its first bit at most 52 places above the last place of the number that it rounds
to. -/
theorem Rounds.topExponent_le (hx : IsCanonical (mantissa x) (exponent x)) {num den : ℕ}
    (hnum : 0 < num) (hden : 0 < den) (h : Rounds x (num / den)) :
    topExponent num den - 52 ≤ exponent x := by
  have hpow : (0 : ℚ) < 2 ^ exponent x := by positivity
  have hmax : (mantissa x : ℚ) + 1 / 2 < 2 ^ 53 := by
    have : (mantissa x : ℚ) + 1 ≤ 2 ^ 53 := by exact_mod_cast hx.lt
    linarith
  have : (2 : ℚ) ^ topExponent num den < 2 ^ (53 + exponent x) := by
    rw [zpow_add₀ two_ne_zero]
    calc (2 : ℚ) ^ topExponent num den ≤ num / den := (topExponent_spec hnum hden).1
      _ ≤ (mantissa x + 1 / 2) * 2 ^ exponent x := (div_le_iff₀ hpow).1 h.half.2
      _ < 2 ^ (53 : ℤ) * 2 ^ exponent x := by
        refine mul_lt_mul_of_pos_right ?_ hpow
        exact_mod_cast hmax
  have := (zpow_lt_zpow_iff_right₀ one_lt_two).1 this
  omega

/-- What rounds to a number from below the numbers with its last place rounds to the smallest of
them, a power of two. -/
theorem Rounds.mantissa_eq (hx : IsCanonical (mantissa x) (exponent x)) {q : ℚ} (h : Rounds x q)
    (he : -1074 < exponent x) (hq : q < 2 ^ 52 * 2 ^ exponent x) : mantissa x = 2 ^ 52 := by
  have hpow : (0 : ℚ) < 2 ^ exponent x := by positivity
  have hlower := h.half.1
  have hupper : q / 2 ^ exponent x < 2 ^ 52 := (div_lt_iff₀ hpow).2 hq
  have hlt : (mantissa x : ℚ) < 2 ^ 52 + 1 := by linarith
  have hlt : mantissa x < 2 ^ 52 + 1 := by exact_mod_cast hlt
  have hnormal := hx.normal.resolve_left (by omega)
  omega

/-- What rounds to the smallest of these numbers is at least half of it. -/
theorem Rounds.le_of_mantissa_eq {q : ℚ} (h : Rounds x q) (hmantissa : mantissa x = 2 ^ 52) :
    (2 : ℚ) ^ (exponent x + 51) ≤ q := by
  have hpow : (0 : ℚ) < 2 ^ exponent x := by positivity
  calc (2 : ℚ) ^ (exponent x + 51) = 2 ^ 51 * 2 ^ exponent x := by
        rw [add_comm, zpow_add₀ two_ne_zero]
        rfl
    _ ≤ (mantissa x - 1 / 2) * 2 ^ exponent x := by
      refine mul_le_mul_of_nonneg_right ?_ hpow.le
      rw [hmantissa]
      norm_num
    _ ≤ q := (le_div_iff₀ hpow).1 h.half.1

/-- The place of a quotient is the last place of the number that it rounds to, or the place below
that, where the places get narrower below a power of two. -/
theorem placeExponent_cases (hx : IsCanonical (mantissa x) (exponent x)) {num den : ℕ}
    (hnum : 0 < num) (hden : 0 < den) (h : Rounds x (num / den)) :
    placeExponent num den = exponent x ∨
      (placeExponent num den = exponent x - 1 ∧ mantissa x = 2 ^ 52 ∧ -1074 < exponent x ∧
        (num : ℚ) / den < 2 ^ 52 * 2 ^ exponent x) := by
  have hhigh := (topExponent_spec hnum hden).2
  have hle := hx.le
  have hplace := h.topExponent_le hx hnum hden
  unfold placeExponent
  by_cases hnarrow : topExponent num den < exponent x + 52 ∧ -1074 < exponent x
  · -- below the power of two at the lower end of the numbers with this last place
    obtain ⟨hlt, he⟩ := hnarrow
    have hbelow : (num : ℚ) / den < 2 ^ 52 * 2 ^ exponent x := by
      calc (num : ℚ) / den < 2 ^ (topExponent num den + 1) := hhigh
        _ ≤ (2 : ℚ) ^ (52 + exponent x) := zpow_le_zpow_right₀ one_le_two (by omega)
        _ = 2 ^ 52 * 2 ^ exponent x := zpow_add₀ two_ne_zero _ _
    have hmantissa := h.mantissa_eq hx he hbelow
    have htop : exponent x + 51 < topExponent num den + 1 :=
      (zpow_lt_zpow_iff_right₀ (one_lt_two (α := ℚ))).1
        ((h.le_of_mantissa_eq hmantissa).trans_lt hhigh)
    exact .inr ⟨by omega, hmantissa, he, hbelow⟩
  · left
    omega

/-- In its own last place, what rounds to a number has the mantissa of the number. -/
theorem Rounds.roundDiv_eq {num den : ℕ} (hden : 0 < den) (h : Rounds x (num / den)) :
    roundDiv (num * twoTo (-exponent x).toNat) (den * twoTo (exponent x).toNat) = mantissa x := by
  refine Formulary.roundDiv_eq (Nat.mul_pos hden (twoTo_pos _)) ?_ ?_ ?_
  all_goals rw [scaled_twoTo]
  · exact h.half.1
  · exact h.half.2
  · exact h.half_strict

/-- In the place below, the power of two has one bit more. -/
theorem Rounds.roundDiv_below {num den : ℕ} (hden : 0 < den) (h : Rounds x (num / den))
    (hmantissa : mantissa x = 2 ^ 52) (he : -1074 < exponent x)
    (hbelow : (num : ℚ) / den < 2 ^ 52 * 2 ^ exponent x) :
    roundDiv (num * twoTo (-(exponent x - 1)).toNat) (den * twoTo (exponent x - 1).toNat) =
      2 ^ 53 := by
  have hend : lowerEnd x = 2 ^ 54 - 1 := by
    rw [lowerEnd, if_pos ⟨hmantissa, he⟩, centre, hmantissa]
    norm_num
  have hlower : (2 : ℚ) ^ 54 - 1 ≤ quarters x (num / den) := by
    have := h.lower
    rw [hend] at this
    norm_num at this ⊢
    exact this
  have hupper : quarters x (num / den) < 2 ^ 54 := by
    rw [← div_lt_iff₀ (by positivity)] at hbelow
    rw [quarters]
    linarith
  have hscaled : (num : ℚ) / den / 2 ^ (exponent x - 1) = quarters x (num / den) / 2 := by
    rw [quarters, zpow_sub_one₀ two_ne_zero]
    ring
  refine Formulary.roundDiv_eq (Nat.mul_pos hden (twoTo_pos _)) ?_ ?_
    fun hodd => absurd hodd (by decide)
  all_goals
    rw [scaled_twoTo, hscaled]
    push_cast
    linarith

/-- What rounds to a number has the bits of the number. -/
theorem nearestBits_of_rounds (hx : isFinite x = true) (hzero : isZero x = false) {num den : ℕ}
    (hden : 0 < den) (h : Rounds x (num / den)) : nearestBits num den = magnitudeBits x := by
  have hcanonical := isCanonical_of_isFinite hx hzero
  have hnum : 0 < num := by
    refine Nat.pos_of_ne_zero fun hnum => ?_
    have hone : (1 : ℚ) ≤ mantissa x := by exact_mod_cast hcanonical.pos
    have := h.half.1
    rw [hnum, Nat.cast_zero, zero_div, zero_div] at this
    linarith
  have hfinite : magnitudeBits x < infinityBits := of_decide_eq_true hx
  have htwo : twoTo 52 = 2 ^ 52 := rfl
  have hbits := magnitudeBits_eq x
  rw [nearestBits, if_neg hnum.ne']
  dsimp only
  rcases placeExponent_cases hcanonical hnum hden h with hplace | ⟨hplace, hmantissa, he, hbelow⟩
  · rw [hplace, h.roundDiv_eq hden, htwo, ← hbits, Nat.min_eq_left hfinite.le]
  · rw [hplace, h.roundDiv_below hden hmantissa he hbelow, htwo, ← Nat.min_eq_left hfinite.le]
    congr 1
    omega

end Binary64

end Formulary
