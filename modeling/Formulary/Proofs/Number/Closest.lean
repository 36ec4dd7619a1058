import Formulary.Proofs.Expr.Reading
import Formulary.Proofs.Number.Shortest
import Formulary.Proofs.Number.Signed

/-!
# Rounding is to the nearest

`Binary64.nearest` names what it does by the bits it makes. Here it is shown to do what its name
says: no finite number is nearer to the quotient than the result, and where two are equally near,
the result is the one with the even mantissa (`Binary64.isNearest_nearest`). From half a place above
the largest number on the result is infinite (`Binary64.nearestBits_eq_infinityBits`).

Both roundings of the library, to an integer and to a binary64 number, come from `roundDiv`, and so
from the one fact that it gives the nearest integer (`isHalfEven_roundDiv`). The binary64 numbers
are no lattice, but those that are not below the last place of the quotient are multiples of this
place (`Binary64.multiple_or_lt`), and all others are farther away than the least number that has
it.
-/

namespace Formulary

/-! ## The nearest integer -/

/-- `n` is an integer nearest to `q`, and the even one half way between two integers. -/
structure IsHalfEven (q : ℚ) (n : ℤ) : Prop where
  close : |n - q| ≤ 1 / 2
  even : |n - q| = 1 / 2 → Even n

/-- Two integers are at least one apart, by way of any number. -/
theorem one_le_abs_sub {n k : ℤ} (hne : k ≠ n) (q : ℚ) : 1 ≤ |k - q| + |n - q| := by
  have hint : 1 ≤ |k - n| := Int.one_le_abs (sub_ne_zero.2 hne)
  calc (1 : ℚ) ≤ |((k - n : ℤ) : ℚ)| := by exact_mod_cast hint
    _ = |(k - q) - (n - q)| := by
      push_cast
      rw [sub_sub_sub_cancel_right]
    _ ≤ |k - q| + |n - q| := abs_sub _ _

namespace IsHalfEven

variable {q : ℚ} {n k : ℤ}

/-- No integer is nearer. -/
theorem abs_sub_le (h : IsHalfEven q n) (k : ℤ) : |n - q| ≤ |k - q| := by
  by_cases hne : k = n
  · rw [hne]
  · have hfar := one_le_abs_sub hne q
    have hclose := h.close
    linarith

/-- Only an even integer has another one as near. -/
theorem even_of_abs_sub_eq (h : IsHalfEven q n) (heq : |k - q| = |n - q|) (hne : k ≠ n) : Even n := by
  have hfar := one_le_abs_sub hne q
  have hclose := h.close
  exact h.even (by linarith)

/-- There is one nearest integer, with ties to the even one. -/
theorem unique (h : IsHalfEven q n) (h' : IsHalfEven q k) : k = n := by
  by_contra hne
  have heq : |k - q| = |n - q| := le_antisymm (h'.abs_sub_le n) (h.abs_sub_le k)
  -- two integers at the same distance of at most a half are neighbours
  have hclose : |k - n| ≤ 1 := by
    have hle : |((k - n : ℤ) : ℚ)| ≤ 1 := by
      calc |((k - n : ℤ) : ℚ)| = |(k - q) - (n - q)| := by
            push_cast
            rw [sub_sub_sub_cancel_right]
        _ ≤ |k - q| + |n - q| := abs_sub _ _
        _ ≤ 1 := by linarith [h.close, h'.close]
    exact_mod_cast hle
  obtain ⟨a, ha⟩ := h.even_of_abs_sub_eq heq hne
  obtain ⟨b, hb⟩ := h'.even_of_abs_sub_eq heq.symm (Ne.symm hne)
  have hbounds := abs_le.1 hclose
  omega

/-- Rounding is symmetric. -/
theorem neg (h : IsHalfEven q n) : IsHalfEven (-q) (-n) := by
  have habs : |((-n : ℤ) : ℚ) - -q| = |n - q| := by
    push_cast
    rw [neg_sub_neg, abs_sub_comm]
  exact ⟨habs ▸ h.close, fun htie => (h.even (habs ▸ htie)).neg⟩

/-- Rounding does not leave what is bounded by an integer. -/
theorem le_of_le (h : IsHalfEven q n) (hle : q ≤ k) : n ≤ k := by
  have hclose := (abs_le.1 h.close).2
  by_contra hlt
  have hone : (k : ℚ) + 1 ≤ n := by exact_mod_cast not_le.1 hlt
  linarith

/-- Rounding does not cross an integer. -/
theorem ge_of_ge (h : IsHalfEven q n) (hle : k ≤ q) : k ≤ n := by
  have hneg : -n ≤ -k := h.neg.le_of_le (by push_cast; exact neg_le_neg hle)
  omega

end IsHalfEven

/-- Half way between two integers, twice the distance to either is the denominator. -/
theorem two_mul_of_abs_sub_eq {num den n : ℕ} (hden : 0 < den)
    (htie : |(n : ℚ) - num / den| = 1 / 2) :
    2 * (n * den) = 2 * num + den ∨ 2 * (n * den) + den = 2 * num := by
  have hden' : (den : ℚ) ≠ 0 := by exact_mod_cast hden.ne'
  have hclear (d : ℚ) (h : (n : ℚ) - num / den = d) : 2 * (n * den : ℚ) = 2 * num + 2 * d * den := by
    rw [sub_eq_iff_eq_add.1 h]
    field_simp
    ring
  rcases (abs_eq (by norm_num)).1 htie with h | h
  · left
    have hclear := hclear _ h
    have : (2 * (n * den) : ℚ) = 2 * num + den := by linarith
    exact_mod_cast this
  · right
    have hclear := hclear _ h
    have : (2 * (n * den) + den : ℚ) = 2 * num := by linarith
    exact_mod_cast this

/-- The rounded quotient is the integer nearest to the quotient. -/
theorem isHalfEven_roundDiv (num : ℕ) {den : ℕ} (hden : 0 < den) :
    IsHalfEven (num / den) (roundDiv num den) := by
  have hden' : (0 : ℚ) < den := by exact_mod_cast hden
  obtain ⟨hlow, hhigh⟩ := Binary64.roundDiv_close num hden
  refine ⟨?_, fun htie => ?_⟩
  · rw [Int.cast_natCast, abs_le]
    constructor <;> linarith
  · have hnum : num / den * den + num % den = num := Nat.div_add_mod' num den
    have hmod := Nat.mod_lt num hden
    have htie := two_mul_of_abs_sub_eq hden (by rwa [Int.cast_natCast] at htie)
    rw [Int.even_coe_nat, Nat.even_iff]
    unfold roundDiv at htie ⊢
    split
    · next hbelow =>
      rw [if_pos hbelow] at htie
      omega
    · next hbelow =>
      rw [if_neg hbelow] at htie
      split
      · next habove =>
        rw [if_pos habove, Nat.add_one_mul (num / den)] at htie
        omega
      · omega

namespace Binary64

variable {x y z : Float}

/-! ## Bits and magnitudes -/

/-- A mantissa has at most 53 binary digits. -/
theorem mantissa_lt (x : Float) : mantissa x < 2 ^ 53 := by
  have htwo : twoTo 52 = 2 ^ 52 := rfl
  unfold mantissa
  dsimp only
  rw [htwo]
  split <;> omega

/-- No number has a place below the last one of the subnormal numbers. -/
theorem le_exponent (x : Float) : -1074 ≤ exponent x := by
  have htwo : twoTo 52 = 2 ^ 52 := rfl
  unfold exponent
  dsimp only
  rw [htwo]
  split <;> omega

/-- Zero has the mantissa zero. -/
theorem mantissa_eq_zero (hx : magnitudeBits x = 0) : mantissa x = 0 := by
  rw [mantissa, hx]
  rfl

/-- No magnitude is negative. -/
theorem magnitude_nonneg (x : Float) : 0 ≤ magnitude x := by
  unfold magnitude
  positivity

/-- The largest finite number. -/
def largest : ℚ := (2 ^ 53 - 1) * 2 ^ (971 : ℤ)

/-- No finite number is beyond the largest one. -/
theorem magnitude_le_largest (hx : isFinite x = true) : magnitude x ≤ largest := by
  have hmantissa : (mantissa x : ℚ) + 1 ≤ 2 ^ 53 := by exact_mod_cast mantissa_lt x
  have hpow : (2 : ℚ) ^ exponent x ≤ 2 ^ (971 : ℤ) :=
    zpow_le_zpow_right₀ one_le_two (exponent_le hx)
  have hnonneg : (0 : ℚ) ≤ 2 ^ exponent x := by positivity
  unfold magnitude largest
  exact mul_le_mul (by linarith) hpow hnonneg (by norm_num)

/-- From this magnitude on numbers are rounded to infinity: it lies half a place above the largest
number. -/
def overflow : ℚ := largest + 2 ^ (970 : ℤ)

/-- Where numbers are rounded to infinity, written as a mantissa and a place. -/
theorem overflow_eq : overflow = (2 ^ 53 - 1 / 2) * 2 ^ (971 : ℤ) := by
  have hpow : (2 : ℚ) ^ (971 : ℤ) = 2 ^ (970 : ℤ) * 2 := zpow_add_one₀ two_ne_zero 970
  rw [overflow, largest, hpow]
  ring

/-- The largest number is not rounded to infinity. -/
theorem largest_lt_overflow : largest < overflow := lt_add_of_pos_right _ (by positivity)

/-- A number whose last place is higher than that of the largest one is too large. -/
theorem overflow_le {e : ℤ} (he : 971 < e) : overflow ≤ 2 ^ 52 * 2 ^ e := by
  have hpos : (0 : ℚ) ≤ 2 ^ (971 : ℤ) := by positivity
  calc overflow = (2 ^ 53 - 1 / 2) * 2 ^ (971 : ℤ) := overflow_eq
    _ ≤ 2 ^ 53 * 2 ^ (971 : ℤ) := mul_le_mul_of_nonneg_right (by norm_num) hpos
    _ = 2 ^ 52 * 2 ^ (971 + 1 : ℤ) := by
      rw [zpow_add_one₀ two_ne_zero]
      ring
    _ ≤ 2 ^ 52 * 2 ^ e :=
      mul_le_mul_of_nonneg_left (zpow_le_zpow_right₀ one_le_two he) (by norm_num)

/-- A mantissa at a higher place is beyond the largest number. -/
theorem largest_lt {e : ℤ} (he : 971 < e) : largest < 2 ^ 52 * 2 ^ e :=
  largest_lt_overflow.trans_le (overflow_le he)

/-- A number whose last place is lower is not. -/
theorem le_overflow {e : ℤ} (he : e < 971) : 2 ^ 53 * 2 ^ e ≤ overflow := by
  have hpos : (0 : ℚ) ≤ 2 ^ (971 : ℤ) := by positivity
  calc (2 : ℚ) ^ 53 * 2 ^ e ≤ 2 ^ 53 * 2 ^ (971 - 1 : ℤ) :=
        mul_le_mul_of_nonneg_left (zpow_le_zpow_right₀ one_le_two (by omega)) (by norm_num)
    _ = 2 ^ 52 * 2 ^ (971 : ℤ) := by
      rw [zpow_sub_one₀ two_ne_zero]
      ring
    _ ≤ (2 ^ 53 - 1 / 2) * 2 ^ (971 : ℤ) := mul_le_mul_of_nonneg_right (by norm_num) hpos
    _ = overflow := overflow_eq.symm

/-- A mantissa and an exponent are read off the bits that they make, also where a mantissa of 54
bits has been carried into the exponent. -/
theorem magnitude_eq_of_bits {e : ℤ} {m : ℕ} (he : -1074 ≤ e) (hm : m ≤ 2 ^ 53)
    (hnormal : e = -1074 ∨ 2 ^ 52 ≤ m) (hbits : magnitudeBits y = (e + 1074).toNat * 2 ^ 52 + m) :
    magnitude y = m * 2 ^ e ∧ mantissa y % 2 = m % 2 := by
  have htwo : twoTo 52 = 2 ^ 52 := rfl
  have hparts : mantissa y = m ∧ exponent y = e ∨
      m = 2 ^ 53 ∧ mantissa y = 2 ^ 52 ∧ exponent y = e + 1 := by
    unfold mantissa exponent
    dsimp only
    rw [htwo, hbits]
    split <;> omega
  rcases hparts with ⟨hmantissa, hexponent⟩ | ⟨rfl, hmantissa, hexponent⟩
  · rw [magnitude, hmantissa, hexponent]
    exact ⟨rfl, rfl⟩
  · refine ⟨?_, by rw [hmantissa]; norm_num⟩
    rw [magnitude, hmantissa, hexponent, zpow_add_one₀ two_ne_zero]
    push_cast
    ring

/-- A number is a multiple of a place, or it is less than all numbers that have 53 bits there. -/
theorem multiple_or_lt (z : Float) (e : ℤ) :
    (∃ k : ℤ, magnitude z = k * 2 ^ e) ∨ -1074 < e ∧ magnitude z < 2 ^ 52 * 2 ^ e := by
  by_cases hle : e ≤ exponent z
  · left
    have hpow : (2 : ℚ) ^ (exponent z - e).toNat * 2 ^ e = 2 ^ exponent z := by
      rw [← zpow_natCast, Int.toNat_of_nonneg (by omega), ← zpow_add₀ two_ne_zero,
        Int.sub_add_cancel]
    refine ⟨mantissa z * 2 ^ (exponent z - e).toNat, ?_⟩
    rw [magnitude, ← hpow]
    push_cast
    ring
  · right
    have hlow := le_exponent z
    have hmantissa : (mantissa z : ℚ) < 2 ^ 53 := by exact_mod_cast mantissa_lt z
    have hpow : (2 : ℚ) ^ exponent z ≤ 2 ^ (e - 1) := zpow_le_zpow_right₀ one_le_two (by omega)
    refine ⟨by omega, ?_⟩
    calc magnitude z < 2 ^ 53 * 2 ^ exponent z := by
          unfold magnitude
          gcongr
      _ ≤ 2 ^ 53 * 2 ^ (e - 1) := by gcongr
      _ = 2 ^ 52 * 2 ^ e := by
        rw [zpow_sub_one₀ two_ne_zero]
        ring

/-! ## The place of a quotient -/

section Place

variable {num den : ℕ} (hnum : 0 < num) (hden : 0 < den)

include hnum hden

/-- At its place a quotient has at most 53 bits before the point, and no fewer unless the place is
the smallest. -/
theorem placeExponent_spec : (num : ℚ) / den < 2 ^ 53 * 2 ^ placeExponent num den ∧
    (placeExponent num den = -1074 ∨ 2 ^ 52 * 2 ^ placeExponent num den ≤ (num : ℚ) / den) := by
  obtain ⟨hlow, hhigh⟩ := topExponent_spec hnum hden
  have hplace : placeExponent num den = max (topExponent num den - 52) (-1074) := rfl
  constructor
  · calc (num : ℚ) / den < 2 ^ (topExponent num den + 1) := hhigh
      _ ≤ (2 : ℚ) ^ (53 + placeExponent num den) := zpow_le_zpow_right₀ one_le_two (by omega)
      _ = 2 ^ 53 * 2 ^ placeExponent num den := zpow_add₀ two_ne_zero _ _
  · by_cases hsmall : placeExponent num den = -1074
    · exact .inl hsmall
    · right
      calc (2 : ℚ) ^ 52 * 2 ^ placeExponent num den = 2 ^ (52 + placeExponent num den) :=
            (zpow_add₀ two_ne_zero _ _).symm
        _ ≤ 2 ^ topExponent num den := zpow_le_zpow_right₀ one_le_two (by omega)
        _ ≤ num / den := hlow

omit hnum hden in
/-- The bits of a rounded number stay below those of infinity exactly if it stays below the
overflow, which lies half way between the largest mantissa, an odd one, and the next. -/
theorem bits_lt_iff {q : ℚ} {e : ℤ} {m : ℕ} (hround : IsHalfEven (q / 2 ^ e) m) (hm : m ≤ 2 ^ 53)
    (hplace : -1074 ≤ e) (hnormal : e = -1074 ∨ 2 ^ 52 ≤ m) (hhigh : q < 2 ^ 53 * 2 ^ e)
    (hlow : e = -1074 ∨ 2 ^ 52 * 2 ^ e ≤ q) :
    (e + 1074).toNat * 2 ^ 52 + m < 2047 * 2 ^ 52 ↔ q < overflow := by
  rcases lt_trichotomy e 971 with he | rfl | he
  · exact iff_of_true (by omega) (hhigh.trans_le (le_overflow he))
  · have hpow : (0 : ℚ) < 2 ^ (971 : ℤ) := by positivity
    obtain ⟨hbelow, habove⟩ := abs_le.1 hround.close
    rw [Int.cast_natCast] at hbelow habove
    rw [overflow_eq, ← div_lt_iff₀ hpow]
    constructor
    · intro hlt
      have hle : (m : ℚ) + 1 ≤ 2 ^ 53 := by exact_mod_cast (by omega : m + 1 ≤ 2 ^ 53)
      refine lt_of_le_of_ne (by linarith) fun hhalf => ?_
      have hodd : m + 1 = 2 ^ 53 := by
        have hodd : (m : ℚ) + 1 = 2 ^ 53 := by linarith
        exact_mod_cast hodd
      have htie : |((m : ℤ) : ℚ) - q / 2 ^ (971 : ℤ)| = 1 / 2 := by
        rw [Int.cast_natCast, hhalf, eq_sub_of_add_eq (by exact_mod_cast hodd : (m : ℚ) + 1 = 2 ^ 53)]
        norm_num
      obtain ⟨k, hk⟩ := hround.even htie
      omega
    · intro hlt
      have hlt : (m : ℚ) < 2 ^ 53 := by linarith
      have hlt : m < 2 ^ 53 := by exact_mod_cast hlt
      omega
  · have hlow : 2 ^ 52 * 2 ^ e ≤ q := hlow.resolve_left (by omega)
    exact iff_of_false (by omega) (not_lt.2 ((overflow_le he).trans hlow))

/-- The rounded quotient, counted in last places, makes the bits of the result, as long as these
stay below the bits of infinity. -/
theorem exists_nearestBits_eq :
    ∃ m : ℕ, IsHalfEven (num / den / 2 ^ placeExponent num den) m ∧ m ≤ 2 ^ 53 ∧
      (placeExponent num den = -1074 ∨ 2 ^ 52 ≤ m) ∧
      nearestBits num den =
        min ((placeExponent num den + 1074).toNat * 2 ^ 52 + m) (2047 * 2 ^ 52) := by
  obtain ⟨hhigh, hlow⟩ := placeExponent_spec hnum hden
  have htwo : twoTo 52 = 2 ^ 52 := rfl
  have hinfinity : infinityBits = 2047 * 2 ^ 52 := rfl
  have hround := isHalfEven_roundDiv (num * twoTo (-placeExponent num den).toNat)
    (Nat.mul_pos hden (twoTo_pos (placeExponent num den).toNat))
  rw [scaled_twoTo] at hround
  refine ⟨_, hround, ?_, ?_, by rw [nearestBits, if_neg hnum.ne', htwo, hinfinity]⟩
  all_goals
    generalize placeExponent num den = e at *
    generalize roundDiv (num * twoTo (-e).toNat) (den * twoTo e.toNat) = m at *
    have hpow : (0 : ℚ) < 2 ^ e := by positivity
  · have hle : (m : ℤ) ≤ (2 ^ 53 : ℕ) :=
      hround.le_of_le (by rw [div_le_iff₀ hpow]; push_cast; exact hhigh.le)
    exact_mod_cast hle
  · refine hlow.imp id fun hlow => ?_
    have hle : ((2 ^ 52 : ℕ) : ℤ) ≤ m :=
      hround.ge_of_ge (by rw [le_div_iff₀ hpow]; push_cast; exact hlow)
    exact_mod_cast hle

/-- The bits of the rounded quotient, and the number that they stand for. -/
theorem nearestBits_spec (hlt : (num : ℚ) / den < overflow) :
    ∃ m : ℕ, IsHalfEven (num / den / 2 ^ placeExponent num den) m ∧
      nearestBits num den < infinityBits ∧
      ∀ y, magnitudeBits y = nearestBits num den →
        magnitude y = m * 2 ^ placeExponent num den ∧ mantissa y % 2 = m % 2 := by
  obtain ⟨hhigh, hlow⟩ := placeExponent_spec hnum hden
  have hplace : -1074 ≤ placeExponent num den := le_max_right _ _
  obtain ⟨m, hround, hm, hnormal, hbits⟩ := exists_nearestBits_eq hnum hden
  have hfinite := (bits_lt_iff hround hm hplace hnormal hhigh hlow).2 hlt
  rw [Nat.min_eq_left hfinite.le] at hbits
  rw [hbits]
  exact ⟨m, hround, hfinite, fun y hy => magnitude_eq_of_bits hplace hm hnormal hy⟩

/-- Too large a quotient is rounded to infinity. -/
theorem nearestBits_eq_infinityBits (hle : overflow ≤ (num : ℚ) / den) :
    nearestBits num den = infinityBits := by
  obtain ⟨hhigh, hlow⟩ := placeExponent_spec hnum hden
  have hplace : -1074 ≤ placeExponent num den := le_max_right _ _
  obtain ⟨m, hround, hm, hnormal, hbits⟩ := exists_nearestBits_eq hnum hden
  have hinfinite := (bits_lt_iff hround hm hplace hnormal hhigh hlow).not.2 (not_lt.2 hle)
  rw [hbits, Nat.min_eq_right (not_lt.1 hinfinite)]
  rfl

end Place

/-- No number is nearer to a quotient than the one it is rounded to, up to signs. -/
theorem abs_magnitude_sub_le {num den : ℕ} (hnum : 0 < num) (hden : 0 < den) {m : ℕ}
    (hround : IsHalfEven (num / den / 2 ^ placeExponent num den) m) (z : Float) :
    |m * 2 ^ placeExponent num den - (num / den : ℚ)| ≤ |magnitude z - num / den| ∧
      (|magnitude z - num / den| = |m * 2 ^ placeExponent num den - (num / den : ℚ)| →
        magnitude z ≠ m * 2 ^ placeExponent num den → m % 2 = 0) := by
  obtain ⟨-, hlow⟩ := placeExponent_spec hnum hden
  generalize placeExponent num den = e at *
  have hpow : (0 : ℚ) < 2 ^ e := by positivity
  -- distances from multiples of the place, counted in places
  have hcount (k : ℚ) : |k * 2 ^ e - (num / den : ℚ)| = |k - num / den / 2 ^ e| * 2 ^ e := by
    rw [← abs_of_pos hpow, ← abs_mul, sub_mul, abs_of_pos hpow, div_mul_cancel₀ _ hpow.ne']
  rcases multiple_or_lt z e with ⟨k, hk⟩ | ⟨he, hlt⟩
  · rw [hk, hcount, hcount]
    have hnear := hround.abs_sub_le k
    rw [Int.cast_natCast] at hnear
    refine ⟨mul_le_mul_of_nonneg_right hnear hpow.le, fun heq hne => ?_⟩
    have hne : k ≠ m := by
      rintro rfl
      exact hne (by rw [Int.cast_natCast])
    have heven := hround.even_of_abs_sub_eq
      (by rw [Int.cast_natCast]; exact mul_right_cancel₀ hpow.ne' heq) hne
    exact Nat.even_iff.1 ((Int.even_coe_nat m).1 heven)
  · -- below the least multiple with 53 bits, which is not nearer than the rounded quotient
    have hlow : 2 ^ 52 * 2 ^ e ≤ (num : ℚ) / den := hlow.resolve_left he.ne'
    have hnear := hround.abs_sub_le (2 ^ 52)
    push_cast at hnear
    have hnear : |m * 2 ^ e - (num / den : ℚ)| ≤ |2 ^ 52 * 2 ^ e - (num / den : ℚ)| := by
      rw [hcount, hcount]
      exact mul_le_mul_of_nonneg_right hnear hpow.le
    have hfar : |2 ^ 52 * 2 ^ e - (num / den : ℚ)| < |magnitude z - num / den| := by
      rw [abs_of_nonpos (by linarith), abs_of_neg (by linarith)]
      linarith
    exact ⟨(hnear.trans_lt hfar).le, fun heq => absurd heq (hnear.trans_lt hfar).ne'⟩

/-! ## The nearest number -/

/-- `y` is a finite number nearest to `q`, and of two such numbers the one with the even mantissa.
-/
structure IsNearest (q : ℚ) (y : Float) : Prop where
  finite : isFinite y = true
  nearest : ∀ z, isFinite z = true → |toRat y - q| ≤ |toRat z - q|
  even : ∀ z, isFinite z = true → |toRat z - q| = |toRat y - q| → toRat z ≠ toRat y →
    mantissa y % 2 = 0

/-- A rational number with a sign in front of it. -/
def signed (negative : Bool) (q : ℚ) : ℚ := if negative then -q else q

/-- A number is its magnitude with its sign. -/
theorem toRat_eq_signed (x : Float) : toRat x = signed (isNegative x) (magnitude x) := rfl

/-- The absolute value of a number is its magnitude. -/
theorem abs_toRat (x : Float) : |toRat x| = magnitude x := by
  unfold toRat
  split
  · rw [abs_neg, abs_of_nonneg (magnitude_nonneg x)]
  · exact abs_of_nonneg (magnitude_nonneg x)

/-- A sign does not change an absolute value. -/
theorem abs_signed {q : ℚ} (hq : 0 ≤ q) (negative : Bool) : |signed negative q| = q := by
  unfold signed
  split
  · rw [abs_neg, abs_of_nonneg hq]
  · exact abs_of_nonneg hq

/-- Two numbers with the same sign are as far apart as without it. -/
theorem abs_signed_sub (negative : Bool) (p q : ℚ) :
    |signed negative p - signed negative q| = |p - q| := by
  unfold signed
  split
  · rw [neg_sub_neg, abs_sub_comm]
  · rfl

/-- Two numbers with one magnitude are equally near only to zero. -/
theorem eq_zero_of_abs_sub_eq {q : ℚ} (h : |toRat z - q| = |toRat y - q|)
    (hmagnitude : magnitude z = magnitude y) (hne : toRat z ≠ toRat y) : q = 0 := by
  have hopposite : toRat z = -toRat y := by
    rw [← abs_toRat, ← abs_toRat] at hmagnitude
    exact (abs_eq_abs.1 hmagnitude).resolve_left hne
  have hmiddle : toRat z - q = -(toRat y - q) := by
    refine (abs_eq_abs.1 h).resolve_left fun heq => hne ?_
    linarith
  linarith

/-- What a quotient is rounded to is the number nearest to it, with the sign that is asked for. -/
theorem isNearest_nearest {num den : ℕ} (hden : 0 < den) (hlt : (num : ℚ) / den < overflow)
    (negative : Bool) : IsNearest (signed negative (num / den)) (nearest negative num den) ∧
      isNegative (nearest negative num den) = negative := by
  have hbits := magnitudeBits_ofMagnitudeBits negative (nearestBits_le num den)
  have hsign := isNegative_ofMagnitudeBits negative (nearestBits_le num den)
  rw [← nearest] at hbits hsign
  refine ⟨?_, hsign⟩
  generalize nearest negative num den = y at *
  have hq : (0 : ℚ) ≤ num / den := by positivity
  -- the distance of a number from the quotient is at least that of the magnitudes
  have hdistance (z : Float) :
      |magnitude z - num / den| ≤ |toRat z - signed negative (num / den)| := by
    have := abs_abs_sub_abs_le (toRat z) (signed negative (num / den))
    rwa [abs_toRat, abs_signed hq] at this
  have hself : |toRat y - signed negative (num / den)| = |magnitude y - num / den| := by
    rw [toRat_eq_signed, hsign, abs_signed_sub]
  rcases Nat.eq_zero_or_pos num with rfl | hnum
  · have hzero : magnitudeBits y = 0 := hbits
    have hmantissa := mantissa_eq_zero hzero
    have hmagnitude : magnitude y = 0 := by
      rw [magnitude, hmantissa, Nat.cast_zero, zero_mul]
    refine ⟨?_, fun z _ => ?_, fun _ _ _ _ => by rw [hmantissa]⟩
    · rw [isFinite, hzero]
      rfl
    · rw [hself, hmagnitude, Nat.cast_zero, zero_div, sub_self, abs_zero]
      exact abs_nonneg _
  · obtain ⟨m, hround, hfinite, hparts⟩ := nearestBits_spec hnum hden hlt
    obtain ⟨hmagnitude, hparity⟩ := hparts y hbits
    have hnear := abs_magnitude_sub_le hnum hden hround
    rw [← hmagnitude, ← hparity] at hnear
    refine ⟨?_, fun z _ => ?_, fun z _ heq hne => ?_⟩
    · rw [isFinite, hbits]
      exact decide_eq_true hfinite
    · rw [hself]
      exact (hnear z).1.trans (hdistance z)
    · have hequal : |magnitude z - num / den| = |magnitude y - num / den| :=
        le_antisymm ((hdistance z).trans (heq.trans hself).le) (hnear z).1
      refine (hnear z).2 hequal fun hsame => ?_
      have hzero := congrArg abs (eq_zero_of_abs_sub_eq heq hsame hne)
      rw [abs_signed hq, abs_zero] at hzero
      have hpos : (0 : ℚ) < num / den := by positivity
      exact hpos.ne' hzero

end Binary64

end Formulary
