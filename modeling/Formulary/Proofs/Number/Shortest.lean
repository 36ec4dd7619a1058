import Formulary.Proofs.Number.Nearest

/-!
# The shortest decimal rounds to its number

`Binary64.rounds_shortest`: the decimal that is found for a number lies in the interval of the
number. A decimal from a grid has been tested to lie there. The last one, of seventeen digits, has
not: it is at most half a unit of its seventeenth digit away from the number, which is less than a
quarter of the last place, because `2 ^ 53 < 10 ^ 16`.
-/

namespace Formulary

/-! ## Powers of ten -/

/-- The comparison of `guess_le`, in natural numbers and for one length. -/
def guessFits (d : ℤ) : Bool :=
  twoTo (-(d - 1)).toNat * tenTo (d * 30103 / 100000 - 1).toNat ≤
    twoTo (d - 1).toNat * tenTo (-(d * 30103 / 100000 - 1)).toNat

theorem guessFits_all : ((List.range 2098).all fun k => guessFits (k - 1074)) = true := by
  decide +kernel

/-- Lengths of numbers as powers of two and of ten: the power of ten that is guessed for a length is
at most ten times too large. -/
theorem guess_le {d : ℤ} (hlow : -1074 ≤ d) (hhigh : d ≤ 1023) :
    (10 : ℚ) ^ (d * 30103 / 100000 - 1) ≤ 2 ^ (d - 1) := by
  have hfits : guessFits d = true := by
    have := List.all_eq_true.1 guessFits_all (d + 1074).toNat (List.mem_range.2 (by omega))
    rwa [Int.toNat_of_nonneg (by omega), Int.add_sub_cancel] at this
  have := (pow_le_div_iff (b := 10) _ (by decide) (twoTo_pos _) _).1 (of_decide_eq_true hfits)
  rwa [cast_twoTo, cast_twoTo, pow_toNat_div] at this

/-- The decimal exponent of a quotient is not too large. -/
theorem pow_decimalExponent_le {num den : ℕ} (hnum : 0 < num) (hden : 0 < den)
    (hlow : -1074 ≤ (num.log2 : ℤ) - den.log2) (hhigh : (num.log2 : ℤ) - den.log2 ≤ 1023) :
    (10 : ℚ) ^ decimalExponent num den ≤ num / den := by
  have htest : ∀ e : ℤ, den * tenTo e.toNat ≤ num * tenTo (-e).toNat ↔ (10 : ℚ) ^ e ≤ num / den :=
    fun e => pow_le_div_iff _ (by decide) hden e
  unfold decimalExponent
  dsimp only
  split
  · exact (guess_le hlow hhigh).trans (Binary64.log2_bounds hnum hden).1
  · next hguess =>
    split
    · next habove => exact (htest _).1 habove
    · exact (htest _).1 (Nat.le_of_not_lt hguess)

/-- The number that a decimal stands for. -/
def Decimal.value (d : Decimal) : ℚ := d.coefficient * 10 ^ d.exponent

namespace Binary64

variable {x : Float} {q : ℤ}

/-! ## Decimals from a grid -/

/-- The test for the interval of a number. -/
theorem rounds_of_roundsTo {r : ℚ} {num den : ℕ} (hden : 0 < den)
    (hquarters : (num : ℚ) / den = quarters x r) (h : roundsTo x num den = true) : Rounds x r := by
  have hden' : (0 : ℚ) < den := by exact_mod_cast hden
  have hweak : lowerEnd x * den ≤ num ∧ num ≤ upperEnd x * den := by
    unfold roundsTo at h
    split at h <;> simp at h <;> omega
  refine ⟨?_, ?_, fun hodd => ?_⟩
  · rw [← hquarters, le_div_iff₀ hden']
    exact_mod_cast hweak.1
  · rw [← hquarters, div_le_iff₀ hden']
    exact_mod_cast hweak.2
  · rw [roundsTo, if_neg (by omega), Bool.and_eq_true, decide_eq_true_eq, decide_eq_true_eq] at h
    rw [← hquarters, lt_div_iff₀ hden', div_lt_iff₀ hden']
    exact_mod_cast h

/-- A point of the grid in quarters of the last place. -/
theorem grid_quarters (x : Float) (q : ℤ) (k : ℕ) :
    ((k * (tenTo q.toNat * twoTo (2 - exponent x).toNat) : ℕ) : ℚ) /
      (tenTo (-q).toNat * twoTo (exponent x - 2).toNat : ℕ) =
      quarters x (Decimal.value ⟨k, q⟩) := by
  have hten := pow_toNat_div 10 q
  have htwo := pow_toNat_div 2 (exponent x - 2)
  rw [neg_sub] at htwo
  rw [quarters, Decimal.value, ← hten]
  rw [zpow_sub₀ two_ne_zero] at htwo
  have hplaces : (2 : ℚ) ^ exponent x =
      4 * (2 ^ (exponent x - 2).toNat / 2 ^ (2 - exponent x).toNat) := by
    rw [htwo]
    norm_num
    ring
  rw [hplaces]
  push_cast
  rw [cast_twoTo, cast_twoTo, cast_tenTo, cast_tenTo]
  field_simp

/-- A decimal from a grid has been tested. -/
theorem rounds_of_onGrid? {d : Decimal} (h : onGrid? x q = some d) : Rounds x d.value := by
  have hunit : 0 < tenTo (-q).toNat * twoTo (exponent x - 2).toNat :=
    Nat.mul_pos (tenTo_pos _) (twoTo_pos _)
  have hrounds := fun k => rounds_of_roundsTo hunit (grid_quarters x q k)
  unfold onGrid? at h
  dsimp only at h
  generalize tenTo q.toNat * twoTo (2 - exponent x).toNat = step at *
  generalize tenTo (-q).toNat * twoTo (exponent x - 2).toNat = unit at *
  obtain ⟨hbelow, habove⟩ := roundDiv_bounds (centre x * unit) step
  split at h
  · next hfits =>
    rw [Bool.and_eq_true] at hfits
    cases h
    -- the best decimal is one of the two
    rcases Nat.eq_or_lt_of_le hbelow with heq | hlt
    · exact hrounds _ (heq ▸ hfits.1)
    · have heq := Nat.le_antisymm habove hlt
      exact hrounds _ (heq ▸ hfits.2)
  · split at h
    · next hfits =>
      cases h
      exact hrounds _ hfits
    · split at h
      · next hfits =>
        cases h
        exact hrounds _ hfits
      · cases h

/-! ## Seventeen digits -/

theorem exponent_le (hx : isFinite x = true) : exponent x ≤ 971 := by
  have hbits : magnitudeBits x < 2047 * 2 ^ 52 := of_decide_eq_true hx
  have htwo : twoTo 52 = 2 ^ 52 := rfl
  unfold exponent
  dsimp only
  rw [htwo]
  split <;> omega

/-- The lengths of the two numbers that the magnitude is a quotient of. -/
theorem log2_numerator_sub (hx : isFinite x = true) (hzero : isZero x = false) :
    -1074 ≤ ((numerator x).log2 : ℤ) - (denominator x).log2 ∧
      ((numerator x).log2 : ℤ) - (denominator x).log2 ≤ 1023 := by
  have hcanonical := isCanonical_of_isFinite hx hzero
  have he := exponent_le hx
  have hle := hcanonical.le
  have hden : (denominator x).log2 = (-exponent x).toNat := Nat.log2_two_pow
  have hnum : 0 < numerator x := Nat.mul_pos hcanonical.pos (twoTo_pos _)
  have hlow : (exponent x).toNat ≤ (numerator x).log2 :=
    (Nat.le_log2 hnum.ne').2 (Nat.le_mul_of_pos_left _ hcanonical.pos)
  have hhigh : (numerator x).log2 < 53 + (exponent x).toNat := by
    refine (Nat.log2_lt hnum.ne').2 ?_
    rw [Nat.pow_add]
    exact Nat.mul_lt_mul_of_pos_right hcanonical.lt (twoTo_pos _)
  omega

/-- A rounded quotient is at most half away. -/
theorem roundDiv_close (num : ℕ) {den : ℕ} (hden : 0 < den) :
    (roundDiv num den : ℚ) - 1 / 2 ≤ num / den ∧ (num : ℚ) / den ≤ roundDiv num den + 1 / 2 := by
  have hden' : (0 : ℚ) < den := by exact_mod_cast hden
  have hnum : num / den * den + num % den = num := Nat.div_add_mod' num den
  have hmod := Nat.mod_lt num hden
  have hclose : 2 * (roundDiv num den * den) ≤ 2 * num + den ∧
      2 * num ≤ 2 * (roundDiv num den * den) + den := by
    unfold roundDiv
    split
    · omega
    · split
      · rw [Nat.add_one_mul (num / den)]
        omega
      · rcases Nat.mod_two_eq_zero_or_one (num / den) with heven | hodd
        · rw [heven, Nat.add_zero]
          omega
        · rw [hodd, Nat.add_one_mul (num / den)]
          omega
  rw [le_div_iff₀ hden', div_le_iff₀ hden']
  have hlow : (2 * (roundDiv num den * den) : ℚ) ≤ 2 * num + den := by exact_mod_cast hclose.1
  have hhigh : (2 * num : ℚ) ≤ 2 * (roundDiv num den * den) + den := by exact_mod_cast hclose.2
  constructor <;> linarith

/-- What is a part in `10 ^ 16` of half the number away from it lies in its interval. -/
theorem rounds_of_close (hx : IsCanonical (mantissa x) (exponent x)) {r : ℚ}
    (hlow : centre x - 2 * mantissa x / 10 ^ 16 ≤ quarters x r)
    (hhigh : quarters x r ≤ centre x + 2 * mantissa x / 10 ^ 16) : Rounds x r := by
  have hmantissa : (mantissa x : ℚ) ≤ 2 ^ 53 := by exact_mod_cast hx.lt.le
  have hlower : (lowerEnd x : ℚ) < quarters x r := by
    by_cases hnarrow : mantissa x = twoTo 52 ∧ -1074 < exponent x
    · have hend : lowerEnd x + 1 = centre x := by
        rw [lowerEnd, if_pos hnarrow, centre, hnarrow.1]
        rfl
      have hmantissa : (mantissa x : ℚ) = 2 ^ 52 := by
        rw [hnarrow.1]
        exact cast_twoTo 52
      have : (lowerEnd x : ℚ) + 1 = centre x := by exact_mod_cast hend
      rw [hmantissa] at hlow
      linarith
    · have hend : lowerEnd x + 2 = centre x := by
        have := hx.pos
        rw [lowerEnd, if_neg hnarrow, centre]
        omega
      have : (lowerEnd x : ℚ) + 2 = centre x := by exact_mod_cast hend
      linarith
  have hupper : quarters x r < upperEnd x := by
    rw [upperEnd]
    push_cast
    linarith
  exact ⟨hlower.le, hupper.le, fun _ => ⟨hlower, hupper⟩⟩

/-- The magnitude rounded to seventeen digits. -/
theorem rounds_seventeen (hx : IsCanonical (mantissa x) (exponent x)) {top : ℤ}
    (htop : (10 : ℚ) ^ top ≤ magnitude x) : Rounds x (shortestFrom x top 0 17).value := by
  have hpow : (0 : ℚ) < 2 ^ exponent x := by positivity
  have hunit : (0 : ℚ) < 10 ^ (top - 16) := by positivity
  -- half a unit of the last digit is this part of the magnitude
  have hhalf : (10 : ℚ) ^ (top - 16) / 2 ≤ magnitude x / 10 ^ 16 / 2 := by
    have : (10 : ℚ) ^ (top - 16) = 10 ^ top / 10 ^ 16 := zpow_sub₀ (by norm_num) _ _
    rw [this]
    gcongr
  have hplace : top - (17 : ℕ) + 1 = top - 16 := by omega
  have hplace' : ((17 : ℕ) : ℤ) - 1 - top = -(top - 16) := by omega
  have hden : 0 < denominator x * tenTo (top - 16).toNat :=
    Nat.mul_pos (twoTo_pos (-exponent x).toNat) (tenTo_pos _)
  obtain ⟨hlow, hhigh⟩ := roundDiv_close (numerator x * tenTo (-(top - 16)).toNat) hden
  rw [scaled_tenTo, numerator_div_denominator] at hlow hhigh
  rw [shortestFrom, hplace, hplace']
  generalize roundDiv (numerator x * tenTo (-(top - 16)).toNat)
    (denominator x * tenTo (top - 16).toNat) = k at *
  have hbelow : magnitude x - magnitude x / 10 ^ 16 / 2 ≤ Decimal.value ⟨k, top - 16⟩ := by
    rw [div_le_iff₀ hunit] at hhigh
    show _ ≤ (k : ℚ) * 10 ^ (top - 16)
    linarith
  have habove : Decimal.value ⟨k, top - 16⟩ ≤ magnitude x + magnitude x / 10 ^ 16 / 2 := by
    rw [le_div_iff₀ hunit] at hlow
    show (k : ℚ) * 10 ^ (top - 16) ≤ _
    linarith
  generalize Decimal.value ⟨k, top - 16⟩ = r at *
  have hcentre : (centre x : ℚ) = 4 * mantissa x := by simp [centre]
  refine rounds_of_close hx ?_ ?_
  · rw [quarters, hcentre, ← mul_div_assoc, le_div_iff₀ hpow]
    unfold magnitude at hbelow
    linarith
  · rw [quarters, hcentre, ← mul_div_assoc, div_le_iff₀ hpow]
    unfold magnitude at habove
    linarith

theorem rounds_shortestFrom (hx : IsCanonical (mantissa x) (exponent x)) {top : ℤ}
    (htop : (10 : ℚ) ^ top ≤ magnitude x) {tries n : ℕ} (hn : n + tries = 17) :
    Rounds x (shortestFrom x top tries n).value := by
  induction tries generalizing n with
  | zero =>
    obtain rfl : n = 17 := hn
    exact rounds_seventeen hx htop
  | succ tries ih =>
    unfold shortestFrom
    split
    · next d hgrid => exact rounds_of_onGrid? hgrid
    · exact ih (by omega)

/-- The shortest decimal rounds to the number. -/
theorem rounds_shortest (hx : isFinite x = true) (hzero : isZero x = false) :
    Rounds x (shortest x).value := by
  have hcanonical := isCanonical_of_isFinite hx hzero
  obtain ⟨hlow, hhigh⟩ := log2_numerator_sub hx hzero
  have hnum : 0 < numerator x := Nat.mul_pos hcanonical.pos (twoTo_pos _)
  have hden : 0 < denominator x := twoTo_pos _
  have htop := pow_decimalExponent_le hnum hden hlow hhigh
  rw [numerator_div_denominator] at htop
  rw [shortest, hzero]
  exact rounds_shortestFrom hcanonical htop rfl

end Binary64

end Formulary
