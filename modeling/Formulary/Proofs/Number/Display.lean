import Formulary.Proofs.Number.Closest
import Formulary.Proofs.Number.Expansion

/-!
# Displayed numbers

A displayed number is rounded exactly, from all digits of the binary64 number, and half to even
(`NumberFormat.IsRounded`). The text is the only spelling of the rounded number in its format
(`NumberFormat.IsSpelling`): zeros that say nothing are left out, digits are grouped exactly if the
format groups them, and a number that is rounded to zero has no sign. In a format whose separators
are not signs, every such spelling is read as the binary64 number nearest to what it spells
(`NumberFormat.read_of_isSpelling`). All of this is `NumberFormat.display_rounded`.

The capacity counts the digits of the rounded number with all its decimal places. Up to 800 places
the largest number keeps within it; a zero has no digits to count, and its places have a bound of
their own.
-/

namespace Formulary

open Text Binary64

/-! ## Rounding to places -/

/-- The number `r` is `q` rounded half to even to a number of decimal places. -/
def IsRounded (places : ℕ) (q r : ℚ) : Prop :=
  ∃ n : ℤ, IsHalfEven (q * 10 ^ places) n ∧ r = n / 10 ^ places

namespace Binary64

variable {x : Float}

/-- The rounded magnitude, counted in last places. -/
theorem isHalfEven_scaled (places : ℕ) (x : Float) :
    IsHalfEven (magnitude x * 10 ^ places) (scaled places x) := by
  have hround := isHalfEven_roundDiv (numerator x * tenTo places) (twoTo_pos (-exponent x).toNat)
  have hvalue : ((numerator x * tenTo places : ℕ) : ℚ) / (twoTo (-exponent x).toNat : ℕ) =
      magnitude x * 10 ^ places := by
    rw [← numerator_div_denominator, denominator, Nat.cast_mul, cast_tenTo]
    ring
  rwa [hvalue] at hround

/-- The rounded number, with its sign. -/
def rounded (places : ℕ) (x : Float) : ℚ := signed (isNegative x) (scaled places x / 10 ^ places)

/-- A number is rounded to places in one way only. -/
theorem isRounded_iff (places : ℕ) (x : Float) (r : ℚ) :
    IsRounded places (toRat x) r ↔ r = rounded places x := by
  have hscaled := isHalfEven_scaled places x
  obtain ⟨n, hn, hr⟩ : IsRounded places (toRat x) (rounded places x) := by
    rw [toRat_eq_signed, rounded]
    cases isNegative x with
    | false => exact ⟨scaled places x, hscaled, by simp [signed]⟩
    | true =>
      refine ⟨-scaled places x, ?_, ?_⟩
      · rw [signed, if_pos rfl, neg_mul]
        exact hscaled.neg
      · rw [signed, if_pos rfl]
        push_cast
        ring
  constructor
  · rintro ⟨k, hk, rfl⟩
    rw [hr, hn.unique hk]
  · rintro rfl
    exact ⟨n, hn, hr⟩

/-- The absolute value of a rounded number. -/
theorem abs_rounded (places : ℕ) (x : Float) :
    |rounded places x| = scaled places x / 10 ^ places :=
  abs_signed (by positivity) _

/-- A rounded number is negative if it is not zero and the number had a sign. -/
theorem rounded_neg_iff (places : ℕ) (x : Float) :
    rounded places x < 0 ↔ scaled places x ≠ 0 ∧ isNegative x = true := by
  rw [rounded, signed]
  split
  · next hsign =>
    rw [neg_lt_zero, div_pos_iff_of_pos_right (by positivity), Nat.cast_pos, Nat.pos_iff_ne_zero]
    exact (and_iff_left hsign).symm
  · next hsign =>
    refine iff_of_false (not_lt.2 (by positivity)) fun h => hsign h.2

/-- The largest finite number is an integer. -/
theorem exists_nat_largest : ∃ k : ℕ, largest = k := by
  refine ⟨(2 ^ 53 - 1) * twoTo 971, ?_⟩
  rw [Nat.cast_mul, cast_twoTo, ← zpow_natCast]
  exact congrArg (· * (2 : ℚ) ^ (971 : ℤ)) (by norm_num)

/-- Rounding does not leave what is bounded by an integer. -/
theorem scaled_le {k : ℕ} (hle : magnitude x ≤ k) (places : ℕ) : scaled places x ≤ k * 10 ^ places := by
  have hround : ((scaled places x : ℕ) : ℤ) ≤ (k * 10 ^ places : ℕ) := by
    refine (isHalfEven_scaled places x).le_of_le ?_
    push_cast
    gcongr
  exact_mod_cast hround

/-- Rounding to places does not go beyond the largest number. -/
theorem abs_rounded_le_largest (places : ℕ) (hx : isFinite x = true) :
    |rounded places x| ≤ largest := by
  obtain ⟨k, hk⟩ := exists_nat_largest
  have hle := scaled_le (hk ▸ magnitude_le_largest hx) places
  rw [abs_rounded, div_le_iff₀ (by positivity), hk]
  exact_mod_cast hle

/-! ## The capacity -/

theorem tenTo_add (m n : ℕ) : tenTo (m + n) = tenTo m * tenTo n := Nat.pow_add 10 m n

theorem tenTo_lt {m n : ℕ} (h : m < n) : tenTo m < tenTo n := Nat.pow_lt_pow_right (by norm_num) h

/-- The largest number has 309 digits. -/
theorem magnitude_le_tenTo (hx : isFinite x = true) : magnitude x ≤ tenTo 309 := by
  have hpow : twoTo 52 * twoTo 972 < tenTo 309 := by decide +kernel
  calc magnitude x ≤ largest := magnitude_le_largest hx
    _ ≤ 2 ^ 52 * 2 ^ ((972 : ℕ) : ℤ) := (largest_lt (by norm_num)).le
    _ = (twoTo 52 * twoTo 972 : ℕ) := by
      rw [zpow_natCast, Nat.cast_mul, cast_twoTo, cast_twoTo]
    _ ≤ tenTo 309 := Nat.cast_le.2 hpow.le

/-- The first digit of the smallest number is at the 324th place. -/
theorem lt_magnitude (hx : isFinite x = true) (hzero : isZero x = false) :
    1 / 10 ^ 324 < magnitude x := by
  have hpow : twoTo 1074 < tenTo 324 := by decide +kernel
  have hpow : (2 : ℚ) ^ 1074 < 10 ^ 324 := by
    rw [← cast_twoTo, ← cast_tenTo]
    exact_mod_cast hpow
  have hmantissa : (1 : ℚ) ≤ mantissa x := by
    exact_mod_cast (isCanonical_of_isFinite hx hzero).pos
  have hexponent : (2 : ℚ) ^ (-(1074 : ℕ) : ℤ) ≤ 2 ^ exponent x :=
    zpow_le_zpow_right₀ one_le_two (le_exponent x)
  calc (1 : ℚ) / 10 ^ 324 < 1 / 2 ^ 1074 := one_div_lt_one_div_of_lt (by positivity) hpow
    _ = 1 * 2 ^ (-(1074 : ℕ) : ℤ) := by rw [zpow_neg, zpow_natCast, one_div, one_mul]
    _ ≤ magnitude x := mul_le_mul hmantissa hexponent (by positivity) (by positivity)

/-- Zero is rounded to zero. -/
theorem scaled_of_isZero (places : ℕ) (hzero : isZero x = true) : scaled places x = 0 := by
  have hmantissa := mantissa_eq_zero (beq_iff_eq.1 hzero)
  have hround := roundDiv_mul 0 (denominator x) (twoTo_pos _)
  rw [scaled, numerator, hmantissa, Nat.zero_mul, Nat.zero_mul]
  rwa [Nat.zero_mul] at hround

end Binary64

namespace NumberFormat

variable {f : NumberFormat} {x : Float}

/-- With few places every number keeps within the capacity. -/
theorem scaled_lt_of_le {places : ℕ} (hx : isFinite x = true) (hplaces : places ≤ 800) :
    scaled places x < tenTo displayCapacity := by
  calc scaled places x ≤ tenTo 309 * tenTo places := scaled_le (magnitude_le_tenTo hx) places
    _ = tenTo (309 + places) := (tenTo_add 309 places).symm
    _ < tenTo displayCapacity := tenTo_lt (by unfold displayCapacity; omega)

/-- A number that is not zero has a digit within the useful places, or too many digits. -/
theorem le_usefulPlaces {places : ℕ} (hx : isFinite x = true) (hzero : isZero x = false)
    (hcapacity : scaled places x < tenTo displayCapacity) : places ≤ usefulPlaces := by
  have hround := (abs_le.1 (isHalfEven_scaled places x).close).1
  have hcapacity : (scaled places x : ℚ) + 1 ≤ 10 ^ displayCapacity := by
    rw [← cast_tenTo]
    exact_mod_cast hcapacity
  by_contra hmany
  have hpow : (10 : ℚ) ^ displayCapacity < magnitude x * 10 ^ places := by
    calc (10 : ℚ) ^ displayCapacity ≤ 10 ^ (places - 324) :=
          pow_le_pow_right₀ (by norm_num) (by unfold usefulPlaces at hmany; omega)
      _ = 1 / 10 ^ 324 * 10 ^ places := by
        rw [pow_sub₀ _ (by norm_num) (by unfold usefulPlaces at hmany; omega), one_div, mul_comm]
      _ < magnitude x * 10 ^ places :=
        mul_lt_mul_of_pos_right (lt_magnitude hx hzero) (by positivity)
  rw [Int.cast_natCast] at hround
  linarith

/-- A number whose digits fit the capacity can be displayed. -/
theorem canDisplay_of_lt (hx : isFinite x = true)
    (hplaces : isZero x = true → f.maxFractionDigits ≤ placesCapacity)
    (hcapacity : scaled f.maxFractionDigits x < tenTo displayCapacity) : f.canDisplay x = true := by
  unfold canDisplay
  by_cases hzero : isZero x = true
  · simp [hzero, hplaces hzero]
  · have hzero : isZero x = false := by simpa using hzero
    simp [hzero, hcapacity, le_usefulPlaces hx hzero hcapacity]

/-! ## Spelling -/

/-- The text spells a number in a format: a minus sign if it is negative, its digits, which are in
groups if the format groups them, and the places behind the separator if there are any. -/
def IsSpelling (f : NumberFormat) (r : ℚ) (text : List Char) : Prop :=
  ∃ whole fraction digits, IsExpansion |r| whole fraction ∧
    (if f.groupingUsed = true then InThrees f.grouping whole digits else digits = whole) ∧
    text = (if r < 0 then ['-'] else []) ++ digits ++
      if fraction = [] then [] else f.decimal :: fraction

/-- A number has one spelling. -/
theorem IsSpelling.unique {r : ℚ} {s t : List Char} (hs : f.IsSpelling r s) (ht : f.IsSpelling r t) :
    s = t := by
  obtain ⟨whole, fraction, digits, hexpansion, hdigits, rfl⟩ := hs
  obtain ⟨whole', fraction', digits', hexpansion', hdigits', rfl⟩ := ht
  obtain ⟨rfl, rfl⟩ := hexpansion.unique hexpansion'
  have hsame : digits = digits' := by
    by_cases hused : f.groupingUsed = true
    · rw [if_pos hused] at hdigits hdigits'
      exact hdigits.unique hdigits'
    · rw [if_neg hused] at hdigits hdigits'
      rw [hdigits, hdigits']
  rw [hsame]

/-- Zero is spelled with one digit. -/
theorem isSpelling_zero : f.IsSpelling 0 ['0'] := by
  have hexpansion : IsExpansion |(0 : ℚ)| ['0'] [] := by
    refine ⟨by decide, by simp, by simp, fun _ => rfl, by simp, ?_⟩
    have hzero : digitsValue (['0'] ++ []) = 0 := rfl
    rw [hzero, Nat.cast_zero, zero_div, abs_zero]
  refine ⟨['0'], [], ['0'], hexpansion, ?_, by simp⟩
  split
  · exact .first (by simp) (by simp)
  · rfl

/-- No places are left of an integer. -/
theorem dropTrailingZeros_no_places (n : ℕ) :
    dropTrailingZeros (padLeft 0 (digitsOf (n % tenTo 0))) = [] := by
  have hmod : n % tenTo 0 = 0 := Nat.mod_one n
  rw [hmod]
  rfl

/-- The displayed digits spell the rounded number. -/
theorem isSpelling_fixed (f : NumberFormat) (hx : isFinite x = true) :
    f.IsSpelling (rounded f.maxFractionDigits x) (fixed f.decimal
      (if f.groupingUsed = true then some f.grouping else none) f.maxFractionDigits x) := by
  have hexpansion := isExpansion_places (scaled f.maxFractionDigits x) f.maxFractionDigits
  have hplaces : f.maxFractionDigits = 0 → dropTrailingZeros (padLeft f.maxFractionDigits
      (digitsOf (scaled f.maxFractionDigits x % tenTo f.maxFractionDigits))) = [] := by
    intro hzero
    rw [hzero]
    exact dropTrailingZeros_no_places _
  rw [← abs_rounded] at hexpansion
  rw [fixed, if_pos hx]
  dsimp only
  simp only [← rounded_neg_iff, or_iff_right_of_imp hplaces]
  by_cases hused : f.groupingUsed = true
  · rw [if_pos hused]
    refine ⟨_, _, _, hexpansion, ?_, rfl⟩
    rw [if_pos hused]
    exact inThrees_groupThousands _ Nat.toDigits_ne_nil
  · rw [if_neg hused]
    refine ⟨_, _, _, hexpansion, ?_, rfl⟩
    rw [if_neg hused]

/-- What is displayed spells the rounded number. -/
theorem isSpelling_displayed (f : NumberFormat) (hx : isFinite x = true) :
    f.IsSpelling (rounded f.maxFractionDigits x) (f.displayed x).toList := by
  unfold displayed
  by_cases hzero : isZero x = true
  · have hrounded : rounded f.maxFractionDigits x = 0 := by
      rw [rounded, scaled_of_isZero _ hzero, Nat.cast_zero, zero_div, signed, neg_zero, ite_self]
    rw [if_pos hzero, hrounded]
    exact isSpelling_zero
  · rw [if_neg hzero, String.toList_ofList]
    exact f.isSpelling_fixed hx

/-! ## Reading -/

/-- What spells a number is read as the nearest binary64 number. -/
theorem read_of_isSpelling (hf : f.SignFree) {r : ℚ} {text : List Char} (h : f.IsSpelling r text)
    (hle : |r| ≤ largest) :
    ∃ y, f.read text = .ok y ∧ IsNearest r y ∧ (isNegative y = true ↔ r < 0) := by
  obtain ⟨whole, fraction, digits, hexpansion, hdigits, rfl⟩ := h
  have hvalue := hexpansion.value
  rw [← cast_tenTo] at hvalue
  have hwhole := fun c hc => isDecimalDigit_of_mem (hexpansion.whole_digits c hc)
  have hfraction := fun c hc => isDecimalDigit_of_mem (hexpansion.fraction_digits c hc)
  have hfront : f.isWhole digits = true ∧ f.normalized digits = whole := by
    by_cases hused : f.groupingUsed = true
    · rw [if_pos hused] at hdigits
      exact ⟨isWhole_of_inThrees hused hdigits hwhole, normalized_of_inThrees hused hdigits hwhole⟩
    · rw [if_neg hused] at hdigits
      rw [hdigits]
      exact ⟨f.isWhole_digits hwhole hexpansion.whole_ne_nil, f.normalized_digits hwhole⟩
  obtain ⟨hfront, hnormalized⟩ := hfront
  -- the text behind its sign
  have hbody : f.isUnsigned (digits ++ if fraction = [] then [] else f.decimal :: fraction) = true ∧
      f.read (digits ++ if fraction = [] then [] else f.decimal :: fraction) =
        .ok (nearest false (digitsValue (whole ++ fraction)) (tenTo fraction.length)) := by
    by_cases hnil : fraction = []
    · rw [if_pos hnil, hnil, List.append_nil, List.append_nil, ← hnormalized]
      exact ⟨isUnsigned_of_isWhole hfront, read_of_isWhole hfront⟩
    · rw [if_neg hnil, ← hnormalized]
      exact ⟨isUnsigned_of_front (.inl hfront) hfraction, read_of_front (.inl hfront) hfraction⟩
  obtain ⟨hunsigned, hread⟩ := hbody
  have hnearest := isNearest_nearest (tenTo_pos fraction.length)
    ((hvalue.trans_le hle).trans_lt largest_lt_overflow)
  rw [hvalue] at hnearest
  by_cases hneg : r < 0
  · obtain ⟨hy, hsign⟩ := hnearest true
    rw [signed, if_pos rfl, abs_of_neg hneg, neg_neg] at hy
    refine ⟨_, ?_, hy, iff_of_true hsign hneg⟩
    rw [if_pos hneg, List.append_assoc, List.singleton_append, read_minus hf hunsigned hread,
      withMinus_nearest]
  · obtain ⟨hy, hsign⟩ := hnearest false
    rw [signed, if_neg Bool.false_ne_true, abs_of_nonneg (not_lt.1 hneg)] at hy
    refine ⟨_, ?_, hy, iff_of_false (by simp [hsign]) hneg⟩
    rw [if_neg hneg, List.nil_append, hread]

/-- A number is displayed as the only spelling of what it is rounded to, if this keeps within the
capacity when all its decimal places are counted; and the text reads back as the nearest number. -/
theorem display_rounded (f : NumberFormat) (x : Float) (hx : isFinite x = true) :
    ∃ r : ℚ, (∀ q, IsRounded f.maxFractionDigits (toRat x) q ↔ q = r) ∧
      (f.maxFractionDigits ≤ 800 → |r| * 10 ^ f.maxFractionDigits < 10 ^ 1200) ∧
      (|r| * 10 ^ f.maxFractionDigits < 10 ^ 1200 → (r = 0 → f.maxFractionDigits ≤ placesCapacity) →
        ∃ text, f.display? x = some text ∧ (∀ s, f.IsSpelling r s ↔ s = text.toList) ∧
          (f.SignFree → ∃ y, f.read text.toList = .ok y ∧ IsNearest r y ∧
            (isNegative y = true ↔ r < 0))) := by
  have hcapacity : |rounded f.maxFractionDigits x| * 10 ^ f.maxFractionDigits =
      scaled f.maxFractionDigits x := by
    rw [abs_rounded, div_mul_cancel₀ _ (by positivity)]
  have hlt : |rounded f.maxFractionDigits x| * 10 ^ f.maxFractionDigits < 10 ^ 1200 ↔
      scaled f.maxFractionDigits x < tenTo displayCapacity := by
    rw [hcapacity, ← cast_tenTo, Nat.cast_lt]
    rfl
  refine ⟨rounded f.maxFractionDigits x, isRounded_iff _ x, fun hplaces => ?_, fun hdigits hzero => ?_⟩
  · exact hlt.2 (scaled_lt_of_le hx hplaces)
  · have hspelling := f.isSpelling_displayed hx
    have hcan : f.canDisplay x = true := by
      refine canDisplay_of_lt hx (fun hx => hzero ?_) (hlt.1 hdigits)
      rw [← abs_eq_zero, abs_rounded, scaled_of_isZero _ hx, Nat.cast_zero, zero_div]
    refine ⟨f.displayed x, by rw [display?, if_pos hcan], fun s => ⟨fun hs => hs.unique hspelling, ?_⟩,
      fun hf => read_of_isSpelling hf hspelling (abs_rounded_le_largest _ hx)⟩
    rintro rfl
    exact hspelling

/-- A number half way between two displayed numbers, in a format that groups digits. -/
theorem display_rounded_half : grouped.display? (-1234567.0625) = some "-1.234.567,062" ∧
    ∃ y, grouped.read "-1.234.567,062".toList = .ok y ∧ IsNearest (-1234567062 / 1000) y ∧
      isNegative y = true := by
  have hx : isFinite (-1234567.0625) = true := by decide +kernel
  have htoRat : toRat (-1234567.0625) = -(19753073 / 16) := by
    have hsign : isNegative (-1234567.0625) = true := by decide +kernel
    have hmantissa : mantissa (-1234567.0625) = 19753073 * 2 ^ 28 := by decide +kernel
    have hexponent : exponent (-1234567.0625) = -32 := by decide +kernel
    rw [toRat, if_pos hsign, magnitude, hmantissa, hexponent]
    norm_num
  obtain ⟨r, hr, hfew, hdisplay⟩ := display_rounded grouped (-1234567.0625) hx
  have hround : IsRounded 3 (toRat (-1234567.0625)) (-1234567062 / 1000) := by
    refine ⟨-1234567062, ⟨?_, fun _ => by decide⟩, by norm_num⟩
    rw [htoRat]
    norm_num [abs_le]
  obtain rfl := (hr _).1 hround
  obtain ⟨text, htext, -, hread⟩ := hdisplay (hfew (by decide)) (by norm_num)
  have hshown : grouped.display? (-1234567.0625) = some "-1.234.567,062" := by decide +kernel
  obtain rfl : "-1.234.567,062" = text := Option.some_injective _ (hshown.symm.trans htext)
  obtain ⟨y, hy, hnearest, hsign⟩ := hread signFree_grouped
  exact ⟨hshown, y, hy, hnearest, hsign.2 (by norm_num)⟩

end NumberFormat

end Formulary
