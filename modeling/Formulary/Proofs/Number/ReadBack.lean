import Formulary.Proofs.Number.Exact
import Formulary.Proofs.Number.Shortest

/-!
# Exact texts read back

`NumberFormat.read_shortest`: the digits of the shortest decimal of a finite number are read as this
number without its sign, in every format. So the exact text of a number that is not negative is read
as the number (`NumberFormat.read_exact`).

The text keeps the value of the shortest decimal: its digits, without the separator, are those of a
natural number that counts places of the fraction (`Decimal.value_places`). The reader puts these
digits together again, and what it rounds lies in the interval of the number.
-/

namespace Formulary

open Text

/-! ## Values of digits -/

/-- On the digits of ASCII, the value is that of the library. -/
theorem digitsValue_eq {ds : List Char} (h : ∀ c ∈ ds, c ∈ digitCharacters) :
    digitsValue ds = Nat.ofDigitChars 10 ds 0 := by
  unfold digitsValue Nat.ofDigitChars
  exact List.foldl_ext _ _ _ fun n c hc => by rw [digitValue?_of_mem (h c hc)]; rfl

/-- The digits of a number have its value. -/
theorem digitsValue_digitsOf (n : ℕ) : digitsValue (digitsOf n) = n := by
  rw [digitsValue_eq fun c hc => mem_digitCharacters_of_mem_digitsOf hc]
  exact Nat.ofDigitChars_ten_toDigits

/-- Zeros in front do not count. -/
theorem digitsValue_padLeft (width n : ℕ) : digitsValue (padLeft width (digitsOf n)) = n := by
  rw [digitsValue_eq fun c hc => mem_digitCharacters_of_mem_padLeft hc, padLeft,
    Nat.ofDigitChars_append, Nat.ofDigitChars_replicate_zero, Nat.mul_zero]
  exact Nat.ofDigitChars_ten_toDigits

/-- What is left out are zeros. -/
theorem dropTrailingZeros_append (ds : List Char) :
    dropTrailingZeros ds ++ List.replicate (ds.length - (dropTrailingZeros ds).length) '0' = ds := by
  have hlength := congrArg List.length (List.takeWhile_append_dropWhile
    (p := (· == '0')) (l := ds.reverse))
  rw [List.length_append, List.length_reverse] at hlength
  have hzeros : (ds.reverse.takeWhile (· == '0')).reverse =
      List.replicate (ds.length - (dropTrailingZeros ds).length) '0' := by
    refine List.eq_replicate_iff.2 ⟨?_, fun c hc => ?_⟩
    · rw [dropTrailingZeros, List.length_reverse, List.length_reverse]
      omega
    · exact beq_iff_eq.1 (List.mem_takeWhile_imp (p := (· == '0')) (List.mem_reverse.1 hc))
  rw [← hzeros, dropTrailingZeros, ← List.reverse_append, List.takeWhile_append_dropWhile,
    List.reverse_reverse]

namespace Decimal

/-- The zeros that are left out divide the coefficient. -/
theorem coefficient_div_mul (n : ℕ) :
    n / tenTo ((digitsOf n).length - (dropTrailingZeros (digitsOf n)).length) *
      tenTo ((digitsOf n).length - (dropTrailingZeros (digitsOf n)).length) = n := by
  have hdigits := dropTrailingZeros_append (digitsOf n)
  generalize (digitsOf n).length - (dropTrailingZeros (digitsOf n)).length = zeros at *
  have hn : n = 10 ^ zeros * Nat.ofDigitChars 10 (dropTrailingZeros (digitsOf n)) 0 := by
    calc n = Nat.ofDigitChars 10 (digitsOf n) 0 := Nat.ofDigitChars_ten_toDigits.symm
      _ = _ := by rw [← Nat.ofDigitChars_replicate_zero, ← Nat.ofDigitChars_append, hdigits]
  exact Nat.div_mul_cancel ⟨_, hn⟩

/-- Trailing zeros of the coefficient are the same as places of the exponent. -/
theorem value_trimmed (d : Decimal) : d.trimmed.value = d.value := by
  unfold trimmed
  split
  · next hzero => simp [value, hzero]
  · have hcoefficient := coefficient_div_mul d.coefficient
    dsimp only
    generalize (digitsOf d.coefficient).length -
      (dropTrailingZeros (digitsOf d.coefficient)).length = zeros at *
    have hcoefficient : ((d.coefficient / tenTo zeros : ℕ) : ℚ) * 10 ^ zeros = d.coefficient := by
      rw [← cast_tenTo]
      exact_mod_cast hcoefficient
    rw [value, value, ← hcoefficient, zpow_add₀ (by norm_num), zpow_natCast]
    ring

/-- The digits before and after the separator count places of the fraction. -/
theorem value_places (d : Decimal) :
    (digitsValue (d.places.1 ++ d.places.2) : ℚ) / tenTo d.places.2.length = d.value := by
  unfold places
  split
  · next hexponent =>
    dsimp only
    rw [List.append_nil, digitsValue_digitsOf, value, Nat.cast_mul, cast_tenTo, ← zpow_natCast,
      Int.toNat_of_nonneg hexponent]
    simp [tenTo]
  · next hexponent =>
    have hlength : (-d.exponent).toNat ≤
        (padLeft ((-d.exponent).toNat + 1) (digitsOf d.coefficient)).length := by
      rw [padLeft, List.length_append, List.length_replicate]
      omega
    dsimp only
    rw [List.take_append_drop, digitsValue_padLeft, List.length_drop, Nat.sub_sub_self hlength,
      cast_tenTo, value, ← zpow_natCast, Int.toNat_of_nonneg (by omega), zpow_neg, div_inv_eq_mul]

end Decimal

/-! ## Reading digits -/

/-- Two parts of a text, told apart by the first character of the second. -/
theorem span_append {p : Char → Bool} {s rest : List Char} (hs : ∀ c ∈ s, p c = true)
    (hrest : ∀ c ∈ rest.head?, p c = false) :
    (s ++ rest).takeWhile p = s ∧ (s ++ rest).dropWhile p = rest := by
  rw [List.takeWhile_append_of_pos hs, List.dropWhile_append_of_pos hs]
  cases rest with
  | nil => simp
  | cons c rest => simp [hrest c rfl]

/-- A text that begins with a digit or a point has no sign. -/
theorem head?_ne_sign {s : List Char} (hs : ∀ c ∈ s.head?, isDecimalDigit c = true ∨ c = '.') :
    s.head? ≠ some '-' ∧ s.head? ≠ some '+' := by
  constructor <;>
  · intro h
    rcases hs _ h with hdigit | hpoint
    · revert hdigit
      decide
    · revert hpoint
      decide

section Digits

variable {whole fraction : List Char} (hwhole : ∀ c ∈ whole, isDecimalDigit c = true)
  (hfraction : ∀ c ∈ fraction, isDecimalDigit c = true)

include hwhole

/-- Digits are read as the nearest number. -/
theorem readDecimal?_whole (hne : whole ≠ []) :
    readDecimal? whole = some (Binary64.nearest false (digitsValue whole) (tenTo 0)) := by
  obtain ⟨hminus, hplus⟩ :=
    head?_ne_sign fun c hc => .inl (hwhole c (List.mem_of_mem_head? hc))
  obtain ⟨htake, hdrop⟩ := @span_append isDecimalDigit whole [] hwhole (by simp)
  rw [List.append_nil] at htake hdrop
  have hsign : (whole.head? == some '-') = false := by simpa using hminus
  simp [readDecimal?, hsign, hminus, hplus, htake, hdrop, hne]

include hfraction

/-- Digits on both sides of a dot are read as the nearest number. -/
theorem readDecimal?_fraction (hne : whole ≠ [] ∨ fraction ≠ []) :
    readDecimal? (whole ++ '.' :: fraction) = some (Binary64.nearest false
      (digitsValue (whole ++ fraction)) (tenTo fraction.length)) := by
  have hpoint : isDecimalDigit '.' = false := rfl
  have hhead : ∀ c ∈ (whole ++ '.' :: fraction).head?, isDecimalDigit c = true ∨ c = '.' := by
    cases whole with
    | nil => simp
    | cons d whole => simpa using .inl (hwhole d (by simp))
  obtain ⟨hminus, hplus⟩ := head?_ne_sign hhead
  obtain ⟨htake, hdrop⟩ :=
    @span_append isDecimalDigit whole ('.' :: fraction) hwhole (by simp [hpoint])
  have hsign : ((whole ++ '.' :: fraction).head? == some '-') = false := by simpa using hminus
  have hdigits : fraction.all isDecimalDigit = true := List.all_eq_true.2 hfraction
  simp only [readDecimal?, hsign, hminus, hplus, or_self, if_false, htake, hdrop]
  rw [if_pos]
  simpa [hdigits, or_iff_not_imp_left] using hne

end Digits

namespace NumberFormat

variable (f : NumberFormat) {whole fraction : List Char}

/-- The separators of a format are no digits. -/
theorem ne_mark {c : Char} (hc : isDecimalDigit c = true) : c ≠ f.decimal ∧ c ≠ f.grouping := by
  have hdigit : isDigit c = true := by simp [isDigit, hc]
  constructor
  · rintro rfl
    exact absurd hdigit (by simp [f.decimal_not_digit])
  · rintro rfl
    exact absurd hdigit (by simp [f.grouping_not_digit])

/-- Texts are normalized character by character. -/
theorem normalized_append (s t : List Char) :
    f.normalized (s ++ t) = f.normalized s ++ f.normalized t := by
  by_cases hused : f.groupingUsed = true <;> simp [normalized, hused]

/-- The separator becomes a point. -/
theorem normalized_decimal : f.normalized [f.decimal] = ['.'] := by
  by_cases hused : f.groupingUsed = true
  · simp [normalized, hused, (f.grouping_ne_decimal hused).symm]
  · simp [normalized, hused]

section Digits

variable (hwhole : ∀ c ∈ whole, isDecimalDigit c = true)
  (hfraction : ∀ c ∈ fraction, isDecimalDigit c = true)

include hwhole

/-- Digits stay as they are. -/
theorem normalized_digits : f.normalized whole = whole := by
  have hfilter : whole.filter (· != f.grouping) = whole :=
    List.filter_eq_self.2 fun c hc => by simpa using (f.ne_mark (hwhole c hc)).2
  have hmap : whole.map (fun c => if c = f.decimal then '.' else c) = whole :=
    (List.map_congr_left fun c hc => if_neg (f.ne_mark (hwhole c hc)).1).trans (List.map_id' whole)
  rw [normalized, hfilter, ite_self, hmap]

/-- Digits without grouping are a part in front of a decimal separator. -/
theorem isWhole_digits (hne : whole ≠ []) : f.isWhole whole = true := by
  have hall : whole.all isDecimalDigit = true := List.all_eq_true.2 hwhole
  simp [isWhole, hne, hall]

/-- The digits in front of the separator. -/
theorem span_decimal (rest : List Char) (hrest : ∀ c ∈ rest.head?, c = f.decimal) :
    (whole ++ rest).takeWhile (· != f.decimal) = whole ∧
      (whole ++ rest).dropWhile (· != f.decimal) = rest :=
  span_append (fun c hc => by simpa using (f.ne_mark (hwhole c hc)).1)
    fun c hc => by simpa using hrest c hc

/-- A format reads digits as the nearest number. -/
theorem read_whole (hne : whole ≠ []) :
    f.read whole = .ok (Binary64.nearest false (digitsValue whole) (tenTo 0)) := by
  have hnumber : f.isNumber whole = true := by
    obtain ⟨htake, hdrop⟩ := f.span_decimal hwhole [] (by simp)
    rw [List.append_nil] at htake hdrop
    simp [isNumber, isUnsigned, htake, hdrop, f.isWhole_digits hwhole hne]
  rw [read, if_pos hnumber, f.normalized_digits hwhole, readDecimal?_whole hwhole hne]

include hfraction

/-- A format reads digits on both sides of its separator as the nearest number. -/
theorem read_fraction (hne : whole ≠ []) :
    f.read (whole ++ f.decimal :: fraction) =
      .ok (Binary64.nearest false (digitsValue (whole ++ fraction)) (tenTo fraction.length)) := by
  have hnumber : f.isNumber (whole ++ f.decimal :: fraction) = true := by
    obtain ⟨htake, hdrop⟩ := f.span_decimal hwhole (f.decimal :: fraction) (by simp)
    have hall : fraction.all isDecimalDigit = true := List.all_eq_true.2 hfraction
    have hunsigned : f.isUnsigned (whole ++ f.decimal :: fraction) = true := by
      simp only [isUnsigned, htake, hdrop]
      simp [f.isWhole_digits hwhole hne, hall]
    unfold isNumber
    rw [hunsigned, Bool.true_or]
  have hnormalized : f.normalized (whole ++ f.decimal :: fraction) = whole ++ '.' :: fraction := by
    rw [← List.singleton_append, normalized_append, normalized_append, normalized_decimal,
      f.normalized_digits hwhole, f.normalized_digits hfraction]
    rfl
  rw [read, if_pos hnumber, hnormalized, readDecimal?_fraction hwhole hfraction (.inl hne)]

end Digits

/-- The reader rounds the value of a decimal that is written out. -/
theorem read_plain (d : Decimal) :
    f.read (d.plain f.decimal) = .ok (Binary64.nearest false
      (digitsValue (d.places.1 ++ d.places.2)) (tenTo d.places.2.length)) := by
  obtain ⟨hne, hwhole, hfraction⟩ := d.places_digits
  replace hwhole := fun c hc => isDecimalDigit_of_mem (hwhole c hc)
  replace hfraction := fun c hc => isDecimalDigit_of_mem (hfraction c hc)
  unfold Decimal.plain
  split
  · next whole heq =>
    rw [heq] at hne hwhole ⊢
    rw [List.append_nil]
    exact f.read_whole hwhole hne
  · next whole fraction _ heq =>
    rw [heq] at hne hwhole hfraction ⊢
    exact f.read_fraction hwhole hfraction hne

end NumberFormat

/-- A quotient with the value of the shortest decimal is rounded to the magnitude of the number,
which may be zero. -/
theorem Binary64.nearest_of_value {x : Float} (hfinite : isFinite x = true) {num den : ℕ}
    (hden : 0 < den) (h : (num : ℚ) / den = (shortest x).value) :
    nearest false num den = unsigned x := by
  rw [nearest, unsigned]
  congr 1
  by_cases hzero : isZero x = true
  · have hden' : (den : ℚ) ≠ 0 := by exact_mod_cast hden.ne'
    have hnum : num = 0 := by
      rw [shortest, if_pos hzero, Decimal.value, Nat.cast_zero, zero_mul, div_eq_zero_iff,
        or_iff_left hden'] at h
      exact_mod_cast h
    have hbits : magnitudeBits x = 0 := beq_iff_eq.1 hzero
    rw [nearestBits, if_pos hnum, hbits]
  · have hzero : isZero x = false := by simpa using hzero
    exact nearestBits_of_rounds hfinite hzero hden (h ▸ rounds_shortest hfinite hzero)

namespace NumberFormat

variable (f : NumberFormat) {x : Float}

/-- The digits of a finite number are read as the number without its sign. -/
theorem read_shortest (hfinite : Binary64.isFinite x = true) :
    f.read ((Binary64.shortest x).trimmed.plain f.decimal) = .ok (Binary64.unsigned x) := by
  have hvalue := (Binary64.shortest x).trimmed.value_places
  rw [Decimal.value_trimmed] at hvalue
  rw [f.read_plain, Binary64.nearest_of_value hfinite (tenTo_pos _) hvalue]

end NumberFormat

end Formulary
