import Formulary.Proofs.Number.Closest
import Formulary.Proofs.Number.Expansion
import Formulary.Syntax.Error

/-!
# Numerals

Which texts are numbers of a format, and which number each of them is, without the reader: a numeral
is made of digits, marks and a sign (`NumberFormat.IsNumeral`), and its value is the rational number
that the digits spell in their places. In a format whose separators are no signs, the reader takes
the numerals and nothing else, and rounds their values (`NumberFormat.read_numeral`).

Digits in groups of three may be read as groups or, if there is only one group, as plain digits,
with the same value. The digits may be decimal digits of any script, also of several in one number.
-/

namespace Formulary

open Text Binary64

/-! ## Rounding -/

namespace Binary64

/-- `x` is what the number with this sign and magnitude `q` is rounded to: the nearest finite
number, or an infinity if `q` is too large for one. Also a zero has the sign. -/
structure IsRounding (negative : Bool) (q : ℚ) (x : Float) : Prop where
  sign : isNegative x = negative
  nearest : q < overflow → IsNearest (signed negative q) x
  infinite : overflow ≤ q → magnitudeBits x = infinityBits

theorem overflow_pos : 0 < overflow := by
  rw [overflow_eq]
  positivity

/-- A quotient is rounded to binary64 numbers and infinities. -/
theorem isRounding_nearest (negative : Bool) (num : ℕ) {den : ℕ} (hden : 0 < den) :
    IsRounding negative (num / den) (nearest negative num den) := by
  refine ⟨isNegative_ofMagnitudeBits negative (nearestBits_le num den),
    fun hlt => (isNearest_nearest hden hlt negative).1, fun hle => ?_⟩
  have hnum : 0 < num := by
    by_contra hzero
    rw [Nat.eq_zero_of_not_pos hzero, Nat.cast_zero, zero_div] at hle
    exact absurd hle (not_le.2 overflow_pos)
  rw [nearest, magnitudeBits_ofMagnitudeBits negative (nearestBits_le num den),
    nearestBits_eq_infinityBits hnum hden hle]

end Binary64

namespace NumberFormat

variable (f : NumberFormat) {s text digits places : List Char} {negative : Bool} {q : ℚ}

/-! ## What a numeral is -/

/-- The text holds the digits in front of the decimal separator: as they are, or in groups of three
if the format groups them. -/
inductive IsInteger : (digits text : List Char) → Prop where
  | plain {digits : List Char} (hne : digits ≠ []) (hdigits : ∀ c ∈ digits, isDecimalDigit c = true) :
    IsInteger digits digits
  | grouped {digits text : List Char} (hused : f.groupingUsed = true)
    (h : InThrees f.grouping digits text) (hdigits : ∀ c ∈ digits, isDecimalDigit c = true) :
    IsInteger digits text

/-- The text spells `q` without a sign: as an integer, with places behind it, or with places alone.
-/
inductive IsUnsignedNumeral : List Char → ℚ → Prop where
  | integer {digits text : List Char} (h : f.IsInteger digits text) :
    IsUnsignedNumeral text (digitsValue digits)
  | fraction {digits text places : List Char} (h : f.IsInteger digits text)
    (hplaces : ∀ c ∈ places, isDecimalDigit c = true) :
    IsUnsignedNumeral (text ++ f.decimal :: places)
      (digitsValue (digits ++ places) / 10 ^ places.length)
  | places {places : List Char} (hne : places ≠ []) (hplaces : ∀ c ∈ places, isDecimalDigit c = true) :
    IsUnsignedNumeral (f.decimal :: places) (digitsValue places / 10 ^ places.length)

/-- The text spells the number of magnitude `q` that is negative or not. -/
inductive IsNumeral : List Char → Bool → ℚ → Prop where
  | bare {s : List Char} {q : ℚ} (h : f.IsUnsignedNumeral s q) : IsNumeral s false q
  | plus {s : List Char} {q : ℚ} (h : f.IsUnsignedNumeral s q) : IsNumeral ('+' :: s) false q
  | minus {s : List Char} {q : ℚ} (h : f.IsUnsignedNumeral s q) : IsNumeral ('-' :: s) true q

variable {f}

/-! ## The part in front of the decimal separator -/

theorem IsInteger.isWhole (h : f.IsInteger digits text) : f.isWhole text = true := by
  cases h with
  | plain hne hdigits => exact f.isWhole_digits hdigits hne
  | grouped hused h hdigits => exact isWhole_of_inThrees hused h hdigits

theorem IsInteger.normalized (h : f.IsInteger digits text) : f.normalized text = digits := by
  cases h with
  | plain hne hdigits => exact f.normalized_digits hdigits
  | grouped hused h hdigits => exact normalized_of_inThrees hused h hdigits

/-- Groups are put behind other groups. -/
theorem exists_inThrees_append {mark : Char} : ∀ {digits text rest : List Char},
    InThrees mark digits text → (∀ c ∈ digits, isDecimalDigit c = true) → isTriples mark rest = true →
    ∃ more, InThrees mark more (text ++ rest) ∧ ∀ c ∈ more, isDecimalDigit c = true
  | digits, text, [], h, hdigits, _ => ⟨digits, by rwa [List.append_nil], hdigits⟩
  | digits, text, m :: a :: b :: c :: rest, h, hdigits, htriples => by
    rw [isTriples, Bool.and_eq_true, Bool.and_eq_true, Bool.and_eq_true, Bool.and_eq_true,
      beq_iff_eq] at htriples
    obtain ⟨⟨⟨⟨rfl, ha⟩, hb⟩, hc⟩, hrest⟩ := htriples
    have hmore : ∀ d ∈ digits ++ [a, b, c], isDecimalDigit d = true := by
      simp only [List.forall_mem_append, List.forall_mem_cons]
      exact ⟨hdigits, ha, hb, hc, by simp⟩
    have hgroups := exists_inThrees_append (.group a b c h) hmore hrest
    rwa [List.append_assoc] at hgroups
  | _, _, [_], _, _, htriples | _, _, [_, _], _, _, htriples | _, _, [_, _, _], _, _, htriples =>
    nomatch htriples

theorem exists_isInteger (h : f.isWhole text = true) : ∃ digits, f.IsInteger digits text := by
  rw [isWhole, Bool.or_eq_true, Bool.and_eq_true, Bool.and_eq_true] at h
  rcases h with ⟨hne, hall⟩ | ⟨hused, hgrouped⟩
  · exact ⟨text, .plain (by simpa using hne) (List.all_eq_true.1 hall)⟩
  · simp only [isGrouped, Bool.and_eq_true, decide_eq_true_eq] at hgrouped
    obtain ⟨⟨⟨hpos, hlength⟩, -⟩, htriples⟩ := hgrouped
    have hfirst : InThrees f.grouping (text.takeWhile isDecimalDigit) (text.takeWhile isDecimalDigit) :=
      .first (List.ne_nil_of_length_pos hpos) hlength
    obtain ⟨digits, hgroups, hdigits⟩ :=
      exists_inThrees_append hfirst (fun c hc => List.mem_takeWhile_imp hc) htriples
    rw [List.takeWhile_append_dropWhile] at hgroups
    exact ⟨digits, .grouped hused hgroups hdigits⟩

/-! ## Numerals without a sign -/

/-- A numeral is read as the quotient that it spells. -/
theorem IsUnsignedNumeral.read (h : f.IsUnsignedNumeral s q) : f.isUnsigned s = true ∧
    ∃ num den : ℕ, 0 < den ∧ (num : ℚ) / den = q ∧ f.read s = .ok (nearest false num den) := by
  cases h with
  | @integer digits _ h =>
    refine ⟨isUnsigned_of_isWhole h.isWhole, digitsValue digits, tenTo 0, tenTo_pos 0, ?_, ?_⟩
    · rw [cast_tenTo, pow_zero, div_one]
    · rw [read_of_isWhole h.isWhole, h.normalized]
  | @fraction digits _ places h hplaces =>
    refine ⟨isUnsigned_of_front (.inl h.isWhole) hplaces, digitsValue (digits ++ places),
      tenTo places.length, tenTo_pos _, by rw [cast_tenTo], ?_⟩
    rw [read_of_front (.inl h.isWhole) hplaces, h.normalized]
  | @places places hne hplaces =>
    have hfront : f.isWhole [] = true ∨ ([] : List Char) = [] ∧ places ≠ [] := .inr ⟨rfl, hne⟩
    have hunsigned := isUnsigned_of_front hfront hplaces
    have hread := read_of_front hfront hplaces
    rw [f.normalized_digits (by simp), List.nil_append, List.nil_append] at hread
    exact ⟨hunsigned, digitsValue places, tenTo places.length, tenTo_pos _, by rw [cast_tenTo], hread⟩

theorem exists_isUnsignedNumeral (h : f.isUnsigned s = true) : ∃ q, f.IsUnsignedNumeral s q := by
  rcases parts_of_isUnsigned h with hwhole | ⟨whole, places, rfl, hwhole | ⟨rfl, hne⟩, hplaces⟩
  · obtain ⟨digits, hdigits⟩ := exists_isInteger hwhole
    exact ⟨_, .integer hdigits⟩
  · obtain ⟨digits, hdigits⟩ := exists_isInteger hwhole
    exact ⟨_, .fraction hdigits hplaces⟩
  · exact ⟨_, .places hne hplaces⟩

/-! ## The reader -/

/-- A numeral is read as the rounded number that it spells. -/
theorem IsNumeral.read (hf : f.SignFree) (h : f.IsNumeral text negative q) :
    ∃ x, f.read text = .ok x ∧ IsRounding negative q x := by
  cases h with
  | bare h =>
    obtain ⟨-, num, den, hden, rfl, hread⟩ := h.read
    exact ⟨_, hread, isRounding_nearest false num hden⟩
  | plus h =>
    obtain ⟨hunsigned, num, den, hden, rfl, hread⟩ := h.read
    exact ⟨_, read_plus hf hunsigned hread, isRounding_nearest false num hden⟩
  | minus h =>
    obtain ⟨hunsigned, num, den, hden, rfl, hread⟩ := h.read
    rw [read_minus hf hunsigned hread, withMinus_nearest]
    exact ⟨_, rfl, isRounding_nearest true num hden⟩

/-- What the reader takes for a number is a numeral. -/
theorem exists_isNumeral (h : f.isNumber text = true) : ∃ negative q, f.IsNumeral text negative q := by
  unfold isNumber at h
  rw [Bool.or_eq_true] at h
  rcases h with hunsigned | hsigned
  · obtain ⟨q, hq⟩ := exists_isUnsignedNumeral hunsigned
    exact ⟨false, q, .bare hq⟩
  · cases text with
    | nil => cases hsigned
    | cons c s =>
      rw [Bool.and_eq_true, Bool.or_eq_true, beq_iff_eq, beq_iff_eq] at hsigned
      obtain ⟨hc, hunsigned⟩ := hsigned
      obtain ⟨q, hq⟩ := exists_isUnsignedNumeral hunsigned
      rcases hc with rfl | rfl
      · exact ⟨false, q, .plus hq⟩
      · exact ⟨true, q, .minus hq⟩

/-- Every numeral is read, as the number that it spells, rounded; and every other text is refused.
-/
theorem read_numeral (f : NumberFormat) (hf : f.SignFree) (text : List Char) :
    (∀ negative q, f.IsNumeral text negative q →
      ∃ x, f.read text = .ok x ∧ IsRounding negative q x) ∧
    ((∀ negative q, ¬ f.IsNumeral text negative q) →
      ∃ error, f.read text = .error error ∧ error = .notANumber (String.ofList text) f.decimal ∧
        (ParseError.number error).kind = .parse) := by
  refine ⟨fun negative q h => h.read hf, fun hnone => ?_⟩
  have hnumber : ¬ f.isNumber text = true := fun hnumber => by
    obtain ⟨negative, q, h⟩ := exists_isNumeral hnumber
    exact hnone negative q h
  exact ⟨_, by rw [NumberFormat.read, if_neg hnumber], rfl, rfl⟩

/-- Digits of two scripts in groups are a number, and a group of two digits is none. -/
theorem read_numeral_grouped : grouped.SignFree ∧
    (∃ x, grouped.read "-१२.345,5".toList = .ok x ∧ IsRounding true (123455 / 10) x) ∧
    grouped.read "1.23,4".toList = .error (.notANumber "1.23,4" ',') := by
  have hnumeral : grouped.IsNumeral "-१२.345,5".toList true (123455 / 10) := by
    have hfirst : InThrees '.' "१२".toList "१२".toList := .first (by decide) (by decide)
    have hgroups : InThrees '.' "१२345".toList "१२.345".toList := .group '3' '4' '5' hfirst
    have hvalue : digitsValue "१२3455".toList = 123455 := by decide +kernel
    have hwhole : grouped.IsInteger "१२345".toList "१२.345".toList :=
      .grouped rfl hgroups (by decide +kernel)
    have hplaces : ∀ c ∈ ['5'], isDecimalDigit c = true := by decide
    have hunsigned := IsUnsignedNumeral.fraction hwhole hplaces
    have hq : (digitsValue ("१२345".toList ++ ['5']) : ℚ) / 10 ^ ['5'].length = 123455 / 10 := by
      rw [List.length_singleton, pow_one]
      exact congrArg (fun n : ℕ => (n : ℚ) / 10) hvalue
    rw [hq] at hunsigned
    exact .minus hunsigned
  have hnone : ∀ negative q, ¬ grouped.IsNumeral "1.23,4".toList negative q := by
    intro negative q h
    obtain ⟨x, hread, -⟩ := h.read signFree_grouped
    exact absurd (isNumber_of_read hread) (by decide +kernel)
  obtain ⟨error, hrefused, rfl, -⟩ :=
    (read_numeral grouped signFree_grouped "1.23,4".toList).2 hnone
  exact ⟨signFree_grouped, (read_numeral grouped signFree_grouped _).1 _ _ hnumeral, hrefused⟩

end NumberFormat

end Formulary
