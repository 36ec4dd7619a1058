import Formulary.Proofs.Number.Unsigned

/-!
# Numbers with a sign

A minus sign in front of a number sets the sign bit of what is read, as long as no separator of the
format is itself a sign (`NumberFormat.read_minus`). With a separator that is one, the sign may be
taken for a group mark and left out, or for the decimal point.

So the exact text of every finite number reads back, with its sign
(`NumberFormat.exact_reads_back`). Numbers are compared as their bits: the two zeros are different,
and so are a number and its neighbours.
-/

namespace Formulary

open Text

namespace Binary64

/-- The number with its sign bit set. -/
def withMinus (x : Float) : Float := ofMagnitudeBits true (magnitudeBits x)

/-- The sign of a rounded quotient is that of the quotient. -/
theorem withMinus_nearest (num den : ℕ) : withMinus (nearest false num den) = nearest true num den := by
  rw [withMinus, nearest, magnitudeBits_ofMagnitudeBits false (nearestBits_le num den), nearest]

/-- A negative number is its magnitude with the sign put back. -/
theorem withMinus_unsigned {x : Float} (hfinite : isFinite x = true) (hsign : isNegative x = true) :
    withMinus (unsigned x) = x := by
  have hbits : magnitudeBits x ≤ infinityBits := Nat.le_of_lt (of_decide_eq_true hfinite)
  rw [withMinus, unsigned, magnitudeBits_ofMagnitudeBits false hbits, ← hsign]
  exact ofMagnitudeBits_magnitudeBits x

end Binary64

/-- The converter reads a sign and then the number behind it. -/
theorem readDecimal?_minus {s : List Char} (hminus : s.head? ≠ some '-') (hplus : s.head? ≠ some '+') :
    readDecimal? ('-' :: s) = (readDecimal? s).map Binary64.withMinus := by
  have hsign : (s.head? == some '-') = false := by simpa using hminus
  simp only [readDecimal?, List.head?_cons, List.tail_cons, BEq.rfl, true_or, if_true, hsign, hminus,
    hplus, or_self, if_false]
  split
  · split <;> simp [Binary64.withMinus_nearest]
  · split <;> simp [Binary64.withMinus_nearest]
  · rfl

/-- A plus sign changes nothing. -/
theorem readDecimal?_plus {s : List Char} (hminus : s.head? ≠ some '-') (hplus : s.head? ≠ some '+') :
    readDecimal? ('+' :: s) = readDecimal? s := by
  have hsign : (s.head? == some '-') = false := by simpa using hminus
  have hplain : (some '+' == some '-') = false := rfl
  simp only [readDecimal?, List.head?_cons, List.tail_cons, or_true, if_true, hplain, hsign, hminus,
    hplus, or_self, if_false]

namespace NumberFormat

/-- No separator that the format uses is the character of a sign. -/
structure SignFree (f : NumberFormat) : Prop where
  decimal : f.decimal ≠ '+' ∧ f.decimal ≠ '-'
  grouping : f.groupingUsed = true → f.grouping ≠ '+' ∧ f.grouping ≠ '-'

variable {f : NumberFormat} {s : List Char}

/-- What stands in a number without a sign: digits, the decimal separator, and grouping marks if the
format groups digits. -/
theorem mem_of_isUnsigned (h : f.isUnsigned s = true) {c : Char} (hc : c ∈ s) :
    isDecimalDigit c = true ∨ c = f.decimal ∨ f.groupingUsed = true ∧ c = f.grouping := by
  rcases parts_of_isUnsigned h with hwhole | ⟨whole, fraction, rfl, hfront, hfraction⟩
  · exact ((mem_of_isWhole hwhole).2 c hc).imp id .inr
  · rw [List.mem_append, List.mem_cons] at hc
    rcases hc with hc | rfl | hc
    · rcases hfront with hwhole | ⟨rfl, -⟩
      · exact ((mem_of_isWhole hwhole).2 c hc).imp id .inr
      · cases hc
    · exact .inr (.inl rfl)
    · exact .inl (hfraction c hc)

/-- A character that is a sign is no digit. -/
theorem isDecimalDigit_ne_sign {c : Char} (hc : isDecimalDigit c = true) : c ≠ '+' ∧ c ≠ '-' := by
  constructor
  · rintro rfl
    exact absurd hc (by decide)
  · rintro rfl
    exact absurd hc (by decide)

/-- There is no sign inside a number that is written without one. -/
theorem SignFree.ne_sign (hf : f.SignFree) (h : f.isUnsigned s = true) {c : Char} (hc : c ∈ s) :
    c ≠ '+' ∧ c ≠ '-' := by
  rcases mem_of_isUnsigned h hc with hdigit | rfl | ⟨hused, rfl⟩
  · exact isDecimalDigit_ne_sign hdigit
  · exact hf.decimal
  · exact hf.grouping hused

/-- What is left for the converter has no sign either. -/
theorem SignFree.normalized_ne_sign (hf : f.SignFree) (h : f.isUnsigned s = true) {c : Char}
    (hc : c ∈ f.normalized s) : c ≠ '+' ∧ c ≠ '-' := by
  obtain ⟨d, hd, rfl⟩ := List.mem_map.1 hc
  have hd : d ∈ s := by
    by_cases hused : f.groupingUsed = true
    · rw [if_pos hused] at hd
      exact (List.mem_filter.1 hd).1
    · rwa [if_neg hused] at hd
  by_cases hpoint : d = f.decimal
  · rw [if_pos hpoint]
    exact ⟨by decide, by decide⟩
  · rw [if_neg hpoint]
    exact hf.ne_sign h hd

/-- What is left for the converter begins with no sign. -/
theorem SignFree.head?_normalized (hf : f.SignFree) (h : f.isUnsigned s = true) :
    (f.normalized s).head? ≠ some '-' ∧ (f.normalized s).head? ≠ some '+' := by
  have hhead {c : Char} (hc : (f.normalized s).head? = some c) : c ≠ '+' ∧ c ≠ '-' :=
    hf.normalized_ne_sign h (List.mem_of_mem_head? hc)
  exact ⟨fun hc => (hhead hc).2 rfl, fun hc => (hhead hc).1 rfl⟩

/-- A sign stays in front. -/
theorem SignFree.normalized_sign (hf : f.SignFree) {c : Char} (hc : c = '+' ∨ c = '-') (s : List Char) :
    f.normalized (c :: s) = c :: f.normalized s := by
  have hdecimal : c ≠ f.decimal := by
    rcases hc with rfl | rfl
    · exact hf.decimal.1.symm
    · exact hf.decimal.2.symm
  by_cases hused : f.groupingUsed = true
  · have hgrouping : c ≠ f.grouping := by
      rcases hc with rfl | rfl
      · exact (hf.grouping hused).1.symm
      · exact (hf.grouping hused).2.symm
    simp [normalized, hused, hdecimal, hgrouping]
  · simp [normalized, hused, hdecimal]

theorem isNumber_sign {c : Char} (hc : c = '+' ∨ c = '-') (h : f.isUnsigned s = true) :
    f.isNumber (c :: s) = true := by
  rcases hc with rfl | rfl <;> simp [isNumber, h]

/-- A minus sign in front of a number sets the sign bit of what is read. -/
theorem read_minus (hf : f.SignFree) (h : f.isUnsigned s = true) {x : Float}
    (hread : f.read s = .ok x) :
    f.read ('-' :: s) = .ok (Binary64.withMinus x) := by
  obtain ⟨hminus, hplus⟩ := hf.head?_normalized h
  rw [read, if_pos (isNumber_of_isUnsigned h)] at hread
  rw [read, if_pos (isNumber_sign (.inr rfl) h), hf.normalized_sign (.inr rfl),
    readDecimal?_minus hminus hplus]
  cases hdecimal : readDecimal? (f.normalized s) with
  | none =>
    rw [hdecimal] at hread
    cases hread
  | some y =>
    rw [hdecimal] at hread
    cases hread
    rfl

/-- A plus sign in front of a number changes nothing of what is read. -/
theorem read_plus (hf : f.SignFree) (h : f.isUnsigned s = true) {x : Float} (hread : f.read s = .ok x) :
    f.read ('+' :: s) = .ok x := by
  obtain ⟨hminus, hplus⟩ := hf.head?_normalized h
  rw [read, if_pos (isNumber_of_isUnsigned h)] at hread
  rw [read, if_pos (isNumber_sign (.inl rfl) h), hf.normalized_sign (.inl rfl),
    readDecimal?_plus hminus hplus]
  cases hdecimal : readDecimal? (f.normalized s) with
  | none =>
    rw [hdecimal] at hread
    cases hread
  | some y =>
    rw [hdecimal] at hread
    exact hread

theorem isNumber_of_read {x : Float} (hread : f.read s = .ok x) : f.isNumber s = true := by
  by_contra hnot
  rw [read, if_neg hnot] at hread
  cases hread

/-- The digits of a finite number are a number without a sign. -/
theorem isUnsigned_digits (f : NumberFormat) {x : Float} (hfinite : Binary64.isFinite x = true) :
    f.isUnsigned ((Binary64.shortest x).trimmed.plain f.decimal) = true := by
  obtain ⟨c, rest, hc, hdigits⟩ :=
    ((Binary64.shortest x).trimmed.isDigitText_plain f.decimal).begins
  obtain ⟨hminus, hplus⟩ := not_sign_of_mem hc
  exact isUnsigned_of_isNumber (by simpa [hdigits] using hminus) (by simpa [hdigits] using hplus)
    (isNumber_of_read (f.read_shortest hfinite))

/-- The digits of a finite number are read as this number behind its sign. A plus sign may stand
where there is none. -/
theorem read_signed_digits (hf : f.SignFree) {x : Float} (hfinite : Binary64.isFinite x = true)
    {sign : List Char} (hsign : sign = Binary64.signText x ∨
      sign = ['+'] ∧ Binary64.isNegative x = false) :
    f.read (sign ++ (Binary64.shortest x).trimmed.plain f.decimal) = .ok x := by
  have hunsigned := f.isUnsigned_digits hfinite
  have hread := f.read_shortest hfinite
  by_cases hneg : Binary64.isNegative x = true
  · rw [Binary64.signText, if_pos hneg, hneg] at hsign
    obtain rfl : sign = ['-'] := hsign.resolve_right (by simp)
    rw [List.singleton_append, read_minus hf hunsigned hread, Binary64.withMinus_unsigned hfinite hneg]
  · have hpos : Binary64.isNegative x = false := by simpa using hneg
    rw [Binary64.unsigned_of_not_isNegative hpos] at hread
    rw [Binary64.signText, if_neg hneg] at hsign
    rcases hsign with rfl | ⟨rfl, -⟩
    · exact hread
    · exact read_plus hf hunsigned hread

/-- The exact text of a finite number reads back as this number, bit for bit: the sign of a zero,
the subnormal numbers and the largest numbers included. -/
theorem exact_reads_back (f : NumberFormat) (hf : f.SignFree) (x : Float)
    (hfinite : Binary64.isFinite x = true) : f.read (f.exact x).toList = .ok x := by
  rw [f.exact_toList hfinite]
  exact read_signed_digits hf hfinite (.inl rfl)

/-- A decimal comma and points between groups of digits. -/
def grouped : NumberFormat where
  decimal := ','
  grouping := '.'
  groupingUsed := true
  maxFractionDigits := 3
  argument := [';']
  decimal_not_digit := standard.grouping_not_digit
  grouping_not_digit := standard.decimal_not_digit
  grouping_ne_decimal := by decide
  argument_ne_nil := by decide
  argument_ne_decimal := by decide
  argument_ne_grouping := by decide

theorem signFree_grouped : grouped.SignFree :=
  ⟨⟨by decide, by decide⟩, fun _ => ⟨by decide, by decide⟩⟩

/-- The negative number next to zero, in a format that groups digits. -/
theorem exact_reads_back_subnormal :
    grouped.SignFree ∧ Binary64.isFinite (Binary64.ofMagnitudeBits true 1) = true ∧
      grouped.read (grouped.exact (Binary64.ofMagnitudeBits true 1)).toList =
        .ok (Binary64.ofMagnitudeBits true 1) := by
  have hfinite : Binary64.isFinite (Binary64.ofMagnitudeBits true 1) = true := by decide +kernel
  exact ⟨signFree_grouped, hfinite, exact_reads_back grouped signFree_grouped _ hfinite⟩

end NumberFormat

end Formulary
