import Formulary.Proofs.Number.Binary64
import Formulary.Proofs.Number.ReadBack

/-!
# Numbers without a sign

Every text that a number format takes for a number without a sign is converted, and the number is
not negative (`NumberFormat.read_of_no_sign`). This holds whatever characters the separators are:
without the grouping marks, and with a point for the decimal separator, only digits and at most one
point are left.

It does not hold with a sign in front. A separator may be the character of a sign, and then the text
that is left may lack its sign or its digits.
-/

namespace Formulary

open Text

namespace NumberFormat

variable {f : NumberFormat} {s : List Char}

/-- Groups of digits hold digits and the mark in front of each group. -/
theorem mem_of_isTriples {mark : Char} : ∀ {s : List Char}, isTriples mark s = true →
    ∀ c ∈ s, c = mark ∨ isDecimalDigit c = true
  | [], _ => by simp
  | m :: x :: y :: z :: rest, h => by
    rw [isTriples, Bool.and_eq_true, Bool.and_eq_true, Bool.and_eq_true, Bool.and_eq_true,
      beq_iff_eq] at h
    obtain ⟨⟨⟨⟨hm, hx⟩, hy⟩, hz⟩, hrest⟩ := h
    simp only [List.forall_mem_cons]
    exact ⟨.inl hm, .inr hx, .inr hy, .inr hz, mem_of_isTriples hrest⟩
  | [_], h | [_, _], h | [_, _, _], h => nomatch h

/-- The part before the decimal separator begins with a digit. What else it holds are digits and, if
the format groups them, grouping marks. -/
theorem mem_of_isWhole (h : f.isWhole s = true) :
    (∃ c ∈ s, isDecimalDigit c = true) ∧
      ∀ c ∈ s, isDecimalDigit c = true ∨ f.groupingUsed = true ∧ c = f.grouping := by
  rw [isWhole, Bool.or_eq_true, Bool.and_eq_true, Bool.and_eq_true] at h
  rcases h with ⟨hne, hall⟩ | ⟨hused, hgrouped⟩
  · have hdigits : ∀ c ∈ s, isDecimalDigit c = true := List.all_eq_true.1 hall
    obtain ⟨c, rest, rfl⟩ := List.exists_cons_of_ne_nil (by simpa using hne)
    exact ⟨⟨c, by simp, hdigits c (by simp)⟩, fun c hc => .inl (hdigits c hc)⟩
  · simp only [isGrouped, Bool.and_eq_true, decide_eq_true_eq] at hgrouped
    obtain ⟨⟨⟨hpos, -⟩, -⟩, htriples⟩ := hgrouped
    rw [← List.takeWhile_append_dropWhile (p := isDecimalDigit) (l := s)]
    have hfirst : ∀ c ∈ s.takeWhile isDecimalDigit, isDecimalDigit c = true := fun c hc =>
      List.mem_takeWhile_imp hc
    obtain ⟨c, hc⟩ := List.exists_mem_of_length_pos hpos
    refine ⟨⟨c, List.mem_append_left _ hc, hfirst c hc⟩, fun c hc => ?_⟩
    rcases List.mem_append.1 hc with hc | hc
    · exact .inl (hfirst c hc)
    · exact (mem_of_isTriples htriples c hc).symm.imp id fun hmark => ⟨hused, hmark⟩

/-- Grouping marks are left out and digits stay. -/
theorem normalized_eq_filter
    (h : ∀ c ∈ s, isDecimalDigit c = true ∨ f.groupingUsed = true ∧ c = f.grouping) :
    f.normalized s = s.filter isDecimalDigit := by
  induction s with
  | nil => exact f.normalized_digits (by simp)
  | cons c s ih =>
    obtain ⟨hc, hs⟩ := List.forall_mem_cons.1 h
    rw [← List.singleton_append, normalized_append, ih hs, List.filter_append]
    congr 1
    rcases hc with hdigit | ⟨hused, rfl⟩
    · rw [f.normalized_digits (by simpa using hdigit), List.filter_cons_of_pos hdigit, List.filter_nil]
    · have hmark : isDecimalDigit f.grouping = false := by
        by_contra hdigit
        exact (f.ne_mark (by simpa using hdigit)).2 rfl
      simp [normalized, hused, hmark]

/-- Only digits are left of the part before the decimal separator. -/
theorem normalized_of_isWhole (h : f.isWhole s = true) :
    f.normalized s ≠ [] ∧ ∀ c ∈ f.normalized s, isDecimalDigit c = true := by
  obtain ⟨⟨c, hc, hdigit⟩, hmem⟩ := mem_of_isWhole h
  rw [normalized_eq_filter hmem]
  exact ⟨List.ne_nil_of_mem (List.mem_filter.2 ⟨hc, hdigit⟩), fun c hc => (List.mem_filter.1 hc).2⟩

theorem isNumber_of_isUnsigned (h : f.isUnsigned s = true) : f.isNumber s = true := by
  unfold isNumber
  rw [h, Bool.true_or]

/-- A number that begins with no sign is one without a sign. -/
theorem isUnsigned_of_isNumber (hminus : s.head? ≠ some '-') (hplus : s.head? ≠ some '+')
    (h : f.isNumber s = true) : f.isUnsigned s = true := by
  by_contra hnot
  rcases s with _ | ⟨c, rest⟩ <;> simp_all [isNumber]

/-- The decimal separator ends the part that it is behind. -/
theorem ne_decimal_of_isWhole (h : f.isWhole s = true) : ∀ c ∈ s, c ≠ f.decimal := by
  intro c hc
  rcases (mem_of_isWhole h).2 c hc with hdigit | ⟨hused, rfl⟩
  · exact (f.ne_mark hdigit).1
  · exact f.grouping_ne_decimal hused

theorem isUnsigned_of_isWhole (h : f.isWhole s = true) : f.isUnsigned s = true := by
  have hne : ∀ c ∈ s, (c != f.decimal) = true := fun c hc => by
    simpa using ne_decimal_of_isWhole h c hc
  obtain ⟨htake, hdrop⟩ := @span_append _ s [] hne (by simp)
  rw [List.append_nil] at htake hdrop
  simp only [isUnsigned, htake, hdrop, h]

/-- The digits of the part before the decimal separator are converted. -/
theorem read_of_isWhole (h : f.isWhole s = true) :
    f.read s = .ok (Binary64.nearest false (digitsValue (f.normalized s)) (tenTo 0)) := by
  obtain ⟨hne, hdigits⟩ := normalized_of_isWhole h
  rw [read, if_pos (isNumber_of_isUnsigned (isUnsigned_of_isWhole h)), readDecimal?_whole hdigits hne]

section Fraction

variable {whole fraction : List Char} (hfront : f.isWhole whole = true ∨ whole = [] ∧ fraction ≠ [])
  (hfraction : ∀ c ∈ fraction, isDecimalDigit c = true)

include hfront hfraction

theorem isUnsigned_of_front : f.isUnsigned (whole ++ f.decimal :: fraction) = true := by
  have hne : ∀ c ∈ whole, (c != f.decimal) = true := by
    rcases hfront with h | ⟨rfl, -⟩
    · exact fun c hc => by simpa using ne_decimal_of_isWhole h c hc
    · simp
  obtain ⟨htake, hdrop⟩ := @span_append _ whole (f.decimal :: fraction) hne (by simp)
  have hall : fraction.all isDecimalDigit = true := List.all_eq_true.2 hfraction
  simp only [isUnsigned, htake, hdrop, hall, Bool.true_and, Bool.or_eq_true]
  exact hfront.imp id fun h => by simp [h.1, h.2]

/-- The digits on both sides of the decimal separator are converted. -/
theorem read_of_front : f.read (whole ++ f.decimal :: fraction) = .ok (Binary64.nearest false
    (digitsValue (f.normalized whole ++ fraction)) (tenTo fraction.length)) := by
  have hnormalized : f.normalized (whole ++ f.decimal :: fraction) =
      f.normalized whole ++ '.' :: fraction := by
    rw [← List.singleton_append, normalized_append, normalized_append, normalized_decimal,
      f.normalized_digits hfraction]
    rfl
  have hdigits : (∀ c ∈ f.normalized whole, isDecimalDigit c = true) ∧
      (f.normalized whole ≠ [] ∨ fraction ≠ []) := by
    rcases hfront with h | ⟨rfl, hne⟩
    · exact ⟨(normalized_of_isWhole h).2, .inl (normalized_of_isWhole h).1⟩
    · rw [f.normalized_digits (by simp)]
      exact ⟨by simp, .inr hne⟩
  rw [read, if_pos (isNumber_of_isUnsigned (isUnsigned_of_front hfront hfraction)), hnormalized,
    readDecimal?_fraction hdigits.1 hfraction hdigits.2]

end Fraction

/-- A number without a sign has a part before the decimal separator, or digits behind it. -/
theorem parts_of_isUnsigned (h : f.isUnsigned s = true) : f.isWhole s = true ∨
    ∃ whole fraction, s = whole ++ f.decimal :: fraction ∧
      (f.isWhole whole = true ∨ whole = [] ∧ fraction ≠ []) ∧
      ∀ c ∈ fraction, isDecimalDigit c = true := by
  have hsplit := (List.takeWhile_append_dropWhile (p := (· != f.decimal)) (l := s)).symm
  unfold isUnsigned at h
  split at h
  · next hrest =>
    rw [hrest, List.append_nil] at hsplit
    rw [← hsplit] at h
    exact .inl h
  · next c fraction hrest =>
    have hc : c = f.decimal := by
      have := List.head?_dropWhile_not (· != f.decimal) s
      simpa [hrest] using this
    rw [Bool.and_eq_true, Bool.or_eq_true, Bool.and_eq_true] at h
    obtain ⟨hfraction, hfront⟩ := h
    rw [hrest, hc] at hsplit
    refine .inr ⟨_, fraction, hsplit, hfront.imp id ?_, List.all_eq_true.1 hfraction⟩
    exact fun ⟨hnil, hne⟩ => ⟨List.isEmpty_iff.1 hnil, by simpa using hne⟩

/-- A number without a sign is converted. -/
theorem exists_read_of_isUnsigned (h : f.isUnsigned s = true) :
    ∃ num den, f.read s = .ok (Binary64.nearest false num den) := by
  rcases parts_of_isUnsigned h with hwhole | ⟨whole, fraction, rfl, hfront, hfraction⟩
  · exact ⟨_, _, read_of_isWhole hwhole⟩
  · exact ⟨_, _, read_of_front hfront hfraction⟩

/-- A text that begins with no sign is converted to a number that is not negative, or it is no
number of the format at all. -/
theorem read_of_no_sign (hminus : s.head? ≠ some '-') (hplus : s.head? ≠ some '+') :
    (∃ x, f.read s = .ok x ∧ Binary64.IsNonnegative x) ∨
      f.read s = .error (.notANumber (String.ofList s) f.decimal) := by
  by_cases hnumber : f.isNumber s = true
  · have hunsigned := isUnsigned_of_isNumber hminus hplus hnumber
    obtain ⟨num, den, hread⟩ := exists_read_of_isUnsigned hunsigned
    exact .inl ⟨_, hread, Binary64.isNonnegative_nearest num den⟩
  · exact .inr (by rw [read, if_neg hnumber])

end NumberFormat

end Formulary
