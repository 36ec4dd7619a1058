import Formulary.Number.Format

/-!
# Exact number texts

The exact text of a finite number is its sign and the digits of its shortest decimal, with the
decimal separator among them (`NumberFormat.exact_toList`). That it begins with a digit behind the
sign, and holds nothing but digits and the separator, is all that a formula around it needs to know:
that the text reads back is a fact about rounding, and that it stands as one operand is a fact about
its characters.
-/

namespace Formulary

/-- The ten digits that numbers are written with. -/
def digitCharacters : List Char := "0123456789".toList

/-- A text of digits and a mark that begins with a digit. -/
structure IsDigitText (mark : Char) (s : List Char) : Prop where
  begins : ∃ c rest, c ∈ digitCharacters ∧ s = c :: rest
  chars : ∀ c ∈ s, c ∈ digitCharacters ∨ c = mark

/-- The ASCII digits are the digits that are written. -/
theorem mem_digitCharacters {c : Char} (h : c.isDigit = true) : c ∈ digitCharacters := by
  have hrange : 48 ≤ c.toNat ∧ c.toNat ≤ 57 := by
    simpa [Char.isDigit, UInt32.le_iff_toNat_le] using h
  obtain ⟨hlow, hhigh⟩ := hrange
  rw [← Char.ofNat_toNat c]
  generalize c.toNat = n at *
  have : n = 48 ∨ n = 49 ∨ n = 50 ∨ n = 51 ∨ n = 52 ∨ n = 53 ∨ n = 54 ∨ n = 55 ∨ n = 56 ∨
      n = 57 := by omega
  rcases this with rfl | rfl | rfl | rfl | rfl | rfl | rfl | rfl | rfl | rfl <;> decide

/-- These digits are decimal digits, with the values that the library gives them. -/
theorem digitValue?_of_mem {c : Char} (h : c ∈ digitCharacters) :
    Text.digitValue? c = some (c.toNat - '0'.toNat) := by
  have hall : digitCharacters.all
      (fun c => Text.digitValue? c = some (c.toNat - '0'.toNat)) = true := by rfl
  exact of_decide_eq_true (List.all_eq_true.1 hall c h)

/-- A digit that is written is one that is read. -/
theorem isDecimalDigit_of_mem {c : Char} (h : c ∈ digitCharacters) :
    Text.isDecimalDigit c = true := by
  rw [Text.isDecimalDigit, digitValue?_of_mem h]
  rfl

/-- No digit is a sign. -/
theorem not_sign_of_mem {c : Char} (h : c ∈ digitCharacters) : c ≠ '-' ∧ c ≠ '+' :=
  ⟨fun hc => absurd (hc ▸ h) (by decide), fun hc => absurd (hc ▸ h) (by decide)⟩

/-- The digits of a number are digits that are written. -/
theorem mem_digitCharacters_of_mem_digitsOf {n : Nat} {c : Char} (h : c ∈ digitsOf n) :
    c ∈ digitCharacters :=
  mem_digitCharacters (Nat.isDigit_of_mem_toDigits (by decide) (by decide) h)

/-- Zeros in front are digits, too. -/
theorem mem_digitCharacters_of_mem_padLeft {width n : Nat} {c : Char}
    (h : c ∈ padLeft width (digitsOf n)) : c ∈ digitCharacters := by
  rw [padLeft, List.mem_append] at h
  rcases h with hzero | hdigit
  · rw [List.eq_of_mem_replicate hzero]
    decide
  · exact mem_digitCharacters_of_mem_digitsOf hdigit

namespace IsDigitText

variable {mark : Char} {s fraction : List Char}

/-- Digits are the text of a number. -/
theorem of_digits (hne : s ≠ []) (h : ∀ c ∈ s, c ∈ digitCharacters) : IsDigitText mark s := by
  obtain ⟨c, rest, rfl⟩ := List.exists_cons_of_ne_nil hne
  exact ⟨⟨c, rest, h c (by simp), rfl⟩, fun d hd => .inl (h d hd)⟩

/-- Digits with a fraction behind them are the text of a number. -/
theorem append_fraction (h : IsDigitText mark s) (hfraction : ∀ c ∈ fraction, c ∈ digitCharacters) :
    IsDigitText mark (s ++ mark :: fraction) := by
  obtain ⟨⟨c, rest, hc, rfl⟩, hchars⟩ := h
  refine ⟨⟨c, rest ++ mark :: fraction, hc, rfl⟩, fun d hd => ?_⟩
  rcases List.mem_append.1 hd with hd | hd
  · exact hchars d hd
  · rcases List.mem_cons.1 hd with hmark | hd
    · exact .inr hmark
    · exact .inl (hfraction d hd)

end IsDigitText

namespace Decimal

/-- The places of a decimal are digits, and one at least stands in front of the separator. -/
theorem places_digits (d : Decimal) :
    d.places.1 ≠ [] ∧ (∀ c ∈ d.places.1, c ∈ digitCharacters) ∧
      ∀ c ∈ d.places.2, c ∈ digitCharacters := by
  unfold places
  split
  · refine ⟨Nat.toDigits_ne_nil, fun c hc => mem_digitCharacters_of_mem_digitsOf hc, by simp⟩
  · -- the padding leaves one digit more than the fraction takes
    have hlength : (-d.exponent).toNat <
        (padLeft ((-d.exponent).toNat + 1) (digitsOf d.coefficient)).length := by
      rw [padLeft, List.length_append, List.length_replicate]
      omega
    refine ⟨fun hnil => ?_, fun c hc => ?_, fun c hc => ?_⟩
    · have := congrArg List.length hnil
      simp only [List.length_take, List.length_nil] at this
      omega
    · exact mem_digitCharacters_of_mem_padLeft (List.mem_of_mem_take hc)
    · exact mem_digitCharacters_of_mem_padLeft (List.mem_of_mem_drop hc)

/-- A decimal that is written out has a digit in front of its separator. -/
theorem isDigitText_plain (mark : Char) (d : Decimal) : IsDigitText mark (d.plain mark) := by
  obtain ⟨hne, hwhole, hfraction⟩ := d.places_digits
  unfold plain
  split
  · next whole heq =>
    rw [heq] at hne hwhole
    exact .of_digits hne hwhole
  · next whole fraction _ heq =>
    rw [heq] at hne hwhole hfraction
    exact (IsDigitText.of_digits hne hwhole).append_fraction hfraction

end Decimal

namespace NumberFormat

/-- The exact text of a finite number is its shortest decimal, written out behind its sign. -/
theorem exact_toList (f : NumberFormat) {x : Float} (hfinite : Binary64.isFinite x = true) :
    (f.exact x).toList =
      Binary64.signText x ++ (Binary64.shortest x).trimmed.plain f.decimal := by
  rw [exact, String.toList_ofList, Binary64.plain, if_pos hfinite]

end NumberFormat

end Formulary
