import Mathlib.Tactic.IntervalCases
import Formulary.Proofs.Syntax.Passes

/-!
# Constants, names and number literals

What the texts of the simplest atoms look like. The marks of a number format are plain if they are
mistaken neither for an operator or a bracket nor for a part of a name or a number; then the last
character tells number literals from names and operators.
-/

namespace Formulary

open Text

/-- The characters that operators are written with. -/
def operatorCharacters : List Char := ['=', '!', '<', '>', '&', '|', '#', '+', '-', '*', '/', '^']

/-- No letter, digit, bracket, blank or operator. -/
structure IsPlainMark (c : Char) : Prop where
  not_letter : c.isAlpha = false
  not_digit : isDigit c = false
  not_bracket : Bracket.isBracket c = false
  not_blank : isBlank c = false
  not_operator : c ∉ operatorCharacters

instance (c : Char) : Decidable (IsPlainMark c) :=
  decidable_of_iff (c.isAlpha = false ∧ isDigit c = false ∧ Bracket.isBracket c = false ∧
      isBlank c = false ∧ c ∉ operatorCharacters)
    ⟨fun ⟨h₁, h₂, h₃, h₄, h₅⟩ => ⟨h₁, h₂, h₃, h₄, h₅⟩,
      fun ⟨h₁, h₂, h₃, h₄, h₅⟩ => ⟨h₁, h₂, h₃, h₄, h₅⟩⟩

/-- The decimal separator and the argument separator are plain characters. -/
structure NumberFormat.HasPlainMarks (f : NumberFormat) : Prop where
  decimal : IsPlainMark f.decimal
  argument : ∃ c, f.argument = [c] ∧ IsPlainMark c

/-- Arguments are separated by one plain character. The decimal separator may be any character. -/
def NumberFormat.HasPlainArgument (f : NumberFormat) : Prop :=
  ∃ c, f.argument = [c] ∧ IsPlainMark c

/-- The marks of the standard format are plain. -/
theorem NumberFormat.hasPlainMarks_standard : NumberFormat.standard.HasPlainMarks :=
  ⟨by decide, ',', rfl, by decide⟩

namespace Syntax

/-! ## Lowercase words -/

/-- The lowercase letters. -/
def alphabet : List Char := "abcdefghijklmnopqrstuvwxyz".toList

/-- The lowercase letters are those of the alphabet. -/
theorem mem_alphabet {c : Char} (h : isLowercase c = true) : c ∈ alphabet := by
  have hrange : 97 ≤ c.toNat ∧ c.toNat ≤ 122 := by
    simpa [isLowercase, Char.le_def, UInt32.le_iff_toNat_le] using h
  obtain ⟨hlow, hhigh⟩ := hrange
  rw [← Char.ofNat_toNat c]
  generalize c.toNat = n at *
  interval_cases n <;> decide

/-- No letter is a bracket. -/
theorem not_isBracket_of_isLowercase {c : Char} (h : isLowercase c = true) :
    Bracket.isBracket c = false := by
  have : ∀ c ∈ alphabet, Bracket.isBracket c = false := by decide
  exact this c (mem_alphabet h)

/-- No letter is part of an operator. -/
theorem not_operator_of_isLowercase {c : Char} (h : isLowercase c = true) :
    c ∉ operatorCharacters := by
  have : ∀ c ∈ alphabet, c ∉ operatorCharacters := by decide
  exact this c (mem_alphabet h)

/-- No letter is a digit. -/
theorem not_isDecimalDigit_of_isLowercase {c : Char} (h : isLowercase c = true) :
    isDecimalDigit c = false := by
  have : ∀ c ∈ alphabet, isDecimalDigit c = false := by decide
  exact this c (mem_alphabet h)

/-- A lowercase letter is a letter. -/
theorem isAlpha_of_isLowercase {c : Char} (h : isLowercase c = true) : c.isAlpha = true := by
  have : ∀ c ∈ alphabet, c.isAlpha = true := by decide
  exact this c (mem_alphabet h)

/-- No letter is a blank. -/
theorem not_isBlank_of_isLowercase {c : Char} (h : isLowercase c = true) : isBlank c = false := by
  have : ∀ c ∈ alphabet, isBlank c = false := by decide
  exact this c (mem_alphabet h)

/-- The named constants are named by lowercase words. -/
theorem isName_of_constant? {s : List Char} {v : Value Float} (h : constant? s = some v) :
    isName s = true := by
  unfold constant? at h
  split at h
  case h_6 => cases h
  all_goals
    rename_i hs
    have hs := congrArg String.toList hs
    rw [String.toList_ofList] at hs
    rw [hs]
    decide

end Syntax

namespace NumberFormat

/-! ## Number literals -/

/-- The last character of a text is like all of them. -/
theorem getLast?_of_all {p : Char → Bool} {s : List Char} (hne : s ≠ []) (h : s.all p = true) :
    ∃ c, s.getLast? = some c ∧ p c = true :=
  ⟨s.getLast hne, List.getLast?_eq_some_getLast hne, List.all_eq_true.1 h _ (List.getLast_mem hne)⟩

/-- Groups of three digits end with a digit. -/
theorem getLast?_of_isTriples {mark : Char} {s : List Char} (hne : s ≠ [])
    (h : isTriples mark s = true) : ∃ c, s.getLast? = some c ∧ isDecimalDigit c = true := by
  fun_induction isTriples mark s with
  | case1 => exact absurd rfl hne
  | case2 m a b c rest ih =>
    simp only [Bool.and_eq_true] at h
    cases rest with
    | nil => exact ⟨c, rfl, h.1.2⟩
    | cons d rest => simpa using ih (by simp) h.2
  | case3 => cases h

/-- The part in front of a decimal separator ends with a digit. -/
theorem getLast?_of_isWhole {f : NumberFormat} {s : List Char} (h : f.isWhole s = true) :
    ∃ c, s.getLast? = some c ∧ isDecimalDigit c = true := by
  simp only [isWhole, isGrouped, Bool.or_eq_true, Bool.and_eq_true, Bool.not_eq_true',
    List.isEmpty_eq_false_iff] at h
  rcases h with ⟨hne, hall⟩ | ⟨-, ⟨-, hne⟩, htriples⟩
  · exact getLast?_of_all hne hall
  · obtain ⟨c, hc, hdigit⟩ := getLast?_of_isTriples hne htriples
    refine ⟨c, ?_, hdigit⟩
    rw [← List.takeWhile_append_dropWhile (p := isDecimalDigit) (l := s), List.getLast?_append, hc]
    rfl

/-- The last character of a number is a digit or the decimal separator. -/
theorem getLast?_of_isUnsigned {f : NumberFormat} {s : List Char} (h : f.isUnsigned s = true) :
    ∃ c, s.getLast? = some c ∧ (isDecimalDigit c = true ∨ c = f.decimal) := by
  have hsplit := List.takeWhile_append_dropWhile (p := (· != f.decimal)) (l := s)
  unfold isUnsigned at h
  split at h
  · next hrest =>
    rw [hrest, List.append_nil] at hsplit
    rw [hsplit] at h
    obtain ⟨c, hc, hdigit⟩ := getLast?_of_isWhole h
    exact ⟨c, hc, .inl hdigit⟩
  · next d fraction hrest =>
    have hd : d = f.decimal := by
      have := List.head?_dropWhile_not (· != f.decimal) s
      simpa [hrest] using this
    rw [hrest] at hsplit
    rw [← hsplit, List.getLast?_append_of_ne_nil _ (by simp)]
    cases fraction with
    | nil => exact ⟨d, rfl, .inr hd⟩
    | cons e fraction =>
      simp only [Bool.and_eq_true] at h
      obtain ⟨c, hc, hdigit⟩ := getLast?_of_all (by simp) h.1
      exact ⟨c, by simpa using hc, .inl hdigit⟩

/-- A number ends with a digit or a decimal separator. -/
theorem getLast?_of_read {f : NumberFormat} {s : List Char} {x : Float} (h : f.read s = .ok x) :
    ∃ c, s.getLast? = some c ∧ (isDecimalDigit c = true ∨ c = f.decimal) := by
  have hnumber : f.isNumber s = true := by
    by_contra hnot
    simp [read, hnot] at h
  unfold isNumber at hnumber
  rw [Bool.or_eq_true] at hnumber
  rcases hnumber with hs | hs
  · exact getLast?_of_isUnsigned hs
  · cases s with
    | nil => cases hs
    | cons c rest =>
      rw [Bool.and_eq_true] at hs
      obtain ⟨d, hd, hdigit⟩ := getLast?_of_isUnsigned hs.2
      exact ⟨d, by rw [List.getLast?_cons, hd, Option.getD_some], hdigit⟩

end NumberFormat

end Formulary
