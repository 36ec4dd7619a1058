import Formulary.Proofs.Number.Signed
import Formulary.Proofs.Syntax.Writing
import Formulary.Syntax.Literal

/-!
# Complex numbers read back

A complex number is written as a sum in brackets, and the text between them is read as the same
number, bit for bit (`readComplex_rendered`). Its parts are told apart by the last sign in the text:
the exact text of a number has no exponent, so that a sign stands nowhere but in front of it, and
the imaginary part always has one.
-/

namespace Formulary

open Text

/-- A sign with none behind it is the last one. -/
theorem lastSign?_append (s : List Char) {sign : Char} (hsign : sign = '+' ∨ sign = '-')
    {rest : List Char} (hrest : ∀ c ∈ rest, c ≠ '+' ∧ c ≠ '-') :
    lastSign? (s ++ sign :: rest) = some s.length := by
  have hnone : rest.reverse.findIdx? (fun c => c == '+' || c == '-') = none := by
    rw [List.findIdx?_eq_none_iff]
    intro c hc
    simpa using hrest c (List.mem_reverse.1 hc)
  have hlast : (s ++ sign :: rest).reverse.findIdx? (fun c => c == '+' || c == '-') =
      some rest.length := by
    rw [List.reverse_append, List.reverse_cons, List.append_assoc, List.findIdx?_append, hnone]
    rcases hsign with rfl | rfl <;> simp [List.findIdx?_cons]
  rw [lastSign?, hlast]
  simp

/-- A sign and digits are read as they stand. -/
theorem readImaginary_cons (f : NumberFormat) (sign : Char) {digits : List Char} (hne : digits ≠ []) :
    readImaginary f (sign :: digits) = f.read (sign :: digits) := by
  simp [readImaginary, hne]

/-- What is read from a text without blanks: a real part, and an imaginary part that begins with the
last sign. -/
theorem readComplex_parts {f : NumberFormat} {real digits : List Char} {sign : Char} {re im : Float}
    (hre : f.read real = .ok re) (him : f.read (sign :: digits) = .ok im) (hne : real ≠ [])
    (hdigits : digits ≠ []) (hsign : sign = '+' ∨ sign = '-')
    (hplain : ∀ c ∈ digits, c ≠ '+' ∧ c ≠ '-')
    (hblank : ∀ c ∈ real ++ sign :: digits, isBlank c = false) :
    readComplex f (String.ofList (real ++ sign :: digits ++ ['i'])) = .ok ⟨re, im⟩ := by
  have hcompact : compact (real ++ sign :: digits ++ ['i']) = real ++ sign :: digits ++ ['i'] := by
    refine List.filter_eq_self.2 fun c hc => ?_
    rw [List.mem_append, List.mem_singleton] at hc
    rcases hc with hc | rfl
    · simpa using hblank c hc
    · decide
  have hreverse : (real ++ sign :: digits ++ ['i']).reverse =
      'i' :: (real ++ sign :: digits).reverse := by
    simp
  have hlength : real.length ≠ 0 := by simpa using hne
  rw [readComplex, String.toList_ofList, hcompact, hreverse]
  simp only [List.reverse_reverse, lastSign?_append real hsign hplain, Option.getD_some,
    List.drop_left, List.take_left, readImaginary_cons f sign hdigits, him, hre, if_neg hlength]
  rfl

/-- The digits of a number are ASCII digits and the decimal separator. -/
theorem mem_digits {f : NumberFormat} {x : Float} {c : Char}
    (hc : c ∈ (Binary64.shortest x).trimmed.plain f.decimal) : c ∈ digitCharacters ∨ c = f.decimal :=
  ((Binary64.shortest x).trimmed.isDigitText_plain f.decimal).chars c hc

/-- The text of a complex number is that of its real part, then a sign, and then the digits of its
imaginary part. -/
theorem rendered_complex (f : NumberFormat) {z : Cartesian Float}
    (him : Binary64.isFinite z.im = true) :
    (Value.complex z).rendered f = "(" ++ String.ofList ((f.exact z.re).toList ++
      (if Binary64.isNegative z.im then '-' else '+') ::
        (Binary64.shortest z.im).trimmed.plain f.decimal ++ ['i']) ++ ")" := by
  rw [← String.toList_inj, Value.rendered, Value.signed, Grammar.startsWith_exact f him]
  cases hsign : Binary64.isNegative z.im <;>
    simp [f.exact_toList him, Binary64.signText, hsign]

/-- A complex number that is written as an operand is read back from the text between its brackets,
bit for bit: the signs of zeros, subnormal numbers and the largest numbers included. -/
theorem readComplex_rendered (f : NumberFormat) (hf : f.SignFree) (hblank : isBlank f.decimal = false)
    (z : Cartesian Float) (hre : Binary64.isFinite z.re = true) (him : Binary64.isFinite z.im = true) :
    ∃ text, (Value.complex z).rendered f = "(" ++ text ++ ")" ∧ readComplex f text = .ok z := by
  have hclear : ∀ {x : Float} {c : Char}, c ∈ (Binary64.shortest x).trimmed.plain f.decimal →
      isBlank c = false ∧ c ≠ '+' ∧ c ≠ '-' := by
    intro x c hc
    have hdigit : ∀ c ∈ digitCharacters, isBlank c = false := by decide
    rcases mem_digits hc with hc | rfl
    · exact ⟨hdigit c hc, (not_sign_of_mem hc).2, (not_sign_of_mem hc).1⟩
    · exact ⟨hblank, hf.decimal⟩
  have hnonempty : ∀ x : Float, (Binary64.shortest x).trimmed.plain f.decimal ≠ [] := by
    intro x
    obtain ⟨c, rest, -, hdigits⟩ :=
      ((Binary64.shortest x).trimmed.isDigitText_plain f.decimal).begins
    simp [hdigits]
  have hreal : f.read (f.exact z.re).toList = .ok z.re := by
    rw [f.exact_toList hre]
    exact NumberFormat.read_signed_digits hf hre (.inl rfl)
  have himaginary : f.read ((if Binary64.isNegative z.im then '-' else '+') ::
      (Binary64.shortest z.im).trimmed.plain f.decimal) = .ok z.im := by
    rw [← List.singleton_append]
    refine NumberFormat.read_signed_digits hf him ?_
    cases hsign : Binary64.isNegative z.im <;> simp [Binary64.signText, hsign]
  refine ⟨_, rendered_complex f him, readComplex_parts hreal himaginary ?_ (hnonempty z.im) ?_
    (fun c hc => (hclear hc).2) ?_⟩
  · simp [f.exact_toList hre, hnonempty z.re]
  · split <;> simp
  · intro c hc
    have hsign : ∀ c ∈ Binary64.signText z.re, isBlank c = false := by
      unfold Binary64.signText
      split <;> decide
    rw [f.exact_toList hre, List.mem_append, List.mem_append, List.mem_cons] at hc
    rcases hc with (hc | hc) | rfl | hc
    · exact hsign c hc
    · exact (hclear hc).1
    · split <;> decide
    · exact (hclear hc).1

/-- A negative zero and the largest subnormal number, in a format that groups digits. -/
theorem readComplex_rendered_negative_zero : NumberFormat.grouped.SignFree ∧
    isBlank NumberFormat.grouped.decimal = false ∧
    ∃ text, (Value.complex ⟨-0.0, Binary64.ofMagnitudeBits true (2 ^ 52 - 1)⟩).rendered .grouped =
        "(" ++ text ++ ")" ∧
      readComplex .grouped text = .ok ⟨-0.0, Binary64.ofMagnitudeBits true (2 ^ 52 - 1)⟩ := by
  have hblank : isBlank NumberFormat.grouped.decimal = false := by decide
  exact ⟨NumberFormat.signFree_grouped, hblank, readComplex_rendered _ NumberFormat.signFree_grouped
    hblank _ (by decide +kernel) (by decide +kernel)⟩

end Formulary
