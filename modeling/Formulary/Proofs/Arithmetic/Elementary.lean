import Formulary.Arithmetic.Elementary
import Formulary.Proofs.Arithmetic.Divisors
import Formulary.Proofs.Number.Subtraction

/-!
# Elementary functions and divisors

What `LawfulDivision` asks of binary64 numbers is a fact about their arithmetic, but for four values
of the platform's functions. `ElementaryLibrary.Lawful` is what is assumed of these: a hyperbolic
sine or tangent is zero at zero only, a hyperbolic cosine nowhere, and the logarithm of ten is not
zero.
-/

namespace Formulary

namespace ElementaryLibrary

/-- The functions of the library are not zero where their values divide. -/
structure Lawful (lib : ElementaryLibrary) : Prop where
  sinh (x : Float) (hx : (x == 0) = false) : (lib.sinh x == 0) = false
  cosh (x : Float) : (lib.cosh x == 0) = false
  tanh (x : Float) (hx : (x == 0) = false) : (lib.tanh x == 0) = false
  log_ten : (lib.log 10 == 0) = false

end ElementaryLibrary

namespace Elementary

variable {infinite : InfiniteResult} {f : Float → Float} {pow : Float → Float → Float} {x y : Float}

/-- The result of a function is the platform's. -/
theorem eq_of_checked (h : checked infinite f x = .ok y) : y = f x := by
  unfold checked at h
  dsimp only at h
  split at h
  · cases h
  · split at h
    · cases h
    · cases h
      rfl

/-- A checked function reports no zero divisor. -/
theorem checked_ne_zeroDivisor : checked infinite f x ≠ .error .zeroDivisor := by
  unfold checked
  dsimp only
  split
  · rintro ⟨⟩
  · split
    · cases infinite <;> rintro ⟨⟩
    · rintro ⟨⟩

/-- A power reports no zero divisor. -/
theorem power_ne_zeroDivisor : power pow x y ≠ .error .zeroDivisor := by
  unfold power
  dsimp only
  repeat' split
  all_goals rintro ⟨⟩

/-- A square reports no zero divisor. -/
theorem square_ne_zeroDivisor : square pow x ≠ .error .zeroDivisor := by
  unfold square
  dsimp only
  split <;> rintro ⟨⟩

/-- A quotient reports a zero divisor only where there is one. -/
theorem quotient_ne_zeroDivisor (hy : (y == 0.0) = false) : quotient x y ≠ .error .zeroDivisor := by
  unfold quotient
  rw [hy]
  rintro ⟨⟩

end Elementary

namespace ElementaryLibrary

open Elementary Float.Model

/-- A zero is inside the unit range, and it is not positive. -/
theorem compare_of_zero {x : Float} (h : Float.beq x (Float.ofNat 0) = true) :
    Float.lt (-Float.ofNat 1) x = true ∧ Float.lt x (Float.ofNat 1) = true ∧
      Float.lt (Float.ofNat 0) x = false := by
  obtain ⟨-, -, rfl | ⟨rfl, -⟩ | ⟨rfl, -⟩⟩ := Float.beq_iff_ne_nan_and_eq.1 h
  all_goals decide

/-- Only one is one more than a zero. -/
theorem eq_one_of_sub {x : Float} (h : Float.beq (x - Float.ofNat 1) (Float.ofNat 0) = true) :
    x = Float.ofNat 1 := by
  rcases Binary64.eq_or_zero_of_sub h with hx | ⟨s, s', -, hone⟩
  · exact hx
  · cases hone

/-- Binary64 numbers divide lawfully with a lawful library. -/
theorem Lawful.lawfulDivision {lib : ElementaryLibrary} (h : lib.Lawful) :
    @LawfulDivision Float lib.scalar := by
  let _ := lib.scalar
  refine
    { elementary := ?_, power := fun _ _ => power_ne_zeroDivisor, quotient := ?_
      sinh := ?_, cosh := ?_, tanh := ?_, log_ten := ?_, infinity := ?_, neg_infinity := ?_
      zero_inside := ?_, zero_not_positive := ?_, one_in_range := ?_ }
  · intro f hf x
    cases hf with
    | square => exact square_ne_zeroDivisor
    | _ => exact checked_ne_zeroDivisor
  · intro x y hy
    exact quotient_ne_zeroDivisor hy
  · intro x y hx hy
    obtain rfl := eq_of_checked hy
    exact h.sinh x hx
  · intro x y hy
    obtain rfl := eq_of_checked hy
    exact h.cosh x
  · intro x y hx hy
    obtain rfl := eq_of_checked hy
    exact h.tanh x hx
  · intro y hy
    obtain rfl := eq_of_checked hy
    exact h.log_ten
  · show Float.beq Binary64.infinity (Float.ofNat 0) = false
    decide
  · show Float.beq (-Binary64.infinity) (Float.ofNat 0) = false
    decide
  · -- comparisons do not depend on the library
    intro x hx
    obtain ⟨hlow, hhigh, -⟩ := compare_of_zero hx
    exact Bool.and_eq_true_iff.2 ⟨hlow, hhigh⟩
  · intro x hx
    exact (compare_of_zero hx).2.2
  · intro x hx
    obtain rfl := eq_one_of_sub hx
    show ((Float.lt (-Float.ofNat 1) (Float.ofNat 1) ||
        Float.beq (-Float.ofNat 1) (Float.ofNat 1)) &&
      (Float.lt (Float.ofNat 1) (Float.ofNat 1) ||
        Float.beq (Float.ofNat 1) (Float.ofNat 1))) = true
    decide

end ElementaryLibrary

end Formulary
