import Formulary.Proofs.Number.Underflow
import Formulary.Value.Operation

/-!
# Divisions by zero

A real quotient fails for a divisor that is zero. A complex one fails where the squared magnitude of
the divisor is zero, and that is computed: the squares of tiny components are rounded to zero, too.
So the two agree on every divisor except the tiny ones, by which real numbers are divided and
complex ones are not (`Value.division_by_zero_iff`).
-/

namespace Formulary

open Binary64

/-! ## Complex quotients -/

namespace Cartesian

/-- The squared magnitude of a complex number, by which quotients are divided. -/
def squaredMagnitude (w : Cartesian Float) : Float := w.re * w.re + w.im * w.im

/-- Where the squared magnitude is zero, a quotient is in error. -/
theorem div_of_isZero (z : Cartesian Float) {w : Cartesian Float}
    (h : Scalar.isZero w.squaredMagnitude = true) : z.div w = .error (.complexDivision z w) :=
  if_pos h

/-- Where it is not, the quotient is there. -/
theorem div_of_not_isZero (z : Cartesian Float) {w : Cartesian Float}
    (h : Scalar.isZero w.squaredMagnitude = false) :
    z.div w = .ok ⟨(z.re * w.re + z.im * w.im) / w.squaredMagnitude,
      (z.im * w.re - z.re * w.im) / w.squaredMagnitude⟩ := by
  have hquotient (x : Float) : lift (Scalar.quotient x w.squaredMagnitude) =
      (.ok (x / w.squaredMagnitude) : Computed Float Float) :=
    congrArg lift (if_neg (Bool.eq_false_iff.1 h))
  unfold div
  change (if Scalar.isZero w.squaredMagnitude = true then _ else
    lift (Scalar.quotient _ w.squaredMagnitude) >>= fun re =>
      lift (Scalar.quotient _ w.squaredMagnitude) >>= fun im => _) = _
  rw [if_neg (Bool.eq_false_iff.1 h), hquotient, hquotient]
  rfl

/-- A quotient is defined, or it is a division by zero. -/
theorem div_cases (z w : Cartesian Float) :
    (∃ q, z.div w = .ok q) ∨ z.div w = .error (.complexDivision z w) := by
  cases h : Scalar.isZero w.squaredMagnitude with
  | false => exact .inl ⟨_, div_of_not_isZero z h⟩
  | true => exact .inr (div_of_isZero z h)

/-- A quotient is in error where the square of both parts of the divisor is zero. -/
theorem div_eq_error_iff (z : Cartesian Float) {w : Cartesian Float}
    (hre : Binary64.isFinite w.re = true) (him : Binary64.isFinite w.im = true) :
    z.div w = .error (.complexDivision z w) ↔
      (Scalar.isZero w.re = true ∨ IsTiny w.re) ∧ (Scalar.isZero w.im = true ∨ IsTiny w.im) := by
  rw [← isZero_squares_iff hre him]
  constructor
  · intro h
    by_contra hzero
    rw [div_of_not_isZero z (Bool.eq_false_iff.2 hzero)] at h
    cases h
  · exact div_of_isZero z

end Cartesian

namespace Value

/-- The quotient of two values fails as a division by zero. -/
def DividesByZero (v w : Value Float) : Prop :=
  ∃ e, v.applyBinary .div w = .error e ∧ e.kind = .divisionByZero

/-- Real numbers are divided by zero where the divisor is zero. -/
theorem dividesByZero_reals_iff (x y : Float) :
    DividesByZero (.real x) (.real y) ↔ Scalar.isZero y = true := by
  have happly : applyBinary .div (.real x) (.real y) =
      reported .div (.real x) (.real y) real (RealFunction.div x y) := rfl
  unfold DividesByZero
  rw [happly, RealFunction.div]
  constructor
  · rintro ⟨e, he, -⟩
    by_contra hzero
    have hratio : RealFunction.ratio x y = .ok (x / y) := congrArg lift (if_neg hzero)
    rw [if_neg hzero, hratio] at he
    cases he
  · intro hzero
    rw [if_pos hzero]
    exact ⟨_, rfl, rfl⟩

/-- Complex numbers are divided by zero where their quotient is in error. -/
theorem dividesByZero_complexes_iff (z w : Cartesian Float) :
    DividesByZero (.complex z) (.complex w) ↔ z.div w = .error (.complexDivision z w) := by
  have happly : applyBinary .div (.complex z) (.complex w) =
      reported .div (.complex z) (.complex w) complex (z.div w) := rfl
  unfold DividesByZero
  rw [happly]
  constructor
  · rintro ⟨e, he, -⟩
    rcases z.div_cases w with ⟨q, hq⟩ | herror
    · rw [hq] at he
      cases he
    · exact herror
  · intro herror
    rw [herror]
    exact ⟨_, rfl, rfl⟩

/-- A quotient of finite complex numbers is defined unless both components of the divisor are zero
or tiny; then it is a division by zero. A quotient of real numbers is a division by zero for the
divisor zero only, so their widenings fail for the same divisors and for the tiny ones. -/
theorem division_by_zero_iff (z : Cartesian Float) {w : Cartesian Float}
    (hre : Binary64.isFinite w.re = true) (him : Binary64.isFinite w.im = true) :
    ((∃ q, z.div w = .ok q) ∨ z.div w = .error (.complexDivision z w)) ∧
      (z.div w = .error (.complexDivision z w) ↔
        (Scalar.isZero w.re = true ∨ IsTiny w.re) ∧ (Scalar.isZero w.im = true ∨ IsTiny w.im)) ∧
      ∀ x y : Float, Binary64.isFinite y = true →
        (DividesByZero (.real x) (.real y) ↔ Scalar.isZero y = true) ∧
        (DividesByZero (.complex (.ofReal x)) (.complex (.ofReal y)) ↔
          Scalar.isZero y = true ∨ IsTiny y) := by
  refine ⟨z.div_cases w, z.div_eq_error_iff hre him, fun x y hy => ?_⟩
  have hzero : Scalar.isZero (Scalar.zero : Float) = true := rfl
  refine ⟨dividesByZero_reals_iff x y, ?_⟩
  rw [dividesByZero_complexes_iff, Cartesian.div_eq_error_iff (.ofReal x) (w := .ofReal y) hy rfl]
  exact and_iff_left (.inl hzero)

/-- The least number is tiny, and one is not. -/
theorem division_by_zero_iff_least :
    Binary64.isFinite (Float.ofBits 1) = true ∧
      Cartesian.div ⟨1.0, 2.0⟩ ⟨Float.ofBits 1, -0.0⟩ =
        .error (.complexDivision ⟨1.0, 2.0⟩ ⟨Float.ofBits 1, -0.0⟩) := by
  have hvalue : toRat (Float.ofBits 1) = (1 : ℕ) * 2 ^ (-1074 : ℤ) :=
    toRat_eq (by decide) (by decide) (by decide)
  rw [Nat.cast_one, one_mul] at hvalue
  have htiny : IsTiny (Float.ofBits 1) := by
    refine ⟨?_, ?_⟩
    · rw [hvalue]
      positivity
    · rw [hvalue, ← zpow_natCast, ← zpow_mul]
      exact zpow_le_zpow_right₀ one_le_two (by decide)
  exact ⟨by decide, (division_by_zero_iff ⟨1.0, 2.0⟩ (w := ⟨Float.ofBits 1, -0.0⟩) rfl rfl).2.1.2
    ⟨.inr htiny, .inl rfl⟩⟩

/-- Complex numbers are not divided by `1e-200`, although it is not zero and real numbers are. -/
theorem not_division_by_zero_iff_zero :
    Binary64.isFinite 1e-200 = true ∧
      ¬ (Cartesian.div ⟨1.0, 0.0⟩ ⟨1e-200, 0.0⟩ =
          .error (.complexDivision ⟨1.0, 0.0⟩ ⟨1e-200, 0.0⟩) ↔
        Scalar.isZero (1e-200 : Float) = true ∧ Scalar.isZero (0.0 : Float) = true) ∧
      ¬ (DividesByZero (.real 1.0) (.real 1e-200) ↔
        DividesByZero (.complex (.ofReal 1.0)) (.complex (.ofReal 1e-200))) := by
  have hzero : ¬ Scalar.isZero (1e-200 : Float) = true := by decide +kernel
  have hsquare : Scalar.isZero (Cartesian.squaredMagnitude ⟨1e-200, 0.0⟩) = true := by decide +kernel
  have hwidened : Scalar.isZero (Cartesian.squaredMagnitude (.ofReal 1e-200)) = true := by
    decide +kernel
  refine ⟨by decide +kernel, fun h => ?_, ?_⟩
  · exact hzero (h.1 (Cartesian.div_of_isZero _ hsquare)).1
  · rw [dividesByZero_reals_iff, dividesByZero_complexes_iff]
    exact fun h => hzero (h.2 (Cartesian.div_of_isZero _ hwidened))

end Value

end Formulary
