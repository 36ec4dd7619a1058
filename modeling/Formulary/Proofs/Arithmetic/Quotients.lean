import Formulary.Proofs.Arithmetic.Reals
import Mathlib.Algebra.Order.Ring.Basic
import Mathlib.Tactic.LinearCombination
import Mathlib.Tactic.Ring

/-!
# Quotients of complex functions

In the exact arithmetic of an ordered field a complex quotient is what its name says: times its
divisor it is the dividend. The tangent and its kin divide by a real number instead, which is
written out for each of them, with the angles doubled or with two squares. In every case that number
is the squared magnitude of a complex divisor, times a factor that the numerators have as well
(`isQuotient_of_ratio`). So each of these functions is the quotient that defines it, and it is
undefined where its divisor is zero and nowhere else.

Of the circular and the hyperbolic functions only the laws in `IsTrigonometric` are used.
-/

namespace Formulary

/-! ## What it is to be a quotient -/

namespace Cartesian

variable {α : Type} [Scalar α]

/-- What the function gives, times the divisor, is the dividend. The function is undefined where the
divisor is zero, and has a value everywhere else. -/
structure IsQuotient (f : UnaryOp) (dividend divisor : Cartesian α → Computed α (Cartesian α)) :
    Prop where
  mul_eq {z q d : Cartesian α} : Value.applyUnary f (.complex z) = .ok (.complex q) →
    divisor z = .ok d → dividend z = .ok (mul q d)
  undefined_iff {z : Cartesian α} :
    (∃ e, Value.applyUnary f (.complex z) = .error e ∧ e.kind = .undefined) ↔ divisor z = .ok zero
  exists_value {z : Cartesian α} : divisor z ≠ .ok zero →
    ∃ q, Value.applyUnary f (.complex z) = .ok (.complex q)

end Cartesian

namespace FieldLibrary

open Cartesian (ratio IsQuotient)

section Field

variable {K : Type} [Field K] [DecidableEq K] {lib : FieldLibrary K}

/-! ## Zero, and division by it -/

/-- The two of the scalars is that of the field. -/
theorem two_eq : @Scalar.two K lib.scalar = 2 := Nat.cast_ofNat

/-- Zero is tested for as in the field. -/
theorem isZero_eq (a : K) : @Scalar.isZero K lib.scalar a = decide (a = 0) := by
  show decide (a = @Scalar.zero K lib.scalar) = _
  rw [zero_eq]

/-- The origin is where both parts are zero. -/
theorem isOrigin_iff {z : Cartesian K} :
    @Cartesian.isOrigin K lib.scalar z = true ↔ z.re = 0 ∧ z.im = 0 := by
  let := lib.scalar
  rw [Cartesian.isOrigin, isZero_eq, isZero_eq, Bool.and_eq_true, decide_eq_true_iff,
    decide_eq_true_iff]

/-- A pair is zero if both parts are. -/
theorem eq_zero_iff {z : Cartesian K} :
    z = @Cartesian.zero K lib.scalar ↔ z.re = 0 ∧ z.im = 0 := by
  let := lib.scalar
  obtain ⟨a, b⟩ := z
  rw [Cartesian.zero, Cartesian.ofReal, zero_eq, Cartesian.mk.injEq]

/-- Both parts over one divisor, which may not be zero. -/
theorem ratio_eq (f : UnaryOp) (z : Cartesian K) (re im divisor : K) :
    @ratio K lib.scalar f z re im divisor =
      if divisor = 0 then .error (.complexDomain f z) else .ok ⟨re / divisor, im / divisor⟩ := by
  let := lib.scalar
  rw [ratio, isZero_eq]
  by_cases h : divisor = 0
  · rw [if_pos (decide_eq_true h), if_pos h]
  · rw [if_neg (by simpa using h), if_neg h, quotient_eq, quotient_eq, if_neg h, if_neg h]
    rfl

/-- A quotient, by the squared magnitude of the divisor. -/
theorem div_eq (z w : Cartesian K) : @Cartesian.div K lib.scalar z w =
    if w.re * w.re + w.im * w.im = 0 then .error (.complexDivision z w)
    else .ok ⟨(z.re * w.re + z.im * w.im) / (w.re * w.re + w.im * w.im),
      (z.im * w.re - z.re * w.im) / (w.re * w.re + w.im * w.im)⟩ := by
  unfold Cartesian.div
  dsimp only
  rw [isZero_eq]
  by_cases h : w.re * w.re + w.im * w.im = 0
  · rw [if_pos (decide_eq_true h), if_pos h]
  · rw [if_neg (by simpa using h), if_neg h, quotient_eq, quotient_eq, if_neg h, if_neg h]
    rfl

/-- The real and the imaginary part of a quotient, times the divisor, make up the dividend. -/
theorem mul_quotient {n d : Cartesian K} {re im norm factor : K} (h : norm ≠ 0)
    (hre : re = factor * (n.re * d.re + n.im * d.im))
    (him : im = factor * (n.im * d.re - n.re * d.im))
    (hnorm : norm = factor * (d.re * d.re + d.im * d.im)) :
    @Cartesian.mul K lib.scalar ⟨re / norm, im / norm⟩ d = n := by
  have hreal : re / norm * d.re - im / norm * d.im = n.re := by
    rw [div_mul_eq_mul_div, div_mul_eq_mul_div, ← sub_div, div_eq_iff h, hre, him, hnorm]
    ring
  have himaginary : re / norm * d.im + im / norm * d.re = n.im := by
    rw [div_mul_eq_mul_div, div_mul_eq_mul_div, ← add_div, div_eq_iff h, hre, him, hnorm]
    ring
  exact congrArg₂ Cartesian.mk hreal himaginary

/-! ## Circular and hyperbolic functions -/

/-- The circular and the hyperbolic functions of the library are defined everywhere, and they obey
the laws of Pythagoras and of the double angle. -/
structure IsTrigonometric (lib : FieldLibrary K) (sin cos sinh cosh : K → K) : Prop where
  sin_eq (a : K) : lib.function .sin a = some (sin a)
  cos_eq (a : K) : lib.function .cos a = some (cos a)
  sinh_eq (a : K) : lib.function .sinh a = some (sinh a)
  cosh_eq (a : K) : lib.function .cosh a = some (cosh a)
  cos_sq_add_sin_sq (a : K) : cos a ^ 2 + sin a ^ 2 = 1
  cosh_sq_sub_sinh_sq (a : K) : cosh a ^ 2 - sinh a ^ 2 = 1
  sin_two_mul (a : K) : sin (2 * a) = 2 * sin a * cos a
  cos_two_mul (a : K) : cos (2 * a) = cos a ^ 2 - sin a ^ 2
  sinh_two_mul (a : K) : sinh (2 * a) = 2 * sinh a * cosh a
  cosh_two_mul (a : K) : cosh (2 * a) = cosh a ^ 2 + sinh a ^ 2

/-- The functions of the real numbers are circular and hyperbolic ones. -/
theorem reals_isTrigonometric :
    reals.IsTrigonometric Real.sin Real.cos Real.sinh Real.cosh where
  sin_eq _ := rfl
  cos_eq _ := rfl
  sinh_eq _ := rfl
  cosh_eq _ := rfl
  cos_sq_add_sin_sq := Real.cos_sq_add_sin_sq
  cosh_sq_sub_sinh_sq := Real.cosh_sq_sub_sinh_sq
  sin_two_mul := Real.sin_two_mul
  cos_two_mul := Real.cos_two_mul'
  sinh_two_mul := Real.sinh_two_mul
  cosh_two_mul := Real.cosh_two_mul

namespace IsTrigonometric

variable {sin cos sinh cosh : K → K} (h : lib.IsTrigonometric sin cos sinh cosh)
include h

/-- The sine is defined everywhere. -/
theorem lift_sin (a : K) : (lift (@Scalar.sin K lib.scalar a) : Computed K K) = .ok (sin a) := by
  show lift (defined (lib.function .sin a)) = _
  rw [h.sin_eq]
  rfl

/-- The cosine is defined everywhere. -/
theorem lift_cos (a : K) : (lift (@Scalar.cos K lib.scalar a) : Computed K K) = .ok (cos a) := by
  show lift (defined (lib.function .cos a)) = _
  rw [h.cos_eq]
  rfl

/-- The hyperbolic sine is defined everywhere. -/
theorem lift_sinh (a : K) : (lift (@Scalar.sinh K lib.scalar a) : Computed K K) = .ok (sinh a) := by
  show lift (defined (lib.function .sinh a)) = _
  rw [h.sinh_eq]
  rfl

/-- The hyperbolic cosine is defined everywhere. -/
theorem lift_cosh (a : K) : (lift (@Scalar.cosh K lib.scalar a) : Computed K K) = .ok (cosh a) := by
  show lift (defined (lib.function .cosh a)) = _
  rw [h.cosh_eq]
  rfl

/-- The sine of a pair, by its parts. -/
theorem sin_complex (z : Cartesian K) : @Cartesian.sin K lib.scalar z =
    .ok ⟨sin z.re * cosh z.im, cos z.re * sinh z.im⟩ := by
  unfold Cartesian.sin
  rw [h.lift_sin, h.lift_cosh, h.lift_cos, h.lift_sinh]
  rfl

/-- The cosine of a pair, by its parts. -/
theorem cos_complex (z : Cartesian K) : @Cartesian.cos K lib.scalar z =
    .ok ⟨cos z.re * cosh z.im, -sin z.re * sinh z.im⟩ := by
  unfold Cartesian.cos
  rw [h.lift_sin, h.lift_cosh, h.lift_cos, h.lift_sinh]
  rfl

/-- The hyperbolic sine of a pair, by its parts. -/
theorem sinh_complex (z : Cartesian K) : @Cartesian.sinh K lib.scalar z =
    .ok ⟨sinh z.re * cos z.im, cosh z.re * sin z.im⟩ := by
  unfold Cartesian.sinh
  rw [h.lift_sin, h.lift_cosh, h.lift_cos, h.lift_sinh]
  rfl

/-- The hyperbolic cosine of a pair, by its parts. -/
theorem cosh_complex (z : Cartesian K) : @Cartesian.cosh K lib.scalar z =
    .ok ⟨cosh z.re * cos z.im, sinh z.re * sin z.im⟩ := by
  unfold Cartesian.cosh
  rw [h.lift_sin, h.lift_cosh, h.lift_cos, h.lift_sinh]
  rfl

/-- The tangent of a pair, by the doubles of its parts. -/
theorem tan_complex (z : Cartesian K) : @Cartesian.tan K lib.scalar z =
    @ratio K lib.scalar .tan z (sin (2 * z.re)) (sinh (2 * z.im))
      (cos (2 * z.re) + cosh (2 * z.im)) := by
  unfold Cartesian.tan
  dsimp only
  rw [two_eq, h.lift_sin, h.lift_cosh, h.lift_cos, h.lift_sinh]
  rfl

/-- The cotangent of a pair, by the doubles of its parts. -/
theorem cot_complex (z : Cartesian K) : @Cartesian.cot K lib.scalar z =
    @ratio K lib.scalar .cot z (sin (2 * z.re)) (-sinh (2 * z.im))
      (cosh (2 * z.im) - cos (2 * z.re)) := by
  unfold Cartesian.cot
  dsimp only
  rw [two_eq, h.lift_sin, h.lift_cosh, h.lift_cos, h.lift_sinh]
  rfl

/-- The secant of a pair, over the squared magnitude of the cosine. -/
theorem sec_complex (z : Cartesian K) : @Cartesian.sec K lib.scalar z =
    @ratio K lib.scalar .sec z (cos z.re * cosh z.im) (sin z.re * sinh z.im)
      (cos z.re * cosh z.im * (cos z.re * cosh z.im) +
        sin z.re * sinh z.im * (sin z.re * sinh z.im)) := by
  unfold Cartesian.sec
  rw [h.lift_sin, h.lift_cosh, h.lift_cos, h.lift_sinh]
  rfl

/-- The cosecant of a pair, over the squared magnitude of the sine. -/
theorem csc_complex (z : Cartesian K) : @Cartesian.csc K lib.scalar z =
    @ratio K lib.scalar .csc z (sin z.re * cosh z.im) (-cos z.re * sinh z.im)
      (sin z.re * cosh z.im * (sin z.re * cosh z.im) +
        cos z.re * sinh z.im * (cos z.re * sinh z.im)) := by
  unfold Cartesian.csc
  rw [h.lift_sin, h.lift_cosh, h.lift_cos, h.lift_sinh]
  rfl

/-- The hyperbolic tangent of a pair, by the doubles of its parts. -/
theorem tanh_complex (z : Cartesian K) : @Cartesian.tanh K lib.scalar z =
    @ratio K lib.scalar .tanh z (sinh (2 * z.re)) (sin (2 * z.im))
      (cosh (2 * z.re) + cos (2 * z.im)) := by
  unfold Cartesian.tanh
  dsimp only
  rw [two_eq, h.lift_sin, h.lift_cosh, h.lift_cos, h.lift_sinh]
  rfl

/-- The hyperbolic cotangent of a pair, by the doubles of its parts. -/
theorem coth_complex (z : Cartesian K) : @Cartesian.coth K lib.scalar z =
    @ratio K lib.scalar .coth z (sinh (2 * z.re)) (-sin (2 * z.im))
      (cosh (2 * z.re) - cos (2 * z.im)) := by
  unfold Cartesian.coth
  dsimp only
  rw [two_eq, h.lift_sin, h.lift_cosh, h.lift_cos, h.lift_sinh]
  rfl

/-- The hyperbolic secant of a pair, over the squared magnitude of the hyperbolic cosine. -/
theorem sech_complex (z : Cartesian K) : @Cartesian.sech K lib.scalar z =
    @ratio K lib.scalar .sech z (cosh z.re * cos z.im) (-sinh z.re * sin z.im)
      (cosh z.re * cos z.im * (cosh z.re * cos z.im) +
        sinh z.re * sin z.im * (sinh z.re * sin z.im)) := by
  unfold Cartesian.sech
  rw [h.lift_sin, h.lift_cosh, h.lift_cos, h.lift_sinh]
  rfl

/-- The hyperbolic cosecant of a pair, over the squared magnitude of the hyperbolic sine. -/
theorem csch_complex (z : Cartesian K) : @Cartesian.csch K lib.scalar z =
    @ratio K lib.scalar .csch z (sinh z.re * cos z.im) (-cosh z.re * sin z.im)
      (sinh z.re * cos z.im * (sinh z.re * cos z.im) +
        cosh z.re * sin z.im * (cosh z.re * sin z.im)) := by
  unfold Cartesian.csch
  rw [h.lift_sin, h.lift_cosh, h.lift_cos, h.lift_sinh]
  rfl

end IsTrigonometric

end Field

/-! ## Quotients in an ordered field -/

variable {K : Type} [Field K] [LinearOrder K] [IsStrictOrderedRing K] {lib : FieldLibrary K}

/-- A product divided by one of its factors is the other one, unless that factor is zero. -/
theorem div_mul (a b : Cartesian K) :
    @Cartesian.div K lib.scalar (@Cartesian.mul K lib.scalar a b) b =
      if @Cartesian.isOrigin K lib.scalar b then
        .error (.complexDivision (@Cartesian.mul K lib.scalar a b) b)
      else .ok a := by
  rw [div_eq]
  by_cases h : b.re * b.re + b.im * b.im = 0
  · rw [if_pos h, if_pos (isOrigin_iff.2 (mul_self_add_mul_self_eq_zero.1 h))]
  · rw [if_neg h, if_neg fun hb => h (mul_self_add_mul_self_eq_zero.2 (isOrigin_iff.1 hb))]
    congr 2
    · rw [div_eq_iff h]
      show (a.re * b.re - a.im * b.im) * b.re + (a.re * b.im + a.im * b.re) * b.im = _
      ring
    · rw [div_eq_iff h]
      show (a.re * b.im + a.im * b.re) * b.re - (a.re * b.re - a.im * b.im) * b.im = _
      ring

/-- A function is a quotient if it divides by the squared magnitude of the divisor, times a factor
that the numerators have as well. -/
theorem isQuotient_of_ratio {f : UnaryOp}
    {quotient dividend divisor : Cartesian K → Computed K (Cartesian K)}
    {n d : Cartesian K → Cartesian K} {re im norm : Cartesian K → K} (factor : K)
    (hfactor : factor ≠ 0)
    (hf : ∀ z, @Value.applyUnary K lib.scalar f (.complex z) =
      Value.reportedFunction f (.complex z) Value.complex (quotient z))
    (hratio : ∀ z, quotient z = @ratio K lib.scalar f z (re z) (im z) (norm z))
    (hn : ∀ z, dividend z = .ok (n z)) (hd : ∀ z, divisor z = .ok (d z))
    (hre : ∀ z, re z = factor * ((n z).re * (d z).re + (n z).im * (d z).im))
    (him : ∀ z, im z = factor * ((n z).im * (d z).re - (n z).re * (d z).im))
    (hnorm : ∀ z, norm z = factor * ((d z).re * (d z).re + (d z).im * (d z).im)) :
    @IsQuotient K lib.scalar f dividend divisor := by
  let := lib.scalar
  have hpole : ∀ z, norm z = 0 ↔ divisor z = .ok Cartesian.zero := by
    intro z
    rw [hnorm, mul_eq_zero, or_iff_right hfactor, mul_self_add_mul_self_eq_zero, hd,
      Except.ok.injEq, eq_zero_iff]
  have hvalue : ∀ z, norm z ≠ 0 → Value.applyUnary f (.complex z) =
      .ok (.complex ⟨re z / norm z, im z / norm z⟩) := by
    intro z h
    rw [hf, hratio, ratio_eq, if_neg h]
    rfl
  have hundefined : ∀ z, norm z = 0 → Value.applyUnary f (.complex z) =
      .error (.numeric (.complexDomain f z)) := by
    intro z h
    rw [hf, hratio, ratio_eq, if_pos h]
    rfl
  refine { mul_eq := ?_, undefined_iff := ?_, exists_value := ?_ }
  · intro z q w hq hw
    have h : norm z ≠ 0 := by
      intro h
      rw [hundefined z h] at hq
      cases hq
    rw [hvalue z h] at hq
    rw [hd] at hw
    cases hq
    cases hw
    rw [hn, mul_quotient h (hre z) (him z) (hnorm z)]
  · intro z
    rw [← hpole]
    constructor
    · rintro ⟨e, he, -⟩
      by_contra h
      rw [hvalue z h] at he
      cases he
    · intro h
      exact ⟨_, hundefined z h, rfl⟩
  · intro z h
    exact ⟨_, hvalue z fun hzero => h ((hpole z).1 hzero)⟩

/-- A function is a reciprocal if it is the conjugate of the divisor over its squared magnitude. -/
theorem isReciprocal_of_ratio {f : UnaryOp}
    {reciprocal divisor : Cartesian K → Computed K (Cartesian K)} {d : Cartesian K → Cartesian K}
    {re im norm : Cartesian K → K}
    (hf : ∀ z, @Value.applyUnary K lib.scalar f (.complex z) =
      Value.reportedFunction f (.complex z) Value.complex (reciprocal z))
    (hratio : ∀ z, reciprocal z = @ratio K lib.scalar f z (re z) (im z) (norm z))
    (hd : ∀ z, divisor z = .ok (d z)) (hre : ∀ z, re z = (d z).re) (him : ∀ z, im z = -(d z).im)
    (hnorm : ∀ z, norm z = (d z).re * (d z).re + (d z).im * (d z).im) :
    @IsQuotient K lib.scalar f (fun _ => .ok (@Cartesian.one K lib.scalar)) divisor := by
  have hone : @Cartesian.one K lib.scalar = ⟨1, 0⟩ := congrArg₂ Cartesian.mk (one_eq lib) (zero_eq lib)
  refine isQuotient_of_ratio 1 one_ne_zero hf hratio (fun _ => rfl) hd (fun z => ?_) (fun z => ?_)
    fun z => ?_
  · rw [hre, hone]
    ring
  · rw [him, hone]
    ring
  · rw [hnorm, one_mul]

namespace IsTrigonometric

variable {sin cos sinh cosh : K → K} (h : lib.IsTrigonometric sin cos sinh cosh)
include h

/-! ### By the double angles -/

/-- The tangent is the sine over the cosine. -/
theorem isQuotient_tan : @IsQuotient K lib.scalar .tan (@Cartesian.sin K lib.scalar)
    (@Cartesian.cos K lib.scalar) := by
  refine isQuotient_of_ratio 2 two_ne_zero (fun _ => rfl) h.tan_complex h.sin_complex h.cos_complex
    (fun z => ?_) (fun z => ?_) fun z => ?_
  · rw [h.sin_two_mul]
    linear_combination (-2 * sin z.re * cos z.re) * h.cosh_sq_sub_sinh_sq z.im
  · rw [h.sinh_two_mul]
    linear_combination (-2 * sinh z.im * cosh z.im) * h.cos_sq_add_sin_sq z.re
  · rw [h.cos_two_mul, h.cosh_two_mul]
    linear_combination (-1 - 2 * sinh z.im ^ 2) * h.cos_sq_add_sin_sq z.re +
      (1 - 2 * cos z.re ^ 2) * h.cosh_sq_sub_sinh_sq z.im

/-- The cotangent is the cosine over the sine. -/
theorem isQuotient_cot : @IsQuotient K lib.scalar .cot (@Cartesian.cos K lib.scalar)
    (@Cartesian.sin K lib.scalar) := by
  refine isQuotient_of_ratio 2 two_ne_zero (fun _ => rfl) h.cot_complex h.cos_complex h.sin_complex
    (fun z => ?_) (fun z => ?_) fun z => ?_
  · rw [h.sin_two_mul]
    linear_combination (-2 * sin z.re * cos z.re) * h.cosh_sq_sub_sinh_sq z.im
  · rw [h.sinh_two_mul]
    linear_combination (2 * sinh z.im * cosh z.im) * h.cos_sq_add_sin_sq z.re
  · rw [h.cos_two_mul, h.cosh_two_mul]
    linear_combination (-1 - 2 * sinh z.im ^ 2) * h.cos_sq_add_sin_sq z.re +
      (1 - 2 * sin z.re ^ 2) * h.cosh_sq_sub_sinh_sq z.im

/-- The hyperbolic tangent is the hyperbolic sine over the hyperbolic cosine. -/
theorem isQuotient_tanh : @IsQuotient K lib.scalar .tanh (@Cartesian.sinh K lib.scalar)
    (@Cartesian.cosh K lib.scalar) := by
  refine isQuotient_of_ratio 2 two_ne_zero (fun _ => rfl) h.tanh_complex h.sinh_complex
    h.cosh_complex (fun z => ?_) (fun z => ?_) fun z => ?_
  · rw [h.sinh_two_mul]
    linear_combination (-2 * sinh z.re * cosh z.re) * h.cos_sq_add_sin_sq z.im
  · rw [h.sin_two_mul]
    linear_combination (-2 * sin z.im * cos z.im) * h.cosh_sq_sub_sinh_sq z.re
  · rw [h.cos_two_mul, h.cosh_two_mul]
    linear_combination (-1 - 2 * sinh z.re ^ 2) * h.cos_sq_add_sin_sq z.im +
      (1 - 2 * cos z.im ^ 2) * h.cosh_sq_sub_sinh_sq z.re

/-- The hyperbolic cotangent is the hyperbolic cosine over the hyperbolic sine. -/
theorem isQuotient_coth : @IsQuotient K lib.scalar .coth (@Cartesian.cosh K lib.scalar)
    (@Cartesian.sinh K lib.scalar) := by
  refine isQuotient_of_ratio 2 two_ne_zero (fun _ => rfl) h.coth_complex h.cosh_complex
    h.sinh_complex (fun z => ?_) (fun z => ?_) fun z => ?_
  · rw [h.sinh_two_mul]
    linear_combination (-2 * sinh z.re * cosh z.re) * h.cos_sq_add_sin_sq z.im
  · rw [h.sin_two_mul]
    linear_combination (2 * sin z.im * cos z.im) * h.cosh_sq_sub_sinh_sq z.re
  · rw [h.cos_two_mul, h.cosh_two_mul]
    linear_combination (-1 - 2 * sinh z.re ^ 2) * h.cos_sq_add_sin_sq z.im +
      (1 - 2 * sin z.im ^ 2) * h.cosh_sq_sub_sinh_sq z.re

/-! ### By the squared magnitude -/

/-- The secant is one over the cosine. -/
theorem isQuotient_sec : @IsQuotient K lib.scalar .sec (fun _ => .ok (@Cartesian.one K lib.scalar))
    (@Cartesian.cos K lib.scalar) := by
  refine isReciprocal_of_ratio (fun _ => rfl) h.sec_complex h.cos_complex (fun _ => rfl)
    (fun z => ?_) fun z => ?_
  · ring
  · ring

/-- The cosecant is one over the sine. -/
theorem isQuotient_csc : @IsQuotient K lib.scalar .csc (fun _ => .ok (@Cartesian.one K lib.scalar))
    (@Cartesian.sin K lib.scalar) := by
  refine isReciprocal_of_ratio (fun _ => rfl) h.csc_complex h.sin_complex (fun _ => rfl)
    (fun z => ?_) fun _ => rfl
  ring

/-- The hyperbolic secant is one over the hyperbolic cosine. -/
theorem isQuotient_sech : @IsQuotient K lib.scalar .sech
    (fun _ => .ok (@Cartesian.one K lib.scalar)) (@Cartesian.cosh K lib.scalar) := by
  refine isReciprocal_of_ratio (fun _ => rfl) h.sech_complex h.cosh_complex (fun _ => rfl)
    (fun z => ?_) fun _ => rfl
  ring

/-- The hyperbolic cosecant is one over the hyperbolic sine. -/
theorem isQuotient_csch : @IsQuotient K lib.scalar .csch
    (fun _ => .ok (@Cartesian.one K lib.scalar)) (@Cartesian.sinh K lib.scalar) := by
  refine isReciprocal_of_ratio (fun _ => rfl) h.csch_complex h.sinh_complex (fun _ => rfl)
    (fun z => ?_) fun _ => rfl
  ring

end IsTrigonometric

/-! ## All quotients -/

/-- The complex quotients are consistent. A product divided by one of its factors is the other one,
and each of the eight functions that are quotients is the one that defines it. -/
theorem complex_quotients {sin cos sinh cosh : K → K}
    (h : lib.IsTrigonometric sin cos sinh cosh) :
    let := lib.scalar
    (∀ a b : Cartesian K, (a.mul b).div b =
      if b.isOrigin then .error (.complexDivision (a.mul b) b) else .ok a) ∧
    @IsQuotient K _ .tan Cartesian.sin Cartesian.cos ∧
    @IsQuotient K _ .cot Cartesian.cos Cartesian.sin ∧
    @IsQuotient K _ .sec (fun _ => .ok Cartesian.one) Cartesian.cos ∧
    @IsQuotient K _ .csc (fun _ => .ok Cartesian.one) Cartesian.sin ∧
    @IsQuotient K _ .tanh Cartesian.sinh Cartesian.cosh ∧
    @IsQuotient K _ .coth Cartesian.cosh Cartesian.sinh ∧
    @IsQuotient K _ .sech (fun _ => .ok Cartesian.one) Cartesian.cosh ∧
    @IsQuotient K _ .csch (fun _ => .ok Cartesian.one) Cartesian.sinh :=
  ⟨div_mul, h.isQuotient_tan, h.isQuotient_cot, h.isQuotient_sec, h.isQuotient_csc,
    h.isQuotient_tanh, h.isQuotient_coth, h.isQuotient_sech, h.isQuotient_csch⟩

/-- The real numbers obey these laws, and the right angle has no tangent. -/
theorem complex_quotients_right_angle :
    let := reals.scalar
    reals.IsTrigonometric Real.sin Real.cos Real.sinh Real.cosh ∧
      ∃ e, Value.applyUnary .tan (.complex (⟨Real.pi / 2, 0⟩ : Cartesian ℝ)) = .error e ∧
        e.kind = .undefined := by
  let := reals.scalar
  have h := reals_isTrigonometric
  obtain ⟨-, htan, -⟩ := complex_quotients h
  refine ⟨h, htan.undefined_iff.2 ?_⟩
  rw [h.cos_complex]
  refine congrArg Except.ok (eq_zero_iff.2 ⟨?_, ?_⟩)
  · show Real.cos (Real.pi / 2) * Real.cosh 0 = 0
    rw [Real.cos_pi_div_two, zero_mul]
  · show -Real.sin (Real.pi / 2) * Real.sinh 0 = 0
    rw [Real.sinh_zero, mul_zero]

end FieldLibrary

end Formulary
