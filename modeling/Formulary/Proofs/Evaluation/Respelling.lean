import Formulary.Proofs.Arithmetic.Elementary
import Formulary.Proofs.Evaluation.Refinement
import Formulary.Proofs.Expr.Respelling
import Formulary.Proofs.Expr.Rules
import Formulary.Proofs.Number.Sign

/-!
# What respelled trees mean

A constant is written as a formula, and this formula has the value of the constant, but for the
signs of zeros: a complex number is written as a sum, and a sum with a positive zero is never a
negative one. So `(-4-0i)` has the imaginary part `0 - 0`, and `(-0+2i)` the real part `-0 + 0`. A
complex number is the value of its formula (`Cartesian.summed`) only if it `KeepsZeros`
(`Cartesian.summed_eq_iff`).

A tree refines to the one that its text is read as if all of its complex constants do
(`Expr.Follows.refines_respelled`).
-/

namespace Formulary

open Binary64

/-! ## Complex constants -/

namespace Cartesian

/-- The zeros of the number have the signs that adding or subtracting its parts leaves them with. -/
def KeepsZeros (z : Cartesian Float) : Prop :=
  if isNegative z.im = true then isZero z.im = false
  else isZero z.re = false ∨ isNegative z.re = false

instance (z : Cartesian Float) : Decidable z.KeepsZeros :=
  inferInstanceAs (Decidable (if isNegative z.im = true then isZero z.im = false
    else isZero z.re = false ∨ isNegative z.re = false))

/-- The value of the formula that a complex number is written as: its real part, and added to it or
subtracted from it an imaginary number without a sign. -/
def summed (z : Cartesian Float) : Cartesian Float :=
  if isNegative z.im = true then ⟨z.re - 0.0, 0.0 - unsigned z.im⟩
  else ⟨z.re + 0.0, 0.0 + unsigned z.im⟩

/-- A complex number is the value of its formula if and only if that keeps its zeros. -/
theorem summed_eq_iff {z : Cartesian Float} (him : isFinite z.im = true) :
    z.summed = z ↔ z.KeepsZeros := by
  unfold summed KeepsZeros
  cases hsign : isNegative z.im with
  | true =>
    rw [if_pos rfl, if_pos rfl, sub_zero]
    refine ⟨fun h => ?_, fun hzero => by rw [zero_sub_unsigned him hsign hzero]⟩
    by_contra hzero
    have hbits : magnitudeBits z.im = 0 := by simpa [isZero] using hzero
    have him' : 0.0 - unsigned z.im = z.im := congrArg Cartesian.im h
    rw [← him', unsigned, hbits] at hsign
    exact absurd hsign (by decide)
  | false =>
    rw [if_neg Bool.false_ne_true, if_neg Bool.false_ne_true, unsigned_of_not_isNegative hsign,
      zero_add hsign]
    refine ⟨fun h => ?_, fun hzero => by rw [add_zero hzero]⟩
    by_contra hzero
    obtain ⟨hzero, hsign'⟩ : isZero z.re = true ∧ isNegative z.re = true := by simpa using hzero
    have hbits : magnitudeBits z.re = 0 := by simpa [isZero] using hzero
    have hre : z.re + 0.0 = z.re := congrArg Cartesian.re h
    have hz := ofMagnitudeBits_magnitudeBits z.re
    rw [hsign', hbits] at hz
    rw [← hre, ← hz] at hsign'
    exact absurd hsign' (by decide)

end Cartesian

/-- The constants that have the values of the formulas that they are written as. -/
def recoverable : Rules Float where
  const v := (∀ x ∈ v.numbers, isFinite x = true) ∧ ∀ z, v = .complex z → z.KeepsZeros

/-! ## Trees -/

section Refinement

variable (lib : ElementaryLibrary) (ev : Evaluator Float)

/-- The formula of a real number has the number as its value. -/
theorem refines_signedNumber {x : Float} (hx : isFinite x = true) :
    letI := lib.scalar
    ev.Refines (signedNumber x) (.const (.real x)) := by
  let _ := lib.scalar
  unfold signedNumber
  split
  · next hsign =>
    refine .unary_const ?_
    show Except.ok (Value.real (-unsigned x)) = _
    rw [neg_unsigned hx hsign]
  · exact .refl _

/-- The formula of a complex number has the sum as its value. -/
theorem refines_summed {z : Cartesian Float} (hre : isFinite z.re = true) :
    letI := lib.scalar
    ev.Refines (Value.complex z).respelled (.const (.complex z.summed)) := by
  let _ := lib.scalar
  refine .trans (.binary _ (refines_signedNumber lib ev hre) (.refl _)) (.binary_const ?_)
  unfold Cartesian.summed
  split
  · rfl
  · rfl

/-- The formula of a recoverable constant has the constant as its value. -/
theorem refines_respelled_const {v : Value Float} (hv : recoverable.const v) :
    letI := lib.scalar
    ev.Refines v.respelled (.const v) := by
  let _ := lib.scalar
  cases v with
  | boolean b => exact .refl _
  | real x => exact refines_signedNumber lib ev (hv.1 x (by simp [Value.numbers]))
  | complex z =>
    have h := refines_summed lib ev (hv.1 z.re (by simp [Value.numbers]))
    rwa [(Cartesian.summed_eq_iff (hv.1 z.im (by simp [Value.numbers]))).2 (hv.2 z rfl)] at h

/-- A tree has the outcomes of the tree that its text is read as, up to the limit of depth. -/
theorem Expr.Follows.refines_respelled {t : Expr Float} (h : t.Follows recoverable) :
    letI := lib.scalar
    ev.Refines t.respelled t := by
  let _ := lib.scalar
  induction h with
  | const hv origin =>
    rw [Expr.respelled]
    exact (refines_respelled_const lib ev hv).trans (.const _ none origin)
  | var => exact .refl _
  | binary op _ _ ihl ihr =>
    rw [Expr.respelled]
    exact .binary op ihl ihr
  | unary f _ ih =>
    rw [Expr.respelled]
    exact .unary f ih
  | builtin _ _ _ _ ih =>
    rw [Expr.respelled, Expr.respelledAll_eq]
    exact .builtin _ (List.forall₂_map_left_iff.2 (List.forall₂_same.2 ih))
  | apply _ _ _ ih =>
    rw [Expr.respelled, Expr.respelledAll_eq]
    exact .apply _ (List.forall₂_map_left_iff.2 (List.forall₂_same.2 ih))

end Refinement

end Formulary
