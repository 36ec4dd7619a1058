import Formulary.Proofs.Arithmetic.Field
import Mathlib.RingTheory.Derivation.Basic

/-!
# Derivations and the functions of a field

A derivation of a field goes with the functions of a library if they make constants of constants,
which are the numbers with derivative zero, and if tangents and powers with constant exponents have
their usual derivatives (`FieldLibrary.Differential`). Then constants are closed under all
operations.
-/

namespace Formulary

variable {K : Type} [Field K] [DecidableEq K]

/-- The functions make constants of constants, and the derivation has the usual rules for tangents
and for powers with constant exponents. -/
structure FieldLibrary.Differential (lib : FieldLibrary K) (D : Derivation ℤ K K) : Prop where
  pi : D lib.pi = 0
  truncate {a : K} (ha : D a = 0) : D (lib.truncate a) = 0
  abs {a : K} (ha : D a = 0) : D (lib.abs a) = 0
  function {f : UnaryOp} {a b : K} (ha : D a = 0) (hb : lib.function f a = some b) : D b = 0
  powerOfConstants {a n p : K} (ha : D a = 0) (hn : D n = 0) (hp : lib.power a n = some p) : D p = 0
  tan {a t c : K} (ht : lib.function .tan a = some t) (hc : lib.function .cos a = some c)
    (hzero : c ≠ 0) : D t = (1 / c) ^ 2 * D a
  power {a n p q : K} (hn : D n = 0) (hp : lib.power a n = some p)
    (hq : lib.power a (n - 1) = some q) : D p = n * q * D a

variable {lib : FieldLibrary K} {D : Derivation ℤ K K} {a b : K}

/-! ## Constants -/

section Arithmetic

omit [DecidableEq K]

/-- A sum of constants is constant. -/
theorem constant_add (ha : D a = 0) (hb : D b = 0) : D (a + b) = 0 := by
  rw [map_add, ha, hb, add_zero]

/-- A difference of constants is constant. -/
theorem constant_sub (ha : D a = 0) (hb : D b = 0) : D (a - b) = 0 := by
  rw [map_sub, ha, hb, sub_zero]

/-- A product of constants is constant. -/
theorem constant_mul (ha : D a = 0) (hb : D b = 0) : D (a * b) = 0 := by
  rw [D.leibniz, ha, hb, smul_zero, smul_zero, add_zero]

/-- A negated constant is constant. -/
theorem constant_neg (ha : D a = 0) : D (-a) = 0 := by
  rw [map_neg, ha, neg_zero]

/-- A quotient of constants is constant. -/
theorem constant_div (ha : D a = 0) (hb : D b = 0) : D (a / b) = 0 := by
  rw [D.leibniz_div_const a b hb, ha, smul_zero]

end Arithmetic

namespace FieldLibrary.Differential

variable (hD : lib.Differential D)

include hD

omit [DecidableEq K] in
/-- A function of a constant is constant. -/
theorem yields_function (f : UnaryOp) (ha : D a = 0) :
    Yields (fun b => D b = 0) (defined (lib.function f a)) := fun _ h =>
  hD.function ha (defined_eq_ok h)

/-- Constants are closed under the elementary operations. -/
theorem closed : @Scalar.Closed K lib.scalar fun a => D a = 0 :=
  let := lib.scalar
  { ofNat := D.map_natCast
    half := constant_div D.map_one_eq_zero (D.map_natCast 2)
    pi := hD.pi
    infinity := D.map_zero
    add := constant_add
    sub := constant_sub
    mul := constant_mul
    neg := constant_neg
    truncate := hD.truncate
    abs := hD.abs
    quotient := by
      intro a b ha hb
      rw [quotient_eq]
      exact .ite (.error _) (.ok (constant_div ha hb))
    power := fun ha hb _ h => hD.powerOfConstants ha hb (defined_eq_ok h)
    elementary := by
      intro f hf a ha
      cases hf with
      | square => exact .ok (constant_mul ha ha)
      | _ => exact hD.yields_function _ ha }

end FieldLibrary.Differential

end Formulary
