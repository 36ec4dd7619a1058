import Formulary.Proofs.Calculus.Differential
import Mathlib.Algebra.Polynomial.Derivation
import Mathlib.RingTheory.Etale.Kaehler
import Mathlib.RingTheory.Localization.FractionRing

/-!
# Rational functions

The rational functions over a field of characteristic zero are a field with a derivation, that of
the polynomials. Powers with natural exponents are defined, and no functions besides. So
`RationalFunctions.library` is the smallest library that a derivation goes with.
-/

namespace Formulary

open Polynomial

/-- The quotients of polynomials in one variable. -/
def RationalFunctions (k : Type) [Field k] : Type := FractionRing k[X]

namespace RationalFunctions

variable (k : Type) [Field k]

noncomputable instance : Field (RationalFunctions k) :=
  inferInstanceAs (Field (FractionRing k[X]))

noncomputable instance : Algebra k[X] (RationalFunctions k) :=
  inferInstanceAs (Algebra k[X] (FractionRing k[X]))

instance : IsFractionRing k[X] (RationalFunctions k) :=
  inferInstanceAs (IsFractionRing k[X] (FractionRing k[X]))

noncomputable instance : Algebra k (RationalFunctions k) :=
  inferInstanceAs (Algebra k (FractionRing k[X]))

instance : IsScalarTower k k[X] (RationalFunctions k) :=
  inferInstanceAs (IsScalarTower k k[X] (FractionRing k[X]))

/-- The variable as a rational function. -/
noncomputable def indeterminate : RationalFunctions k := algebraMap k[X] (RationalFunctions k) X

/-- A scalar as a rational function. -/
noncomputable def constant (a : k) : RationalFunctions k := algebraMap k[X] (RationalFunctions k) (C a)

/-- The derivation of the polynomials, with values among the rational functions. -/
noncomputable def polynomialDerivation : Derivation k k[X] (RationalFunctions k) :=
  (Algebra.linearMap k[X] (RationalFunctions k)).compDer derivative'

/-- Derivations of polynomials go on to their quotients in one way. -/
theorem formallyEtale : Algebra.FormallyEtale k[X] (RationalFunctions k) :=
  .of_isLocalization (nonZeroDivisors k[X])

/-- The derivation of the rational functions that extends that of the polynomials. -/
noncomputable def fieldDerivation : Derivation k (RationalFunctions k) (RationalFunctions k) :=
  letI := formallyEtale k
  ((KaehlerDifferential.isBaseChange_of_formallyEtale k k[X] (RationalFunctions k)).lift
    (polynomialDerivation k).liftKaehlerDifferential).compDer
      (KaehlerDifferential.D k (RationalFunctions k))

/-- The derivative of a polynomial is the usual one. -/
theorem fieldDerivation_algebraMap (p : k[X]) :
    fieldDerivation k (algebraMap k[X] (RationalFunctions k) p) =
      algebraMap k[X] (RationalFunctions k) (derivative p) := by
  let := formallyEtale k
  have hlift := (KaehlerDifferential.isBaseChange_of_formallyEtale k k[X]
    (RationalFunctions k)).lift_eq (polynomialDerivation k).liftKaehlerDifferential
      (KaehlerDifferential.D k k[X] p)
  rwa [KaehlerDifferential.map_D, Derivation.liftKaehlerDifferential_comp_D] at hlift

/-- The derivation by the variable. -/
noncomputable def derivation : Derivation ℤ (RationalFunctions k) (RationalFunctions k) :=
  (fieldDerivation k).restrictScalars ℤ

/-- The derivative of the variable is one. -/
theorem derivation_indeterminate : derivation k (indeterminate k) = 1 := by
  have h : derivation k (indeterminate k) = fieldDerivation k (algebraMap k[X] _ X) := rfl
  rw [h, fieldDerivation_algebraMap, derivative_X, map_one]

/-- The derivative of a constant is zero. -/
theorem derivation_constant (a : k) : derivation k (constant k a) = 0 := by
  have h : derivation k (constant k a) = fieldDerivation k (algebraMap k[X] _ (C a)) := rfl
  rw [h, fieldDerivation_algebraMap, derivative_C, map_zero]

/-- The variable is not zero. -/
theorem indeterminate_ne_zero : indeterminate k ≠ 0 := by
  intro hzero
  have hone := derivation_indeterminate k
  rw [hzero, map_zero] at hone
  exact zero_ne_one hone

/-- The quotients of polynomials are of the characteristic of their coefficients. -/
theorem charZero [CharZero k] : CharZero (RationalFunctions k) :=
  charZero_of_injective_algebraMap (algebraMap k (RationalFunctions k)).injective

variable [CharZero k]

open Classical in
/-- A power with a natural exponent. -/
noncomputable def naturalPower (a b : RationalFunctions k) : Option (RationalFunctions k) :=
  if h : ∃ n : ℕ, b = n then some (a ^ h.choose) else none

variable {k}

/-- A power with a natural exponent is defined. -/
theorem naturalPower_natCast (a : RationalFunctions k) (n : ℕ) : naturalPower k a n = some (a ^ n) := by
  have := charZero k
  have hex : ∃ m : ℕ, (n : RationalFunctions k) = m := ⟨n, rfl⟩
  rw [naturalPower, dif_pos hex, ← Nat.cast_injective hex.choose_spec]

omit [CharZero k] in
/-- Only powers with a natural exponent are defined. -/
theorem exists_of_naturalPower {a b p : RationalFunctions k} (h : naturalPower k a b = some p) :
    ∃ n : ℕ, b = n ∧ p = a ^ n := by
  unfold naturalPower at h
  split at h
  · next hex =>
    cases h
    exact ⟨hex.choose, hex.choose_spec, rfl⟩
  · cases h

variable (k)

/-- Natural powers and no functions. -/
noncomputable def library : FieldLibrary (RationalFunctions k) where
  pi := 0
  euler := 0
  lt _ _ := false
  isOddInteger _ := false
  truncate := id
  floor _ := 0
  abs := id
  hypotenuse _ _ := 0
  angle _ _ := 0
  power := naturalPower k
  function _ _ := none
  power_natCast {a p n} h := by
    rw [naturalPower_natCast] at h
    cases h
    rfl

/-- The derivation is one for the functions of the library. -/
theorem differential_library : (library k).Differential (derivation k) where
  pi := map_zero _
  truncate := id
  abs := id
  function _ hb := by cases hb
  powerOfConstants ha _ hp := by
    obtain ⟨n, -, rfl⟩ := exists_of_naturalPower hp
    rw [Derivation.leibniz_pow, ha, smul_zero, smul_zero]
  tan ht _ _ := by cases ht
  power {a n p q} _ hp hq := by
    have := charZero k
    obtain ⟨i, rfl, rfl⟩ := exists_of_naturalPower hp
    obtain ⟨j, hj, rfl⟩ := exists_of_naturalPower hq
    obtain rfl : i = j + 1 := by
      have hcast : (i : RationalFunctions k) = ((j + 1 : ℕ) : RationalFunctions k) := by
        rw [Nat.cast_succ, ← hj, sub_add_cancel]
      exact Nat.cast_injective hcast
    rw [Derivation.leibniz_pow, Nat.add_sub_cancel, nsmul_eq_mul, smul_eq_mul, mul_assoc]

end RationalFunctions

end Formulary
