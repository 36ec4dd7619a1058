import Formulary.Proofs.Arithmetic.Quotients
import Mathlib.Analysis.SpecialFunctions.Complex.Log
import Mathlib.Analysis.SpecialFunctions.Pow.Complex

/-!
# Inverse functions of complex numbers

The arithmetic of pairs of real numbers is that of the complex numbers (`ofComplex`): with real
numbers as scalars, the exponential function, the logarithm, the square root and the direct
functions are the usual ones, on their principal branches. An inverse function is a logarithm of
some `q`, or half of one, turned by `i` for a circular function. What the direct function makes of
it is rational in `q`:

* `sinh (log q)` is half of `q - 1 / q`, and `cosh (log q)` half of `q + 1 / q`, where `1 / q` is
  the conjugate expression with the other sign of the root (`sinh_log`, `cosh_log`);
* the hyperbolic tangent of half of `log (n / d)` is `(n - d) / (n + d)` (`sinh_half_log`).

So the direct function takes each value of the inverse function back to where it is from, whichever
square root is taken. The inverse functions have values everywhere but at their poles.
-/

namespace Formulary

/-- The direct function takes every value of the inverse function back to where it is from. The
inverse function has a value everywhere but at the poles. -/
structure Cartesian.Undoes {α : Type} [Scalar α] (direct inverse : UnaryOp)
    (poles : Set (Cartesian α)) : Prop where
  direct_eq {z : Cartesian α} {w : Value α} :
    Value.applyUnary inverse (.complex z) = .ok w → Value.applyUnary direct w = .ok (.complex z)
  exists_value_iff {z : Cartesian α} :
    (∃ w, Value.applyUnary inverse (.complex z) = .ok w) ↔ z ∉ poles

/-- A reported function has a value exactly where what it reports has one. -/
theorem reportedFunction_eq_ok {α β : Type} {f : UnaryOp} {argument v : Value α} {wrap : β → Value α}
    {r : Computed α β} :
    Value.reportedFunction f argument wrap r = .ok v ↔ ∃ b, r = .ok b ∧ v = wrap b := by
  cases r with
  | ok b => simp [Value.reportedFunction, eq_comm]
  | error e =>
    unfold Value.reportedFunction
    split <;> simp_all

namespace FieldLibrary

open Complex (I)

/-! ## Pairs of real numbers as complex numbers -/

/-- The half of the scalars is that of the field. -/
theorem half_eq {K : Type} [Field K] [DecidableEq K] (lib : FieldLibrary K) :
    @Scalar.half K lib.scalar = 1 / 2 := rfl

/-- A complex number by its parts. -/
def ofComplex (z : ℂ) : Cartesian ℝ := ⟨z.re, z.im⟩

/-- Every pair of real numbers is a complex number. -/
theorem exists_ofComplex (z : Cartesian ℝ) : ∃ w, ofComplex w = z := ⟨⟨z.re, z.im⟩, rfl⟩

/-- A complex number is determined by its parts. -/
theorem ofComplex_injective : Function.Injective ofComplex := by
  intro z w h
  exact Complex.ext (congrArg Cartesian.re h) (congrArg Cartesian.im h)

/-- A real number is the complex number that it is. -/
theorem ofReal_eq (a : ℝ) : @Cartesian.ofReal ℝ reals.scalar a = ofComplex a :=
  congrArg (Cartesian.mk a) (zero_eq reals)

/-- Zero is zero. -/
theorem zero_eq_ofComplex : @Cartesian.zero ℝ reals.scalar = ofComplex 0 :=
  congrArg₂ Cartesian.mk (zero_eq reals) (zero_eq reals)

/-- One is one. -/
@[simp]
theorem one_eq_ofComplex : @Cartesian.one ℝ reals.scalar = ofComplex 1 :=
  congrArg₂ Cartesian.mk (one_eq reals) (zero_eq reals)

/-- The imaginary unit is that of the complex numbers. -/
@[simp]
theorem i_eq_ofComplex : @Cartesian.i ℝ reals.scalar = ofComplex I :=
  congrArg₂ Cartesian.mk (zero_eq reals) (one_eq reals)

/-- Two is two. -/
@[simp]
theorem two_eq_ofComplex : @Cartesian.two ℝ reals.scalar = ofComplex 2 :=
  congrArg₂ Cartesian.mk two_eq (zero_eq reals)

/-- Twice the imaginary unit. -/
@[simp]
theorem twoI_eq_ofComplex : @Cartesian.twoI ℝ reals.scalar = ofComplex (2 * I) := by
  refine congrArg₂ Cartesian.mk ((zero_eq reals).trans ?_) (two_eq.trans ?_)
  · simp
  · simp

/-- Pairs are added as complex numbers are. -/
@[simp]
theorem add_ofComplex (z w : ℂ) :
    @Cartesian.add ℝ reals.scalar (ofComplex z) (ofComplex w) = ofComplex (z + w) := rfl

/-- Pairs are subtracted as complex numbers are. -/
@[simp]
theorem sub_ofComplex (z w : ℂ) :
    @Cartesian.sub ℝ reals.scalar (ofComplex z) (ofComplex w) = ofComplex (z - w) := rfl

/-- Pairs are multiplied as complex numbers are. -/
@[simp]
theorem mul_ofComplex (z w : ℂ) :
    @Cartesian.mul ℝ reals.scalar (ofComplex z) (ofComplex w) = ofComplex (z * w) := rfl

/-- Pairs are negated as complex numbers are. -/
theorem neg_ofComplex (z : ℂ) :
    @Cartesian.neg ℝ reals.scalar (ofComplex z) = ofComplex (-z) := rfl

/-- The origin is zero. -/
theorem isOrigin_ofComplex (z : ℂ) :
    @Cartesian.isOrigin ℝ reals.scalar (ofComplex z) = true ↔ z = 0 := by
  rw [isOrigin_iff, Complex.ext_iff]
  rfl

/-- Pairs are divided as complex numbers are, but not by zero. -/
@[simp]
theorem div_ofComplex {z w : ℂ} {r : Cartesian ℝ} :
    @Cartesian.div ℝ reals.scalar (ofComplex z) (ofComplex w) = .ok r ↔
      w ≠ 0 ∧ r = ofComplex (z / w) := by
  by_cases hw : w = 0
  · have hnorm : (ofComplex w).re * (ofComplex w).re + (ofComplex w).im * (ofComplex w).im = 0 := by
      simp [hw, ofComplex]
    rw [div_eq, if_pos hnorm]
    constructor
    · rintro ⟨⟩
    · rintro ⟨h, -⟩
      exact absurd hw h
  · have h := @div_mul ℝ _ _ _ reals (ofComplex (z / w)) (ofComplex w)
    rw [mul_ofComplex, div_mul_cancel₀ z hw, if_neg fun h => hw ((isOrigin_ofComplex w).1 h)] at h
    rw [h, Except.ok.injEq, eq_comm]
    exact ⟨fun h => ⟨hw, h⟩, And.right⟩

/-! ## The exponential function, the logarithm and the square root -/

/-- The exponential function is that of the complex numbers. -/
theorem exp_ofComplex (z : ℂ) :
    @Cartesian.exp ℝ reals.scalar (ofComplex z) = .ok (ofComplex (Complex.exp z)) := by
  have h : ofComplex (Complex.exp z) =
      ⟨Real.exp z.re * Real.cos z.im, Real.exp z.re * Real.sin z.im⟩ := by
    rw [ofComplex, Complex.exp_re, Complex.exp_im]
  rw [h]
  rfl

/-- The logarithm is the principal one. -/
theorem ln_ofComplex_of_ne {z : ℂ} (hz : z ≠ 0) :
    @Cartesian.ln ℝ reals.scalar (ofComplex z) = .ok (ofComplex (Complex.log z)) := by
  have hpos : 0 < ‖z‖ := norm_pos_iff.2 hz
  have hmagnitude : @Cartesian.magnitude ℝ reals.scalar (ofComplex z) = ‖z‖ := by
    rw [Complex.norm_eq_sqrt_sq_add_sq]
    rfl
  have hlog : (lift (@Scalar.log ℝ reals.scalar ‖z‖) : Computed ℝ ℝ) = .ok (Real.log ‖z‖) := by
    show lift (defined (if 0 < ‖z‖ then some (Real.log ‖z‖) else none)) = _
    rw [if_pos hpos]
    rfl
  have hparts : ofComplex (Complex.log z) = ⟨Real.log ‖z‖, Complex.arg z⟩ :=
    congrArg₂ Cartesian.mk (Complex.log_re z) (Complex.log_im z)
  unfold Cartesian.ln
  rw [if_neg fun h => hz ((isOrigin_ofComplex z).1 h), hmagnitude, hlog, hparts]
  rfl

/-- The logarithm has a value everywhere but at zero. -/
@[simp]
theorem ln_ofComplex {z : ℂ} {r : Cartesian ℝ} :
    @Cartesian.ln ℝ reals.scalar (ofComplex z) = .ok r ↔ z ≠ 0 ∧ r = ofComplex (Complex.log z) := by
  by_cases hz : z = 0
  · unfold Cartesian.ln
    rw [if_pos ((isOrigin_ofComplex z).2 hz)]
    constructor
    · rintro ⟨⟩
    · rintro ⟨h, -⟩
      exact absurd hz h
  · rw [ln_ofComplex_of_ne hz, Except.ok.injEq, eq_comm]
    exact ⟨fun h => ⟨hz, h⟩, And.right⟩

/-- The square root is the principal one. -/
@[simp]
theorem sqrt_ofComplex (z : ℂ) :
    @Cartesian.sqrt ℝ reals.scalar (ofComplex z) = .ok (ofComplex (z ^ (1 / 2 : ℂ))) := by
  have hhalf : @Cartesian.ofReal ℝ reals.scalar (@Scalar.half ℝ reals.scalar) =
      ofComplex (1 / 2) := by
    rw [ofReal_eq, half_eq]
    push_cast
    rfl
  unfold Cartesian.sqrt
  by_cases hz : z = 0
  · rw [if_pos ((isOrigin_ofComplex z).2 hz), zero_eq_ofComplex, hz, Complex.zero_cpow (by norm_num)]
  · let := reals.scalar
    rw [if_neg fun h => hz ((isOrigin_ofComplex z).1 h), Cartesian.pow,
      if_neg fun h => hz ((isOrigin_ofComplex z).1 h), ln_ofComplex_of_ne hz, hhalf]
    show @Cartesian.exp ℝ reals.scalar (@Cartesian.mul ℝ reals.scalar _ _) = _
    rw [mul_ofComplex, exp_ofComplex, Complex.cpow_def_of_ne_zero hz, mul_comm]

/-- The principal square root is a square root. -/
theorem sqrt_mul_self (z : ℂ) : z ^ (1 / 2 : ℂ) * z ^ (1 / 2 : ℂ) = z := by
  rw [← pow_two, one_div]
  exact Complex.cpow_nat_inv_pow z two_ne_zero

/-! ## Direct functions -/

/-- The sine, by the angle sum of its parts, is that of the complex numbers. -/
theorem sin_ofComplex (z : ℂ) :
    @Cartesian.sin ℝ reals.scalar (ofComplex z) = .ok (ofComplex (Complex.sin z)) := by
  have h : Complex.sin z = ⟨Real.sin z.re * Real.cosh z.im, Real.cos z.re * Real.sinh z.im⟩ := by
    rw [Complex.mk_eq_add_mul_I]
    push_cast
    exact Complex.sin_eq z
  rw [reals_isTrigonometric.sin_complex, h]
  rfl

/-- The cosine is that of the complex numbers. -/
theorem cos_ofComplex (z : ℂ) :
    @Cartesian.cos ℝ reals.scalar (ofComplex z) = .ok (ofComplex (Complex.cos z)) := by
  have h : Complex.cos z = ⟨Real.cos z.re * Real.cosh z.im, -Real.sin z.re * Real.sinh z.im⟩ := by
    rw [Complex.mk_eq_add_mul_I, Complex.cos_eq]
    push_cast
    ring
  rw [reals_isTrigonometric.cos_complex, h]
  rfl

/-- The hyperbolic sine is that of the complex numbers. -/
theorem sinh_ofComplex (z : ℂ) :
    @Cartesian.sinh ℝ reals.scalar (ofComplex z) = .ok (ofComplex (Complex.sinh z)) := by
  have h : Complex.sinh z = ⟨Real.sinh z.re * Real.cos z.im, Real.cosh z.re * Real.sin z.im⟩ := by
    rw [Complex.mk_eq_add_mul_I]
    push_cast
    conv_lhs => rw [← Complex.re_add_im z, Complex.sinh_add, Complex.sinh_mul_I, Complex.cosh_mul_I]
    ring
  rw [reals_isTrigonometric.sinh_complex, h]
  rfl

/-- The hyperbolic cosine is that of the complex numbers. -/
theorem cosh_ofComplex (z : ℂ) :
    @Cartesian.cosh ℝ reals.scalar (ofComplex z) = .ok (ofComplex (Complex.cosh z)) := by
  have h : Complex.cosh z = ⟨Real.cosh z.re * Real.cos z.im, Real.sinh z.re * Real.sin z.im⟩ := by
    rw [Complex.mk_eq_add_mul_I]
    push_cast
    conv_lhs => rw [← Complex.re_add_im z, Complex.cosh_add, Complex.sinh_mul_I, Complex.cosh_mul_I]
    ring
  rw [reals_isTrigonometric.cosh_complex, h]
  rfl

/-- A function of complex numbers has the value of its formula. -/
theorem applyUnary_of_eq_ok {f : UnaryOp} {formula : Cartesian ℝ → Computed ℝ (Cartesian ℝ)}
    {z w : Cartesian ℝ} (hf : ∀ z, @Value.applyUnary ℝ reals.scalar f (.complex z) =
      Value.reportedFunction f (.complex z) Value.complex (formula z))
    (h : formula z = .ok w) : @Value.applyUnary ℝ reals.scalar f (.complex z) = .ok (.complex w) := by
  rw [hf, h, Value.reportedFunction]

/-- A function that is a quotient has the value of the quotient. -/
theorem applyUnary_of_isQuotient {f : UnaryOp}
    {dividend divisor : Cartesian ℝ → Computed ℝ (Cartesian ℝ)} {z n d : ℂ}
    (h : @Cartesian.IsQuotient ℝ reals.scalar f dividend divisor)
    (hn : dividend (ofComplex z) = .ok (ofComplex n)) (hd : divisor (ofComplex z) = .ok (ofComplex d))
    (hne : d ≠ 0) : @Value.applyUnary ℝ reals.scalar f (.complex (ofComplex z)) =
      .ok (.complex (ofComplex (n / d))) := by
  let := reals.scalar
  have hpole : divisor (ofComplex z) ≠ .ok Cartesian.zero := by
    rw [hd, zero_eq_ofComplex, Ne, Except.ok.injEq, ofComplex_injective.eq_iff]
    exact hne
  obtain ⟨q, hq⟩ := h.exists_value hpole
  obtain ⟨q, rfl⟩ := exists_ofComplex q
  have hmul := h.mul_eq hq hd
  rw [hn, mul_ofComplex, Except.ok.injEq, ofComplex_injective.eq_iff] at hmul
  rw [hq, hmul, mul_div_cancel_right₀ q hne]

/-- A function that is one over another one, where that has a reciprocal as its value. -/
theorem applyUnary_of_reciprocal {f : UnaryOp}
    {divisor : Cartesian ℝ → Computed ℝ (Cartesian ℝ)} {z w : ℂ}
    (h : @Cartesian.IsQuotient ℝ reals.scalar f (fun _ => .ok (@Cartesian.one ℝ reals.scalar)) divisor)
    (hd : divisor (ofComplex w) = .ok (ofComplex (1 / z))) (hz : z ≠ 0) :
    @Value.applyUnary ℝ reals.scalar f (.complex (ofComplex w)) = .ok (.complex (ofComplex z)) := by
  rw [applyUnary_of_isQuotient h (congrArg Except.ok one_eq_ofComplex) hd (one_div_ne_zero hz),
    one_div_one_div]

/-! ## Functions of logarithms -/

variable {q q' : ℂ}

/-- A sine is a hyperbolic sine, turned by `i`. -/
theorem sin_div_I (w : ℂ) : Complex.sin (w / I) = Complex.sinh w / I := by
  rw [eq_div_iff Complex.I_ne_zero, ← Complex.sinh_mul_I, div_mul_cancel₀ w Complex.I_ne_zero]

/-- A cosine is a hyperbolic cosine, turned by `i`. -/
theorem cos_div_I (w : ℂ) : Complex.cos (w / I) = Complex.cosh w := by
  rw [← Complex.cosh_mul_I, div_mul_cancel₀ w Complex.I_ne_zero]

/-- The exponential function takes a negated logarithm to the reciprocal. -/
theorem exp_neg_log (h : q * q' = 1) : Complex.exp (-Complex.log q) = q' := by
  rw [Complex.exp_neg, Complex.exp_log (left_ne_zero_of_mul_eq_one h), inv_eq_of_mul_eq_one_right h]

/-- The hyperbolic sine of a logarithm is rational. -/
theorem sinh_log (h : q * q' = 1) : Complex.sinh (Complex.log q) = (q - q') / 2 := by
  rw [Complex.sinh, exp_neg_log h, Complex.exp_log (left_ne_zero_of_mul_eq_one h)]

/-- The hyperbolic cosine of a logarithm is rational. -/
theorem cosh_log (h : q * q' = 1) : Complex.cosh (Complex.log q) = (q + q') / 2 := by
  rw [Complex.cosh, exp_neg_log h, Complex.exp_log (left_ne_zero_of_mul_eq_one h)]

/-- The hyperbolic tangent of half a logarithm, without a division. -/
theorem sinh_half_log {n d : ℂ} (hn : n ≠ 0) (hd : d ≠ 0) :
    (n + d) * Complex.sinh (Complex.log (n / d) / 2) =
      (n - d) * Complex.cosh (Complex.log (n / d) / 2) := by
  have hsquare : Complex.exp (Complex.log (n / d) / 2) * Complex.exp (Complex.log (n / d) / 2) * d =
      n := by
    rw [← Complex.exp_add, add_halves, Complex.exp_log (div_ne_zero hn hd), div_mul_cancel₀ n hd]
  have hinverse :
      Complex.exp (Complex.log (n / d) / 2) * Complex.exp (-(Complex.log (n / d) / 2)) = 1 := by
    rw [← Complex.exp_add, add_neg_cancel, Complex.exp_zero]
  rw [Complex.sinh, Complex.cosh]
  linear_combination Complex.exp (-(Complex.log (n / d) / 2)) * hsquare -
    Complex.exp (Complex.log (n / d) / 2) * d * hinverse

/-- The hyperbolic tangent of half a logarithm has no pole where its value has none. -/
theorem cosh_half_log_ne_zero {n d : ℂ} (hn : n ≠ 0) (hd : d ≠ 0) (hne : n + d ≠ 0) :
    Complex.cosh (Complex.log (n / d) / 2) ≠ 0 := by
  intro h
  have hsinh := sinh_half_log hn hd
  rw [h, mul_zero, mul_eq_zero, or_iff_right hne] at hsinh
  have hsquares := Complex.cosh_sq_sub_sinh_sq (Complex.log (n / d) / 2)
  rw [h, hsinh] at hsquares
  norm_num at hsquares

/-- The hyperbolic cotangent of half a logarithm has no pole where its value has none. -/
theorem sinh_half_log_ne_zero {n d : ℂ} (hn : n ≠ 0) (hd : d ≠ 0) (hne : n - d ≠ 0) :
    Complex.sinh (Complex.log (n / d) / 2) ≠ 0 := by
  intro h
  have hcosh := sinh_half_log hn hd
  rw [h, mul_zero, eq_comm, mul_eq_zero, or_iff_right hne] at hcosh
  have hsquares := Complex.cosh_sq_sub_sinh_sq (Complex.log (n / d) / 2)
  rw [h, hcosh] at hsquares
  norm_num at hsquares

/-! ## Values of the inverse functions -/

/-- Naming the pole changes errors only. -/
@[simp]
theorem atPole_eq_ok {f : UnaryOp} {z w : Cartesian ℝ} {r : Computed ℝ (Cartesian ℝ)} :
    Cartesian.atPole f z r = .ok w ↔ r = .ok w := by
  cases r with
  | ok w => rfl
  | error e =>
    rw [Cartesian.atPole]
    split
    · simp
    · rfl

/-- The value of the inverse sine, and where it has one. -/
theorem arcsin_ofComplex {z : ℂ} {r : Cartesian ℝ} :
    @Cartesian.arcsin ℝ reals.scalar (ofComplex z) = .ok r ↔
      I * z + (1 - z * z) ^ (1 / 2 : ℂ) ≠ 0 ∧
        r = ofComplex (Complex.log (I * z + (1 - z * z) ^ (1 / 2 : ℂ)) / I) := by
  simp [Cartesian.arcsin, bind_eq_ok, and_assoc]

/-- The value of the inverse cosine, and where it has one. -/
theorem arccos_ofComplex {z : ℂ} {r : Cartesian ℝ} :
    @Cartesian.arccos ℝ reals.scalar (ofComplex z) = .ok r ↔
      z + (z * z - 1) ^ (1 / 2 : ℂ) ≠ 0 ∧
        r = ofComplex (Complex.log (z + (z * z - 1) ^ (1 / 2 : ℂ)) / I) := by
  simp [Cartesian.arccos, bind_eq_ok, and_assoc]

/-- The value of the inverse tangent, and where it has one. -/
theorem arctan_ofComplex {z : ℂ} {r : Cartesian ℝ} :
    @Cartesian.arctan ℝ reals.scalar (ofComplex z) = .ok r ↔
      (I + z ≠ 0 ∧ (I - z) / (I + z) ≠ 0) ∧
        r = ofComplex (Complex.log ((I - z) / (I + z)) / (2 * I)) := by
  simp [Cartesian.arctan, bind_eq_ok, and_assoc]

/-- The value of the inverse cotangent, and where it has one. -/
theorem arccot_ofComplex {z : ℂ} {r : Cartesian ℝ} :
    @Cartesian.arccot ℝ reals.scalar (ofComplex z) = .ok r ↔
      (z - I ≠ 0 ∧ (z + I) / (z - I) ≠ 0) ∧
        r = ofComplex (Complex.log ((z + I) / (z - I)) / (2 * I)) := by
  simp [Cartesian.arccot, bind_eq_ok, and_assoc]

/-- The value of the inverse secant, and where it has one. -/
theorem arcsec_ofComplex {z : ℂ} {r : Cartesian ℝ} :
    @Cartesian.arcsec ℝ reals.scalar (ofComplex z) = .ok r ↔
      (z ≠ 0 ∧ (1 + (1 - z * z) ^ (1 / 2 : ℂ)) / z ≠ 0) ∧
        r = ofComplex (Complex.log ((1 + (1 - z * z) ^ (1 / 2 : ℂ)) / z) / I) := by
  simp [Cartesian.arcsec, bind_eq_ok, and_assoc]

/-- The value of the inverse cosecant, and where it has one. -/
theorem arccsc_ofComplex {z : ℂ} {r : Cartesian ℝ} :
    @Cartesian.arccsc ℝ reals.scalar (ofComplex z) = .ok r ↔
      (z ≠ 0 ∧ (I + (z * z - 1) ^ (1 / 2 : ℂ)) / z ≠ 0) ∧
        r = ofComplex (Complex.log ((I + (z * z - 1) ^ (1 / 2 : ℂ)) / z) / I) := by
  simp [Cartesian.arccsc, bind_eq_ok, and_assoc]

/-- The value of the inverse hyperbolic sine, and where it has one. -/
theorem arcsinh_ofComplex {z : ℂ} {r : Cartesian ℝ} :
    @Cartesian.arcsinh ℝ reals.scalar (ofComplex z) = .ok r ↔
      (z * z + 1) ^ (1 / 2 : ℂ) + z ≠ 0 ∧
        r = ofComplex (Complex.log ((z * z + 1) ^ (1 / 2 : ℂ) + z)) := by
  simp [Cartesian.arcsinh, bind_eq_ok]

/-- The value of the inverse hyperbolic cosine, and where it has one. -/
theorem arccosh_ofComplex {z : ℂ} {r : Cartesian ℝ} :
    @Cartesian.arccosh ℝ reals.scalar (ofComplex z) = .ok r ↔
      (z * z - 1) ^ (1 / 2 : ℂ) + z ≠ 0 ∧
        r = ofComplex (Complex.log ((z * z - 1) ^ (1 / 2 : ℂ) + z)) := by
  simp [Cartesian.arccosh, bind_eq_ok]

/-- The value of the inverse hyperbolic tangent, and where it has one. -/
theorem arctanh_ofComplex {z : ℂ} {r : Cartesian ℝ} :
    @Cartesian.arctanh ℝ reals.scalar (ofComplex z) = .ok r ↔
      (1 - z ≠ 0 ∧ (z + 1) / (1 - z) ≠ 0) ∧
        r = ofComplex (Complex.log ((z + 1) / (1 - z)) / 2) := by
  simp [Cartesian.arctanh, bind_eq_ok, and_assoc]

/-- The value of the inverse hyperbolic cotangent, and where it has one. -/
theorem arccoth_ofComplex {z : ℂ} {r : Cartesian ℝ} :
    @Cartesian.arccoth ℝ reals.scalar (ofComplex z) = .ok r ↔
      (z - 1 ≠ 0 ∧ (z + 1) / (z - 1) ≠ 0) ∧
        r = ofComplex (Complex.log ((z + 1) / (z - 1)) / 2) := by
  simp [Cartesian.arccoth, bind_eq_ok, and_assoc]

/-- The value of the inverse hyperbolic secant, and where it has one. -/
theorem arcsech_ofComplex {z : ℂ} {r : Cartesian ℝ} :
    @Cartesian.arcsech ℝ reals.scalar (ofComplex z) = .ok r ↔
      (z ≠ 0 ∧ ((1 - z * z) ^ (1 / 2 : ℂ) + 1) / z ≠ 0) ∧
        r = ofComplex (Complex.log (((1 - z * z) ^ (1 / 2 : ℂ) + 1) / z)) := by
  simp [Cartesian.arcsech, bind_eq_ok, and_assoc]

/-- The value of the inverse hyperbolic cosecant, and where it has one. -/
theorem arccsch_ofComplex {z : ℂ} {r : Cartesian ℝ} :
    @Cartesian.arccsch ℝ reals.scalar (ofComplex z) = .ok r ↔
      (z ≠ 0 ∧ ((z * z + 1) ^ (1 / 2 : ℂ) + 1) / z ≠ 0) ∧
        r = ofComplex (Complex.log (((z * z + 1) ^ (1 / 2 : ℂ) + 1) / z)) := by
  simp [Cartesian.arccsch, bind_eq_ok, and_assoc]

/-! ## Right inverses -/

/-- An inverse function undone, by the condition that it has a value under and by that value. -/
theorem undoes_of_value {direct inverse : UnaryOp}
    {formula : Cartesian ℝ → Computed ℝ (Cartesian ℝ)} {poles : Set ℂ} {condition : ℂ → Prop}
    {value : ℂ → ℂ}
    (hformula : ∀ z, @Value.applyUnary ℝ reals.scalar inverse (.complex z) =
      Value.reportedFunction inverse (.complex z) Value.complex (formula z))
    (hvalue : ∀ z r, formula (ofComplex z) = .ok r ↔ condition z ∧ r = ofComplex (value z))
    (hpoles : ∀ z, condition z ↔ z ∉ poles)
    (hdirect : ∀ z, z ∉ poles → @Value.applyUnary ℝ reals.scalar direct
      (.complex (ofComplex (value z))) = .ok (.complex (ofComplex z))) :
    @Cartesian.Undoes ℝ reals.scalar direct inverse (ofComplex '' poles) := by
  let := reals.scalar
  have happly : ∀ z w, Value.applyUnary inverse (.complex (ofComplex z)) = .ok w ↔
      z ∉ poles ∧ w = .complex (ofComplex (value z)) := by
    intro z w
    rw [hformula, reportedFunction_eq_ok]
    constructor
    · rintro ⟨r, hr, rfl⟩
      obtain ⟨hz, rfl⟩ := (hvalue z r).1 hr
      exact ⟨(hpoles z).1 hz, rfl⟩
    · rintro ⟨hz, rfl⟩
      exact ⟨_, (hvalue z _).2 ⟨(hpoles z).2 hz, rfl⟩, rfl⟩
  refine { direct_eq := ?_, exists_value_iff := ?_ }
  · intro z w h
    obtain ⟨z, rfl⟩ := exists_ofComplex z
    obtain ⟨hz, rfl⟩ := (happly z w).1 h
    exact hdirect z hz
  · intro z
    obtain ⟨z, rfl⟩ := exists_ofComplex z
    rw [ofComplex_injective.mem_set_image]
    constructor
    · rintro ⟨w, hw⟩
      exact ((happly z w).1 hw).1
    · intro hz
      exact ⟨_, (happly z _).2 ⟨hz, rfl⟩⟩

/-- A quotient is there and is not zero if neither of its numbers is zero. -/
theorem ne_zero_and_div_iff {n d : ℂ} : d ≠ 0 ∧ n / d ≠ 0 ↔ n ≠ 0 ∧ d ≠ 0 := by
  rw [div_ne_zero_iff, and_comm, and_assoc, and_self]

/-- An inverse function through a number with an inverse has a value everywhere. -/
theorem undoes_of_mul_eq_one {direct inverse : UnaryOp}
    {formula : Cartesian ℝ → Computed ℝ (Cartesian ℝ)} {q q' value : ℂ → ℂ}
    (hformula : ∀ z, @Value.applyUnary ℝ reals.scalar inverse (.complex z) =
      Value.reportedFunction inverse (.complex z) Value.complex (formula z))
    (hvalue : ∀ z r, formula (ofComplex z) = .ok r ↔ q z ≠ 0 ∧ r = ofComplex (value z))
    (hmul : ∀ z, q z * q' z = 1)
    (hdirect : ∀ z, @Value.applyUnary ℝ reals.scalar direct
      (.complex (ofComplex (value z))) = .ok (.complex (ofComplex z))) :
    @Cartesian.Undoes ℝ reals.scalar direct inverse ∅ := by
  rw [← Set.image_empty ofComplex]
  exact undoes_of_value hformula hvalue
    (fun z => iff_of_true (left_ne_zero_of_mul_eq_one (hmul z)) (Set.notMem_empty z))
    fun z _ => hdirect z

/-- An inverse function that inverts its argument on the way has a value everywhere but at zero. It
is undone by the reciprocal of a function that makes the inverted argument. -/
theorem undoes_of_reciprocal {direct inverse : UnaryOp}
    {formula divisor : Cartesian ℝ → Computed ℝ (Cartesian ℝ)} {q q' value : ℂ → ℂ}
    (hformula : ∀ z, @Value.applyUnary ℝ reals.scalar inverse (.complex z) =
      Value.reportedFunction inverse (.complex z) Value.complex (formula z))
    (hvalue : ∀ z r, formula (ofComplex z) = .ok r ↔
      (z ≠ 0 ∧ q z ≠ 0) ∧ r = ofComplex (value z))
    (hmul : ∀ z, z ≠ 0 → q z * q' z = 1)
    (hquotient : @Cartesian.IsQuotient ℝ reals.scalar direct
      (fun _ => .ok (@Cartesian.one ℝ reals.scalar)) divisor)
    (hdivisor : ∀ z, z ≠ 0 → divisor (ofComplex (value z)) = .ok (ofComplex (1 / z))) :
    @Cartesian.Undoes ℝ reals.scalar direct inverse {@Cartesian.zero ℝ reals.scalar} := by
  rw [zero_eq_ofComplex, ← Set.image_singleton]
  refine undoes_of_value hformula hvalue (fun z => ?_) fun z hz => ?_
  · exact ⟨And.left, fun hz => ⟨hz, left_ne_zero_of_mul_eq_one (hmul z hz)⟩⟩
  · exact applyUnary_of_reciprocal hquotient (hdivisor z hz) hz

/-! ### Through a sum with a root -/

/-- The sine undoes its inverse, which has no poles. -/
theorem undoes_arcsin : @Cartesian.Undoes ℝ reals.scalar .sin .arcsin ∅ := by
  have hmul (z : ℂ) :
      (I * z + (1 - z * z) ^ (1 / 2 : ℂ)) * ((1 - z * z) ^ (1 / 2 : ℂ) - I * z) = 1 := by
    linear_combination sqrt_mul_self (1 - z * z) - z * z * Complex.I_mul_I
  refine undoes_of_mul_eq_one (fun _ => rfl) (fun _ _ => arcsin_ofComplex) hmul fun z => ?_
  rw [applyUnary_of_eq_ok (fun _ => rfl) (sin_ofComplex _), sin_div_I, sinh_log (hmul z)]
  congr 3
  field_simp
  ring

/-- The cosine undoes its inverse, which has no poles. -/
theorem undoes_arccos : @Cartesian.Undoes ℝ reals.scalar .cos .arccos ∅ := by
  have hmul (z : ℂ) : (z + (z * z - 1) ^ (1 / 2 : ℂ)) * (z - (z * z - 1) ^ (1 / 2 : ℂ)) = 1 := by
    linear_combination -sqrt_mul_self (z * z - 1)
  refine undoes_of_mul_eq_one (fun _ => rfl) (fun _ _ => arccos_ofComplex) hmul fun z => ?_
  rw [applyUnary_of_eq_ok (fun _ => rfl) (cos_ofComplex _), cos_div_I, cosh_log (hmul z)]
  congr 3
  ring

/-- The hyperbolic sine undoes its inverse, which has no poles. -/
theorem undoes_arcsinh : @Cartesian.Undoes ℝ reals.scalar .sinh .arcsinh ∅ := by
  have hmul (z : ℂ) : ((z * z + 1) ^ (1 / 2 : ℂ) + z) * ((z * z + 1) ^ (1 / 2 : ℂ) - z) = 1 := by
    linear_combination sqrt_mul_self (z * z + 1)
  refine undoes_of_mul_eq_one (fun _ => rfl) (fun _ _ => arcsinh_ofComplex) hmul fun z => ?_
  rw [applyUnary_of_eq_ok (fun _ => rfl) (sinh_ofComplex _), sinh_log (hmul z)]
  congr 3
  ring

/-- The hyperbolic cosine undoes its inverse, which has no poles. -/
theorem undoes_arccosh : @Cartesian.Undoes ℝ reals.scalar .cosh .arccosh ∅ := by
  have hmul (z : ℂ) : ((z * z - 1) ^ (1 / 2 : ℂ) + z) * (z - (z * z - 1) ^ (1 / 2 : ℂ)) = 1 := by
    linear_combination -sqrt_mul_self (z * z - 1)
  refine undoes_of_mul_eq_one (fun _ => rfl) (fun _ _ => arccosh_ofComplex) hmul fun z => ?_
  rw [applyUnary_of_eq_ok (fun _ => rfl) (cosh_ofComplex _), cosh_log (hmul z)]
  congr 3
  ring

/-! ### Through a quotient with a root -/

/-- The secant undoes its inverse, which has a pole at zero. -/
theorem undoes_arcsec :
    @Cartesian.Undoes ℝ reals.scalar .sec .arcsec {@Cartesian.zero ℝ reals.scalar} := by
  have hmul (z : ℂ) (hz : z ≠ 0) :
      (1 + (1 - z * z) ^ (1 / 2 : ℂ)) / z * ((1 - (1 - z * z) ^ (1 / 2 : ℂ)) / z) = 1 := by
    rw [div_mul_div_comm, div_eq_one_iff_eq (mul_ne_zero hz hz)]
    linear_combination -sqrt_mul_self (1 - z * z)
  refine undoes_of_reciprocal (fun _ => rfl) (fun _ _ => arcsec_ofComplex) hmul
    reals_isTrigonometric.isQuotient_sec fun z hz => ?_
  have hcos : Complex.cos (Complex.log ((1 + (1 - z * z) ^ (1 / 2 : ℂ)) / z) / I) = 1 / z := by
    rw [cos_div_I, cosh_log (hmul z hz)]
    ring
  exact hcos ▸ cos_ofComplex _

/-- The cosecant undoes its inverse, which has a pole at zero. -/
theorem undoes_arccsc :
    @Cartesian.Undoes ℝ reals.scalar .csc .arccsc {@Cartesian.zero ℝ reals.scalar} := by
  have hmul (z : ℂ) (hz : z ≠ 0) :
      (I + (z * z - 1) ^ (1 / 2 : ℂ)) / z * (((z * z - 1) ^ (1 / 2 : ℂ) - I) / z) = 1 := by
    rw [div_mul_div_comm, div_eq_one_iff_eq (mul_ne_zero hz hz)]
    linear_combination sqrt_mul_self (z * z - 1) - Complex.I_mul_I
  refine undoes_of_reciprocal (fun _ => rfl) (fun _ _ => arccsc_ofComplex) hmul
    reals_isTrigonometric.isQuotient_csc fun z hz => ?_
  have hsin : Complex.sin (Complex.log ((I + (z * z - 1) ^ (1 / 2 : ℂ)) / z) / I) = 1 / z := by
    rw [sin_div_I, sinh_log (hmul z hz)]
    field_simp
    ring
  exact hsin ▸ sin_ofComplex _

/-- The hyperbolic secant undoes its inverse, which has a pole at zero. -/
theorem undoes_arcsech :
    @Cartesian.Undoes ℝ reals.scalar .sech .arcsech {@Cartesian.zero ℝ reals.scalar} := by
  have hmul (z : ℂ) (hz : z ≠ 0) :
      ((1 - z * z) ^ (1 / 2 : ℂ) + 1) / z * ((1 - (1 - z * z) ^ (1 / 2 : ℂ)) / z) = 1 := by
    rw [div_mul_div_comm, div_eq_one_iff_eq (mul_ne_zero hz hz)]
    linear_combination -sqrt_mul_self (1 - z * z)
  refine undoes_of_reciprocal (fun _ => rfl) (fun _ _ => arcsech_ofComplex) hmul
    reals_isTrigonometric.isQuotient_sech fun z hz => ?_
  have hcosh : Complex.cosh (Complex.log (((1 - z * z) ^ (1 / 2 : ℂ) + 1) / z)) = 1 / z := by
    rw [cosh_log (hmul z hz)]
    ring
  exact hcosh ▸ cosh_ofComplex _

/-- The hyperbolic cosecant undoes its inverse, which has a pole at zero. -/
theorem undoes_arccsch :
    @Cartesian.Undoes ℝ reals.scalar .csch .arccsch {@Cartesian.zero ℝ reals.scalar} := by
  have hmul (z : ℂ) (hz : z ≠ 0) :
      ((z * z + 1) ^ (1 / 2 : ℂ) + 1) / z * (((z * z + 1) ^ (1 / 2 : ℂ) - 1) / z) = 1 := by
    rw [div_mul_div_comm, div_eq_one_iff_eq (mul_ne_zero hz hz)]
    linear_combination sqrt_mul_self (z * z + 1)
  refine undoes_of_reciprocal (fun _ => rfl) (fun _ _ => arccsch_ofComplex) hmul
    reals_isTrigonometric.isQuotient_csch fun z hz => ?_
  have hsinh : Complex.sinh (Complex.log (((z * z + 1) ^ (1 / 2 : ℂ) + 1) / z)) = 1 / z := by
    rw [sinh_log (hmul z hz)]
    ring
  exact hsinh ▸ sinh_ofComplex _

/-! ### Through half a logarithm -/

/-- The tangent undoes its inverse, which has its poles at `i` and `-i`. -/
theorem undoes_arctan : @Cartesian.Undoes ℝ reals.scalar .tan .arctan
    {@Cartesian.i ℝ reals.scalar, @Cartesian.neg ℝ reals.scalar (@Cartesian.i ℝ reals.scalar)} := by
  have hpoles (z : ℂ) : I + z ≠ 0 ∧ (I - z) / (I + z) ≠ 0 ↔ z ∉ ({I, -I} : Set ℂ) := by
    have hn : I - z ≠ 0 ↔ z ≠ I := sub_ne_zero.trans ne_comm
    have hd : I + z ≠ 0 ↔ z ≠ -I := by rw [Ne, add_comm, add_eq_zero_iff_eq_neg]
    rw [ne_zero_and_div_iff, hn, hd, Set.mem_insert_iff, Set.mem_singleton_iff, not_or]
  rw [i_eq_ofComplex, neg_ofComplex, ← Set.image_pair]
  refine undoes_of_value (fun _ => rfl) (fun _ _ => arctan_ofComplex) hpoles fun z hz => ?_
  obtain ⟨hn, hd⟩ := ne_zero_and_div_iff.1 ((hpoles z).2 hz)
  have hsum : (I - z) + (I + z) ≠ 0 := by
    rw [sub_add_add_cancel, ← two_mul]
    exact mul_ne_zero two_ne_zero Complex.I_ne_zero
  have hcosh := cosh_half_log_ne_zero hn hd hsum
  have hsinh : Complex.sinh (Complex.log ((I - z) / (I + z)) / 2) / I =
      z * Complex.cosh (Complex.log ((I - z) / (I + z)) / 2) := by
    rw [div_eq_iff Complex.I_ne_zero]
    linear_combination (-I / 2) * sinh_half_log hn hd +
      Complex.sinh (Complex.log ((I - z) / (I + z)) / 2) * Complex.I_mul_I
  rw [← div_div, applyUnary_of_isQuotient reals_isTrigonometric.isQuotient_tan (sin_ofComplex _)
    (cos_ofComplex _) (by rwa [cos_div_I]), sin_div_I, cos_div_I, hsinh, mul_div_cancel_right₀ z hcosh]

/-- The cotangent undoes its inverse, which has its poles at `i` and `-i`. -/
theorem undoes_arccot : @Cartesian.Undoes ℝ reals.scalar .cot .arccot
    {@Cartesian.i ℝ reals.scalar, @Cartesian.neg ℝ reals.scalar (@Cartesian.i ℝ reals.scalar)} := by
  have hpoles (z : ℂ) : z - I ≠ 0 ∧ (z + I) / (z - I) ≠ 0 ↔ z ∉ ({I, -I} : Set ℂ) := by
    have hn : z + I ≠ 0 ↔ z ≠ -I := by rw [Ne, add_eq_zero_iff_eq_neg]
    rw [ne_zero_and_div_iff, hn, sub_ne_zero, and_comm, Set.mem_insert_iff,
      Set.mem_singleton_iff, not_or]
  rw [i_eq_ofComplex, neg_ofComplex, ← Set.image_pair]
  refine undoes_of_value (fun _ => rfl) (fun _ _ => arccot_ofComplex) hpoles fun z hz => ?_
  obtain ⟨hn, hd⟩ := ne_zero_and_div_iff.1 ((hpoles z).2 hz)
  have hdifference : (z + I) - (z - I) ≠ 0 := by
    rw [add_sub_sub_cancel, ← two_mul]
    exact mul_ne_zero two_ne_zero Complex.I_ne_zero
  have hsinh := div_ne_zero (sinh_half_log_ne_zero hn hd hdifference) Complex.I_ne_zero
  have hcosh : Complex.cosh (Complex.log ((z + I) / (z - I)) / 2) =
      z * (Complex.sinh (Complex.log ((z + I) / (z - I)) / 2) / I) := by
    rw [← mul_div_assoc, eq_div_iff Complex.I_ne_zero]
    linear_combination (-1 / 2) * sinh_half_log hn hd
  rw [← div_div, applyUnary_of_isQuotient reals_isTrigonometric.isQuotient_cot (cos_ofComplex _)
    (sin_ofComplex _) (by rwa [sin_div_I]), sin_div_I, cos_div_I, hcosh, mul_div_cancel_right₀ z hsinh]

/-- The hyperbolic tangent undoes its inverse, which has its poles at one and minus one. -/
theorem undoes_arctanh : @Cartesian.Undoes ℝ reals.scalar .tanh .arctanh
    {@Cartesian.one ℝ reals.scalar,
      @Cartesian.neg ℝ reals.scalar (@Cartesian.one ℝ reals.scalar)} := by
  have hpoles (z : ℂ) : 1 - z ≠ 0 ∧ (z + 1) / (1 - z) ≠ 0 ↔ z ∉ ({1, -1} : Set ℂ) := by
    have hn : z + 1 ≠ 0 ↔ z ≠ -1 := by rw [Ne, add_eq_zero_iff_eq_neg]
    have hd : 1 - z ≠ 0 ↔ z ≠ 1 := sub_ne_zero.trans ne_comm
    rw [ne_zero_and_div_iff, hn, hd, and_comm, Set.mem_insert_iff,
      Set.mem_singleton_iff, not_or]
  rw [one_eq_ofComplex, neg_ofComplex, ← Set.image_pair]
  refine undoes_of_value (fun _ => rfl) (fun _ _ => arctanh_ofComplex) hpoles fun z hz => ?_
  obtain ⟨hn, hd⟩ := ne_zero_and_div_iff.1 ((hpoles z).2 hz)
  have hsum : (z + 1) + (1 - z) ≠ 0 := by
    rw [show (z + 1) + (1 - z) = (2 : ℂ) by ring]
    exact two_ne_zero
  have hcosh := cosh_half_log_ne_zero hn hd hsum
  have hsinh : Complex.sinh (Complex.log ((z + 1) / (1 - z)) / 2) =
      z * Complex.cosh (Complex.log ((z + 1) / (1 - z)) / 2) := by
    linear_combination (1 / 2) * sinh_half_log hn hd
  rw [applyUnary_of_isQuotient reals_isTrigonometric.isQuotient_tanh (sinh_ofComplex _)
    (cosh_ofComplex _) hcosh, hsinh, mul_div_cancel_right₀ z hcosh]

/-- The hyperbolic cotangent undoes its inverse, which has its poles at one and minus one. -/
theorem undoes_arccoth : @Cartesian.Undoes ℝ reals.scalar .coth .arccoth
    {@Cartesian.one ℝ reals.scalar,
      @Cartesian.neg ℝ reals.scalar (@Cartesian.one ℝ reals.scalar)} := by
  have hpoles (z : ℂ) : z - 1 ≠ 0 ∧ (z + 1) / (z - 1) ≠ 0 ↔ z ∉ ({1, -1} : Set ℂ) := by
    have hn : z + 1 ≠ 0 ↔ z ≠ -1 := by rw [Ne, add_eq_zero_iff_eq_neg]
    rw [ne_zero_and_div_iff, hn, sub_ne_zero, and_comm, Set.mem_insert_iff,
      Set.mem_singleton_iff, not_or]
  rw [one_eq_ofComplex, neg_ofComplex, ← Set.image_pair]
  refine undoes_of_value (fun _ => rfl) (fun _ _ => arccoth_ofComplex) hpoles fun z hz => ?_
  obtain ⟨hn, hd⟩ := ne_zero_and_div_iff.1 ((hpoles z).2 hz)
  have hdifference : (z + 1) - (z - 1) ≠ 0 := by
    rw [add_sub_sub_cancel, one_add_one_eq_two]
    exact two_ne_zero
  have hsinh := sinh_half_log_ne_zero hn hd hdifference
  have hcosh : Complex.cosh (Complex.log ((z + 1) / (z - 1)) / 2) =
      z * Complex.sinh (Complex.log ((z + 1) / (z - 1)) / 2) := by
    linear_combination (-1 / 2) * sinh_half_log hn hd
  rw [applyUnary_of_isQuotient reals_isTrigonometric.isQuotient_coth (cosh_ofComplex _)
    (sinh_ofComplex _) hsinh, hcosh, mul_div_cancel_right₀ z hsinh]

/-! ### All inverse functions -/

/-- Each inverse function is undone by its direct function, and it has a value everywhere but at its
poles. -/
theorem direct_functions_undo_inverses :
    let _ : Scalar ℝ := reals.scalar
    @Cartesian.Undoes ℝ _ .sin .arcsin ∅ ∧
    @Cartesian.Undoes ℝ _ .cos .arccos ∅ ∧
    @Cartesian.Undoes ℝ _ .tan .arctan {.i, .neg .i} ∧
    @Cartesian.Undoes ℝ _ .cot .arccot {.i, .neg .i} ∧
    @Cartesian.Undoes ℝ _ .sec .arcsec {.zero} ∧
    @Cartesian.Undoes ℝ _ .csc .arccsc {.zero} ∧
    @Cartesian.Undoes ℝ _ .sinh .arcsinh ∅ ∧
    @Cartesian.Undoes ℝ _ .cosh .arccosh ∅ ∧
    @Cartesian.Undoes ℝ _ .tanh .arctanh {.one, .neg .one} ∧
    @Cartesian.Undoes ℝ _ .coth .arccoth {.one, .neg .one} ∧
    @Cartesian.Undoes ℝ _ .sech .arcsech {.zero} ∧
    @Cartesian.Undoes ℝ _ .csch .arccsch {.zero} :=
  ⟨undoes_arcsin, undoes_arccos, undoes_arctan, undoes_arccot, undoes_arcsec, undoes_arccsc,
    undoes_arcsinh, undoes_arccosh, undoes_arctanh, undoes_arccoth, undoes_arcsech, undoes_arccsch⟩

/-- The tangent undoes the arcus tangent of `2+i`, which is no pole of it. -/
theorem direct_functions_undo_inverses_tangent :
    let _ : Scalar ℝ := reals.scalar
    let z : Cartesian ℝ := ⟨2, 1⟩
    z ∉ ({.i, .neg .i} : Set (Cartesian ℝ)) ∧
      ∃ w, Value.applyUnary .arctan (.complex z) = .ok w ∧
        Value.applyUnary .tan w = .ok (.complex z) := by
  let := reals.scalar
  intro _ z
  have hz : z ∉ ({.i, .neg .i} : Set (Cartesian ℝ)) := by
    rw [i_eq_ofComplex, neg_ofComplex]
    rintro (hpole | hpole)
    · have hre : (2 : ℝ) = 0 := congrArg Cartesian.re hpole
      norm_num at hre
    · have hre : (2 : ℝ) = -0 := congrArg Cartesian.re hpole
      norm_num at hre
  obtain ⟨-, -, htan, -⟩ := direct_functions_undo_inverses
  obtain ⟨w, hw⟩ := htan.exists_value_iff.2 hz
  exact ⟨hz, w, hw, htan.direct_eq hw⟩

end FieldLibrary

end Formulary
