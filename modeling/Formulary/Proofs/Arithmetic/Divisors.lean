import Formulary.Arithmetic.RealFunction

/-!
# Divisors that are not zero

A quotient by zero is the one fault that no operator or function reports: whoever divides has to
check the divisor. `NoZeroDivisor` says of a computation that none has slipped through, and here it
is shown of every real and every complex operation.

Most divisors are checked where they stand. Of the others it has to be known that they are not zero:
the hyperbolic functions of a number that is not, `x - 1` for `x` outside the unit range, and the
logarithm of ten. `LawfulDivision` lists what scalars have to satisfy for that.
-/

namespace Formulary

open Scalar (isZero isNegative)

/-- The elementary functions of one argument. -/
inductive IsElementary {α : Type} [Scalar α] : (α → Except Fault α) → Prop where
  | square : IsElementary Scalar.square
  | sqrt : IsElementary Scalar.sqrt
  | exp : IsElementary Scalar.exp
  | log : IsElementary Scalar.log
  | log10 : IsElementary Scalar.log10
  | sin : IsElementary Scalar.sin
  | cos : IsElementary Scalar.cos
  | tan : IsElementary Scalar.tan
  | asin : IsElementary Scalar.asin
  | acos : IsElementary Scalar.acos
  | atan : IsElementary Scalar.atan
  | sinh : IsElementary Scalar.sinh
  | cosh : IsElementary Scalar.cosh
  | tanh : IsElementary Scalar.tanh
  | asinh : IsElementary Scalar.asinh
  | acosh : IsElementary Scalar.acosh
  | atanh : IsElementary Scalar.atanh

/-- Scalars of which a zero divisor is the fault of quotients by zero only, and whose operations
make no zeros where the real and complex functions divide. -/
class LawfulDivision (α : Type) [Scalar α] : Prop where
  elementary {f : α → Except Fault α} (hf : IsElementary f) (x : α) : f x ≠ .error .zeroDivisor
  power (x y : α) : Scalar.power x y ≠ .error .zeroDivisor
  quotient (x y : α) (hy : isZero y = false) : Scalar.quotient x y ≠ .error .zeroDivisor
  sinh (x y : α) (hx : isZero x = false) (h : Scalar.sinh x = .ok y) : isZero y = false
  cosh (x y : α) (h : Scalar.cosh x = .ok y) : isZero y = false
  tanh (x y : α) (hx : isZero x = false) (h : Scalar.tanh x = .ok y) : isZero y = false
  log_ten (y : α) (h : Scalar.log (Scalar.ofNat 10 : α) = .ok y) : isZero y = false
  infinity : isZero (Scalar.infinity : α) = false
  neg_infinity : isZero (-Scalar.infinity : α) = false
  zero_inside (x : α) (hx : isZero x = true) : RealFunction.insideUnitRange x = true
  zero_not_positive (x : α) (hx : isZero x = true) : Scalar.lt Scalar.zero x = false
  one_in_range (x : α) (hx : isZero (x - Scalar.one) = true) : RealFunction.inUnitRange x = true

/-- The computation does not end in a quotient by zero. -/
def NoZeroDivisor {α β : Type} (r : Computed α β) : Prop := r ≠ .error (.fault .zeroDivisor)

namespace NoZeroDivisor

section Computed

variable {α β γ : Type}

/-- A result is no error. -/
theorem ok (b : β) : NoZeroDivisor (.ok b : Computed α β) := by
  rintro ⟨⟩

/-- An error of another sort. -/
theorem error {e : ArithmeticError α} (he : e ≠ .fault .zeroDivisor) :
    NoZeroDivisor (.error e : Computed α β) :=
  fun h => he (Except.error.inj h)

/-- Naming errors makes no error of this sort. -/
theorem lift {r : Except Fault β} (h : r ≠ .error .zeroDivisor) :
    NoZeroDivisor (lift r : Computed α β) := by
  cases r with
  | ok b => exact ok b
  | error fault => exact error fun hfault => h (by cases hfault; rfl)

/-- A step and what follows it. -/
theorem bind {x : Computed α β} {f : β → Computed α γ} (hx : NoZeroDivisor x)
    (hf : ∀ b, x = .ok b → NoZeroDivisor (f b)) : NoZeroDivisor (x >>= f) := by
  cases x with
  | ok b => exact hf b rfl
  | error e => exact error fun he => hx (by rw [he])

/-- A check: whatever it asks, both ways have to be looked at. -/
theorem ite {c : Prop} [Decidable c] {x y : Computed α β} (hx : c → NoZeroDivisor x)
    (hy : ¬ c → NoZeroDivisor y) : NoZeroDivisor (if c then x else y) := by
  by_cases hc : c
  · rw [if_pos hc]
    exact hx hc
  · rw [if_neg hc]
    exact hy hc

/-- Being undefined is another sort of error. -/
theorem undefined (f : UnaryOp) (x : α) :
    NoZeroDivisor (RealFunction.undefined f x : Computed α β) :=
  error (by rintro ⟨⟩)

/-- An overflow that becomes a number is no quotient by zero either. -/
theorem saturating {limit : α} {r : Except Fault α}
    (h : NoZeroDivisor (Formulary.lift r : Computed α α)) :
    NoZeroDivisor (RealFunction.saturating limit r) := by
  unfold RealFunction.saturating
  split
  · exact ok limit
  · exact h

end Computed

section Scalars

variable {α β : Type} [Scalar α] [LawfulDivision α]

/-- An elementary function. -/
theorem call {f : α → Except Fault α} (hf : IsElementary f) (x : α) :
    NoZeroDivisor (Formulary.lift (f x) : Computed α α) :=
  lift (LawfulDivision.elementary hf x)

/-- An elementary function, and what is done with its result. -/
theorem call_bind {f : α → Except Fault α} (hf : IsElementary f) (x : α) {g : α → Computed α β}
    (hg : ∀ y, f x = .ok y → NoZeroDivisor (g y)) :
    NoZeroDivisor ((Formulary.lift (f x) : Computed α α) >>= g) := by
  refine bind (call hf x) fun y hy => hg y ?_
  generalize f x = r at hy ⊢
  cases r with
  | ok z =>
    cases hy
    rfl
  | error fault => cases hy

/-- A ratio with a divisor that is not zero. -/
theorem ratio {x y : α} (hy : isZero y = false) : NoZeroDivisor (RealFunction.ratio x y) :=
  lift (LawfulDivision.quotient x y hy)

/-- Two quotients by one divisor. -/
theorem quotients {x y divisor : α} {g : α → α → Computed α β} (hdivisor : isZero divisor = false)
    (hg : ∀ a b, NoZeroDivisor (g a b)) :
    NoZeroDivisor (do
      let a ← Formulary.lift (Scalar.quotient x divisor)
      let b ← Formulary.lift (Scalar.quotient y divisor)
      g a b) :=
  bind (lift (LawfulDivision.quotient x divisor hdivisor)) fun a _ =>
    bind (lift (LawfulDivision.quotient y divisor hdivisor)) fun b _ => hg a b

end Scalars

end NoZeroDivisor

/-! ## Real functions -/

namespace RealFunction

variable {α : Type}

/-- The result of a function that overflows to a limit is the function's or the limit. -/
theorem eq_ok_of_saturating {limit y : α} {r : Except Fault α} (h : saturating limit r = .ok y) :
    r = .ok y ∨ y = limit := by
  unfold saturating at h
  split at h
  · cases h
    exact .inr rfl
  · cases r with
    | ok x =>
      cases h
      exact .inl rfl
    | error fault => cases h

variable [Scalar α] [LawfulDivision α]

theorem noZeroDivisor_div (x y : α) : NoZeroDivisor (div x y) :=
  .ite (fun _ => .error (by rintro ⟨⟩)) fun hy => .ratio (by simpa using hy)

theorem noZeroDivisor_pow (x y : α) : NoZeroDivisor (pow x y) := by
  refine .ite (fun _ => .error (by rintro ⟨⟩)) fun _ => ?_
  split
  · exact .error (by rintro ⟨⟩)
  · exact .saturating (.lift (LawfulDivision.power x y))

theorem noZeroDivisor_sqrt (x : α) : NoZeroDivisor (sqrt x) :=
  .ite (fun _ => .undefined _ x) fun _ => .call .sqrt x

theorem noZeroDivisor_exp (x : α) : NoZeroDivisor (exp x) := .saturating (.call .exp x)

theorem noZeroDivisor_ln (x : α) : NoZeroDivisor (ln x) :=
  .ite (fun _ => .undefined _ x) fun _ => .call .log x

theorem noZeroDivisor_log10 (x : α) : NoZeroDivisor (log10 x) :=
  .ite (fun _ => .undefined _ x) fun _ => .call .log10 x

theorem noZeroDivisor_cot (x : α) : NoZeroDivisor (cot x) :=
  .call_bind .sin x fun s _ => .ite (fun _ => .undefined _ x) fun hs =>
    .call_bind .cos x fun _ _ => .ratio (by simpa using hs)

theorem noZeroDivisor_sec (x : α) : NoZeroDivisor (sec x) :=
  .call_bind .cos x fun c _ => .ite (fun _ => .undefined _ x) fun hc => .ratio (by simpa using hc)

theorem noZeroDivisor_csc (x : α) : NoZeroDivisor (csc x) :=
  .call_bind .sin x fun s _ => .ite (fun _ => .undefined _ x) fun hs => .ratio (by simpa using hs)

theorem noZeroDivisor_arcsin (x : α) : NoZeroDivisor (arcsin x) :=
  .ite (fun _ => .call .asin x) fun _ => .undefined _ x

theorem noZeroDivisor_arccos (x : α) : NoZeroDivisor (arccos x) :=
  .ite (fun _ => .call .acos x) fun _ => .undefined _ x

theorem noZeroDivisor_arccot (x : α) : NoZeroDivisor (arccot x) :=
  .ite (fun _ => .undefined _ x) fun hx => .bind (.ratio (by simpa using hx)) fun q _ =>
    .call_bind .atan q fun _ _ => .ok _

/-- Outside the unit range there is no zero. -/
theorem isZero_of_not_inside {x : α} (h : ¬ insideUnitRange x = true) : isZero x = false := by
  cases hx : isZero x with
  | false => rfl
  | true => exact absurd (LawfulDivision.zero_inside x hx) h

theorem noZeroDivisor_arcsec (x : α) : NoZeroDivisor (arcsec x) :=
  .ite (fun _ => .undefined _ x) fun hx =>
    .bind (.ratio (isZero_of_not_inside hx)) fun q _ => .call .acos q

theorem noZeroDivisor_arccsc (x : α) : NoZeroDivisor (arccsc x) :=
  .ite (fun _ => .undefined _ x) fun hx =>
    .bind (.ratio (isZero_of_not_inside hx)) fun q _ => .call .asin q

theorem noZeroDivisor_sinh (x : α) : NoZeroDivisor (sinh x) := .saturating (.call .sinh x)

theorem noZeroDivisor_cosh (x : α) : NoZeroDivisor (cosh x) := .saturating (.call .cosh x)

theorem noZeroDivisor_coth (x : α) : NoZeroDivisor (coth x) :=
  .ite (fun _ => .undefined _ x) fun hx => .call_bind .tanh x fun t ht =>
    .ratio (LawfulDivision.tanh x t (by simpa using hx) ht)

theorem noZeroDivisor_sech (x : α) : NoZeroDivisor (sech x) := by
  refine .bind (noZeroDivisor_cosh x) fun c hc => .ratio ?_
  -- an overflow becomes infinite
  rcases eq_ok_of_saturating hc with hc | rfl
  · exact LawfulDivision.cosh x c hc
  · exact LawfulDivision.infinity

theorem noZeroDivisor_csch (x : α) : NoZeroDivisor (csch x) := by
  refine .ite (fun _ => .undefined _ x) fun hx => .bind (noZeroDivisor_sinh x) fun s hs =>
    .ratio ?_
  rcases eq_ok_of_saturating hs with hs | rfl
  · exact LawfulDivision.sinh x s (by simpa using hx) hs
  · -- an overflow is infinite, with the sign of the argument
    split
    · exact LawfulDivision.neg_infinity
    · exact LawfulDivision.infinity

theorem noZeroDivisor_arccosh (x : α) : NoZeroDivisor (arccosh x) :=
  .ite (fun _ => .undefined _ x) fun _ => .call .acosh x

theorem noZeroDivisor_arctanh (x : α) : NoZeroDivisor (arctanh x) :=
  .ite (fun _ => .call .atanh x) fun _ => .undefined _ x

theorem noZeroDivisor_arccoth (x : α) : NoZeroDivisor (arccoth x) := by
  refine .ite (fun _ => .undefined _ x) fun hx => ?_
  -- the divisor is a difference: it is zero for one only, and one is in the range
  have hdivisor : isZero (x - Scalar.one) = false := by
    cases hzero : isZero (x - Scalar.one) with
    | false => rfl
    | true => exact absurd (LawfulDivision.one_in_range x hzero) hx
  exact .bind (.ratio hdivisor) fun q _ => .call_bind .log q fun _ _ => .ok _

theorem noZeroDivisor_arcsech (x : α) : NoZeroDivisor (arcsech x) := by
  refine .ite (fun hx => ?_) fun _ => .undefined _ x
  -- in the range between zero and one, zero itself left out
  rw [Bool.and_eq_true] at hx
  have hdivisor : isZero x = false := by
    cases hzero : isZero x with
    | false => rfl
    | true => simp [LawfulDivision.zero_not_positive x hzero] at hx
  exact .call_bind .sqrt _ fun _ _ => .bind (.ratio hdivisor) fun q _ => .call .log q

theorem noZeroDivisor_arccsch (x : α) : NoZeroDivisor (arccsch x) := by
  refine .ite (fun _ => .undefined _ x) fun hx => .call_bind .sqrt _ fun root _ => ?_
  have hdivisor : isZero x = false := by simpa using hx
  exact .ite (fun _ => .bind (.ratio hdivisor) fun q _ => .call .log q)
    fun _ => .bind (.ratio hdivisor) fun q _ => .call .log q

end RealFunction

/-! ## Complex functions -/

namespace Cartesian

variable {α : Type}

/-- The inner divisions of a composite formula are checked ones, and their failures become poles. -/
theorem noZeroDivisor_atPole {f : UnaryOp} {z : Cartesian α} {r : Computed α (Cartesian α)}
    (h : NoZeroDivisor r) : NoZeroDivisor (atPole f z r) := by
  cases r with
  | ok w => exact .ok w
  | error e => exact .ite (fun _ => .error (by rintro ⟨⟩)) fun _ => h

variable [Scalar α] [LawfulDivision α]

theorem noZeroDivisor_div (z w : Cartesian α) : NoZeroDivisor (div z w) :=
  .ite (fun _ => .error (by rintro ⟨⟩)) fun hw =>
    .quotients (by simpa using hw) fun _ _ => .ok _

theorem noZeroDivisor_exp (z : Cartesian α) : NoZeroDivisor (exp z) :=
  .call_bind .exp _ fun _ _ => .call_bind .cos _ fun _ _ => .call_bind .sin _ fun _ _ => .ok _

theorem noZeroDivisor_ln (z : Cartesian α) : NoZeroDivisor (ln z) :=
  .ite (fun _ => .error (by rintro ⟨⟩)) fun _ => .call_bind .log _ fun _ _ => .ok _

theorem noZeroDivisor_log10 (z : Cartesian α) : NoZeroDivisor (log10 z) :=
  .bind (noZeroDivisor_ln z) fun _ _ => .call_bind .log _ fun scale hscale =>
    .quotients (LawfulDivision.log_ten scale hscale) fun _ _ => .ok _

theorem noZeroDivisor_pow (z w : Cartesian α) : NoZeroDivisor (pow z w) :=
  .ite (fun _ => .ite (fun _ => .ok _) fun _ => .ite (fun _ => .ok _)
    fun _ => .error (by rintro ⟨⟩)) fun _ =>
      .bind (noZeroDivisor_ln z) fun _ _ => noZeroDivisor_exp _

theorem noZeroDivisor_sqrt (z : Cartesian α) : NoZeroDivisor (sqrt z) :=
  .ite (fun _ => .ok _) fun _ => noZeroDivisor_pow _ _

theorem noZeroDivisor_ratio {f : UnaryOp} {z : Cartesian α} {re im divisor : α} :
    NoZeroDivisor (ratio f z re im divisor) :=
  .ite (fun _ => .error (by rintro ⟨⟩)) fun h => .quotients (by simpa using h) fun _ _ => .ok _

theorem noZeroDivisor_sin (z : Cartesian α) : NoZeroDivisor (sin z) :=
  .call_bind .sin _ fun _ _ => .call_bind .cosh _ fun _ _ => .call_bind .cos _ fun _ _ =>
    .call_bind .sinh _ fun _ _ => .ok _

theorem noZeroDivisor_cos (z : Cartesian α) : NoZeroDivisor (cos z) :=
  .call_bind .cos _ fun _ _ => .call_bind .cosh _ fun _ _ => .call_bind .sin _ fun _ _ =>
    .call_bind .sinh _ fun _ _ => .ok _

theorem noZeroDivisor_tan (z : Cartesian α) : NoZeroDivisor (tan z) :=
  .call_bind .cos _ fun _ _ => .call_bind .cosh _ fun _ _ => .call_bind .sin _ fun _ _ =>
    .call_bind .sinh _ fun _ _ => noZeroDivisor_ratio

theorem noZeroDivisor_cot (z : Cartesian α) : NoZeroDivisor (cot z) :=
  .call_bind .cosh _ fun _ _ => .call_bind .cos _ fun _ _ => .call_bind .sin _ fun _ _ =>
    .call_bind .sinh _ fun _ _ => noZeroDivisor_ratio

theorem noZeroDivisor_sec (z : Cartesian α) : NoZeroDivisor (sec z) :=
  .call_bind .cos _ fun _ _ => .call_bind .sin _ fun _ _ => .call_bind .cosh _ fun _ _ =>
    .call_bind .sinh _ fun _ _ => .call_bind .square _ fun _ _ => .call_bind .square _ fun _ _ =>
      noZeroDivisor_ratio

theorem noZeroDivisor_csc (z : Cartesian α) : NoZeroDivisor (csc z) :=
  .call_bind .cos _ fun _ _ => .call_bind .sin _ fun _ _ => .call_bind .cosh _ fun _ _ =>
    .call_bind .sinh _ fun _ _ => .call_bind .square _ fun _ _ => .call_bind .square _ fun _ _ =>
      noZeroDivisor_ratio

theorem noZeroDivisor_sinh (z : Cartesian α) : NoZeroDivisor (sinh z) :=
  .call_bind .sinh _ fun _ _ => .call_bind .cos _ fun _ _ => .call_bind .cosh _ fun _ _ =>
    .call_bind .sin _ fun _ _ => .ok _

theorem noZeroDivisor_cosh (z : Cartesian α) : NoZeroDivisor (cosh z) :=
  .call_bind .cosh _ fun _ _ => .call_bind .cos _ fun _ _ => .call_bind .sinh _ fun _ _ =>
    .call_bind .sin _ fun _ _ => .ok _

theorem noZeroDivisor_tanh (z : Cartesian α) : NoZeroDivisor (tanh z) :=
  .call_bind .cosh _ fun _ _ => .call_bind .cos _ fun _ _ => .call_bind .sinh _ fun _ _ =>
    .call_bind .sin _ fun _ _ => noZeroDivisor_ratio

theorem noZeroDivisor_coth (z : Cartesian α) : NoZeroDivisor (coth z) :=
  .call_bind .cosh _ fun _ _ => .call_bind .cos _ fun _ _ => .call_bind .sinh _ fun _ _ =>
    .call_bind .sin _ fun _ _ => noZeroDivisor_ratio

theorem noZeroDivisor_sech (z : Cartesian α) : NoZeroDivisor (sech z) :=
  .call_bind .cosh _ fun _ _ => .call_bind .sinh _ fun _ _ => .call_bind .cos _ fun _ _ =>
    .call_bind .sin _ fun _ _ => .call_bind .square _ fun _ _ => .call_bind .square _ fun _ _ =>
      noZeroDivisor_ratio

theorem noZeroDivisor_csch (z : Cartesian α) : NoZeroDivisor (csch z) :=
  .call_bind .cosh _ fun _ _ => .call_bind .sinh _ fun _ _ => .call_bind .cos _ fun _ _ =>
    .call_bind .sin _ fun _ _ => .call_bind .square _ fun _ _ => .call_bind .square _ fun _ _ =>
      noZeroDivisor_ratio

/-! ### Inverse functions -/

theorem noZeroDivisor_arcsin (z : Cartesian α) : NoZeroDivisor (arcsin z) :=
  noZeroDivisor_atPole <| .bind (noZeroDivisor_sqrt _) fun _ _ =>
    .bind (noZeroDivisor_ln _) fun _ _ => noZeroDivisor_div _ _

theorem noZeroDivisor_arccos (z : Cartesian α) : NoZeroDivisor (arccos z) :=
  noZeroDivisor_atPole <| .bind (noZeroDivisor_sqrt _) fun _ _ =>
    .bind (noZeroDivisor_ln _) fun _ _ => noZeroDivisor_div _ _

theorem noZeroDivisor_arctan (z : Cartesian α) : NoZeroDivisor (arctan z) :=
  noZeroDivisor_atPole <| .bind (noZeroDivisor_div _ _) fun _ _ =>
    .bind (noZeroDivisor_ln _) fun _ _ => noZeroDivisor_div _ _

theorem noZeroDivisor_arccot (z : Cartesian α) : NoZeroDivisor (arccot z) :=
  noZeroDivisor_atPole <| .bind (noZeroDivisor_div _ _) fun _ _ =>
    .bind (noZeroDivisor_ln _) fun _ _ => noZeroDivisor_div _ _

theorem noZeroDivisor_arcsec (z : Cartesian α) : NoZeroDivisor (arcsec z) :=
  noZeroDivisor_atPole <| .bind (noZeroDivisor_sqrt _) fun _ _ =>
    .bind (noZeroDivisor_div _ _) fun _ _ => .bind (noZeroDivisor_ln _) fun _ _ =>
      noZeroDivisor_div _ _

theorem noZeroDivisor_arccsc (z : Cartesian α) : NoZeroDivisor (arccsc z) :=
  noZeroDivisor_atPole <| .bind (noZeroDivisor_sqrt _) fun _ _ =>
    .bind (noZeroDivisor_div _ _) fun _ _ => .bind (noZeroDivisor_ln _) fun _ _ =>
      noZeroDivisor_div _ _

theorem noZeroDivisor_arcsinh (z : Cartesian α) : NoZeroDivisor (arcsinh z) :=
  noZeroDivisor_atPole <| .bind (noZeroDivisor_sqrt _) fun _ _ => noZeroDivisor_ln _

theorem noZeroDivisor_arccosh (z : Cartesian α) : NoZeroDivisor (arccosh z) :=
  noZeroDivisor_atPole <| .bind (noZeroDivisor_sqrt _) fun _ _ => noZeroDivisor_ln _

theorem noZeroDivisor_arctanh (z : Cartesian α) : NoZeroDivisor (arctanh z) :=
  noZeroDivisor_atPole <| .bind (noZeroDivisor_div _ _) fun _ _ =>
    .bind (noZeroDivisor_ln _) fun _ _ => noZeroDivisor_div _ _

theorem noZeroDivisor_arccoth (z : Cartesian α) : NoZeroDivisor (arccoth z) :=
  noZeroDivisor_atPole <| .bind (noZeroDivisor_div _ _) fun _ _ =>
    .bind (noZeroDivisor_ln _) fun _ _ => noZeroDivisor_div _ _

theorem noZeroDivisor_arcsech (z : Cartesian α) : NoZeroDivisor (arcsech z) :=
  noZeroDivisor_atPole <| .bind (noZeroDivisor_sqrt _) fun _ _ =>
    .bind (noZeroDivisor_div _ _) fun _ _ => noZeroDivisor_ln _

theorem noZeroDivisor_arccsch (z : Cartesian α) : NoZeroDivisor (arccsch z) :=
  noZeroDivisor_atPole <| .bind (noZeroDivisor_sqrt _) fun _ _ =>
    .bind (noZeroDivisor_div _ _) fun _ _ => noZeroDivisor_ln _

end Cartesian

end Formulary
