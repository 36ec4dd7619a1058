import Formulary.Proofs.Calculus.RationalFunctions
import Formulary.Proofs.Calculus.Rules
import Formulary.Proofs.Evaluation.Tracing
import Formulary.Proofs.Expr.Reading
import Mathlib.Tactic.Ring

/-!
# Derivatives are right

In a field with a derivation `D`, the value of a derivative is `D` of the value of the tree
(`FieldLibrary.Differential.value_of_derive`). The variable is bound to a number with derivative
one, and all other names to constants, the numbers with derivative zero.

The induction is on the ways to make a derivative. It needs that the exponents and the ranges of
sums, which do not contain the variable, are constants. They are because constants are closed under
all operations, so that the evaluation of such a tree does not leave them; and because a sum starts
from a constant, its loop variable is one of the other names.
-/

namespace Formulary

variable {K : Type} [Field K] [DecidableEq K]

variable {lib : FieldLibrary K} {D : Derivation ℤ K K} {ev : Evaluator K} {scope : Scope K}
  {x k : String} {a b c n : K} {v : Value K}

/-! ## Scopes and trees -/

/-- The scope binds `x` to a number with derivative one, and all other names to constants. -/
structure Scope.Varies (D : Derivation ℤ K K) (x : String) (scope : Scope K) : Prop where
  variable_ : Yields (fun v => ∃ a, v = .real a ∧ D a = 1) (scope.lookup x)
  constant (name : String) (hname : name ≠ x) :
    Yields (Value.RealIn fun a => D a = 0) (scope.lookup name)

/-- A loop variable with constant values is one of the other names. -/
theorem Scope.Varies.loopScope (h : scope.Varies D x) (hk : k ≠ x) (ha : D a = 0) :
    (lib.loopScope scope k a).Varies D x where
  variable_ := by
    rw [FieldLibrary.lookup_loopScope, if_neg hk]
    exact h.variable_
  constant name hname := by
    rw [FieldLibrary.lookup_loopScope]
    exact .ite (.ok ha) (h.constant name hname)

/-- With a constant for the variable, everything that is bound is constant. -/
theorem Scope.Varies.realIn (h : scope.Varies D x) :
    (lib.loopScope scope x 0).RealIn fun a => D a = 0 := by
  intro name
  rw [FieldLibrary.lookup_loopScope]
  split
  · exact .ok D.map_zero
  · next hname => exact h.constant name (Ne.symm hname)

/-- The tree takes no random draws, and its constants are constants of the derivation. -/
structure Expr.Fixed (D : Derivation ℤ K K) (e : Expr K) : Prop where
  realIn : e.RealIn fun a => D a = 0
  deterministic : e.isDeterministic = true

omit [DecidableEq K] in
theorem Expr.Fixed.of_child {e child : Expr K} (h : e.Fixed D) (hchild : child ∈ e.children) :
    child.Fixed D where
  realIn := h.realIn.of_child hchild
  deterministic := isDeterministic_of_mem_children h.deterministic hchild

namespace FieldLibrary.Differential

open Formulary.Expr Evaluator

variable {e e' base exponent inner operand : Expr K}

/-- A tree without the variable is a constant. -/
theorem constant_of_value (hev : ¬ ev.IsLimited) (hD : lib.Differential D) (he : e.Fixed D)
    (hscope : scope.Varies D x) (hx : x ∉ e.freeVars) (h : lib.HasValue ev scope e (.real a)) :
    D a = 0 := by
  let := lib.scalar
  -- the value is the same where the variable is bound to zero
  have hzero : lib.HasValue ev (lib.loopScope scope x 0) e (.real a) := by
    refine h.of_freeVars hev fun name hname => ?_
    rw [lookup_loopScope, if_neg]
    rintro rfl
    exact hx hname
  exact he.realIn.of_hasValue hD.closed he.deterministic hscope.realIn hzero

/-! ## The rules -/

/-- What has been found to be one is one everywhere. -/
theorem hasValue_of_isOne (hev : ¬ ev.IsLimited) (h : @IsOne K lib.scalar ev inner) :
    lib.HasValue ev scope inner (.real 1) := by
  obtain ⟨hclosed, a, hvalue, ha⟩ := h
  obtain rfl : a = 1 := (of_decide_eq_true ha).trans (one_eq lib)
  have hempty : lib.HasValue ev .empty inner (.real 1) := hvalue
  exact hempty.of_freeVars hev (by simp [hclosed])

/-- The value of one less than an exponent. -/
theorem hasAtMost_predecessor (hexponent : exponent.isDeterministic = true)
    (hn : lib.HasValue ev scope exponent (.real n)) :
    lib.HasAtMost ev scope (@predecessor K lib.scalar exponent) (n - 1) := by
  unfold predecessor
  split
  · next c origin =>
    cases hn.of_const
    have hone : n - @Scalar.one K lib.scalar = n - 1 := by rw [one_eq]
    rw [← hone]
    exact hasAtMost_const
  · exact (hn.hasAtMost hexponent).sub hasAtMost_one

/-- The value of `n * u ^ (n - 1)`, if the power is defined. -/
theorem exists_of_powerRule (hbase : lib.HasAtMost ev scope base b)
    (hexponent : exponent.isDeterministic = true) (hn : lib.HasValue ev scope exponent (.real n))
    (h : lib.HasValue ev scope (@powerRule K lib.scalar base exponent) v) :
    ∃ q, lib.power b (n - 1) = some q ∧
      lib.HasAtMost ev scope (@powerRule K lib.scalar base exponent) (n * q) := by
  have hpredecessor := hasAtMost_predecessor hexponent hn
  obtain ⟨_, _, -, hpower⟩ := h.of_binary
  obtain ⟨q, hq, -⟩ := hbase.exists_of_pow hpredecessor hpower
  exact ⟨q, hq, (hn.hasAtMost hexponent).mul (hbase.pow hpredecessor hq)⟩

/-- The value of the squared secant, if it is defined. -/
theorem exists_of_tangentRule (hoperand : lib.HasAtMost ev scope operand a)
    (h : lib.HasValue ev scope (@tangentRule K lib.scalar operand) v) :
    ∃ c, lib.function .cos a = some c ∧ c ≠ 0 ∧
      lib.HasAtMost ev scope (@tangentRule K lib.scalar operand) ((1 / c) ^ 2) := by
  obtain ⟨_, _, hsec, -⟩ := h.of_binary
  obtain ⟨c, hcos, hc, -⟩ := hoperand.exists_of_sec hsec
  exact ⟨c, hcos, hc, (hoperand.sec hcos).pow_number⟩

/-- Outside in the chain rule: a value of the tree is the factor between the derivatives of `b` and
`a`. -/
def IsOuter (lib : FieldLibrary K) (D : Derivation ℤ K K) (ev : Evaluator K) (scope : Scope K)
    (outer : Expr K) (b a : K) : Prop :=
  ∀ v, lib.HasValue ev scope outer v →
    ∃ factor, D a = factor * D b ∧ lib.HasAtMost ev scope outer factor

/-- Outside a power is its derivative by the base. -/
theorem exists_outer_of_pow (hev : ¬ ev.IsLimited) (hD : lib.Differential D) (hscope : scope.Varies D x)
    (he : (binary .pow base exponent).Fixed D) (hclosed : exponent.freeVars = [])
    (ha : lib.HasValue ev scope (.binary .pow base exponent) (.real a)) :
    ∃ b, lib.HasValue ev scope base (.real b) ∧
      IsOuter lib D ev scope (@powerRule K lib.scalar base exponent) b a := by
  obtain ⟨b, n, hb, hn, hp⟩ := ha.exists_of_pow
  have hbase : base.Fixed D := he.of_child (by simp [children])
  have hexponent : exponent.Fixed D := he.of_child (by simp [children])
  have hconstant : D n = 0 := constant_of_value hev hD hexponent hscope (by simp [hclosed]) hn
  refine ⟨b, hb, fun v hv => ?_⟩
  obtain ⟨q, hq, hvalue⟩ :=
    exists_of_powerRule (hb.hasAtMost hbase.deterministic) hexponent.deterministic hn hv
  exact ⟨n * q, hD.power hconstant hp hq, hvalue⟩

/-- Outside a tangent is the squared secant. -/
theorem exists_outer_of_tan (hD : lib.Differential D) (he : operand.Fixed D)
    (ha : lib.HasValue ev scope (.unary .tan operand) (.real a)) :
    ∃ b, lib.HasValue ev scope operand (.real b) ∧
      IsOuter lib D ev scope (@tangentRule K lib.scalar operand) b a := by
  obtain ⟨b, hb, ht⟩ := ha.exists_of_tan
  refine ⟨b, hb, fun v hv => ?_⟩
  obtain ⟨c, hcos, hc, hvalue⟩ := exists_of_tangentRule (hb.hasAtMost he.deterministic) hv
  exact ⟨(1 / c) ^ 2, hD.tan ht hcos hc, hvalue⟩

/-- An inner derivative that is one may be left out. -/
theorem IsOuter.hasAtMost {outer : Expr K} (hev : ¬ ev.IsLimited) (h : IsOuter lib D ev scope outer b a)
    (hinner : lib.HasAtMost ev scope inner (D b)) (hone : @IsOne K lib.scalar ev inner) :
    lib.HasAtMost ev scope outer (D a) := by
  have hb : D b = 1 := (Value.real.inj (hinner _ (hasValue_of_isOne hev hone))).symm
  intro v hv
  obtain ⟨factor, hfactor, hvalue⟩ := h v hv
  rw [hfactor, hb, mul_one]
  exact hvalue v hv

/-- A derivative has the derivative of the value, if it has a value. -/
theorem hasAtMost_of_derived (hev : ¬ ev.IsLimited) (hD : lib.Differential D)
    (h : @Derived K lib.scalar ev x e e') (he : e.Fixed D) (hscope : scope.Varies D x)
    (ha : lib.HasValue ev scope e (.real a)) : lib.HasAtMost ev scope e' (D a) := by
  induction h generalizing scope a with
  | const w origin =>
    cases ha.of_const
    cases he.realIn with
    | const hw =>
      rw [show D a = 0 from hw]
      exact hasAtMost_zero
  | self =>
    obtain ⟨b, hb, hone⟩ := hscope.variable_ _ ha.of_var
    cases hb
    rw [hone]
    exact hasAtMost_one
  | var hname =>
    have hzero : D a = 0 := hscope.constant _ hname _ ha.of_var
    rw [hzero]
    exact hasAtMost_zero
  | sub _ _ ihf ihg =>
    obtain ⟨b, c, hb, hc, rfl⟩ := ha.exists_of_sub
    rw [map_sub]
    exact (ihf (he.of_child (by simp [children])) hscope hb).sub
      (ihg (he.of_child (by simp [children])) hscope hc)
  | @div f f' g g' _ _ ihf ihg =>
    obtain ⟨b, c, hb, hc, -, rfl⟩ := ha.exists_of_div
    have hf : f.Fixed D := he.of_child (by simp [children])
    have hg : g.Fixed D := he.of_child (by simp [children])
    have hquotient : D (b / c) = (D b * c - b * D c) / c ^ 2 := by
      rw [D.leibniz_div, smul_eq_mul, smul_eq_mul, smul_eq_mul]
      ring
    have hb' := hb.hasAtMost hf.deterministic
    have hc' := hc.hasAtMost hg.deterministic
    rw [hquotient]
    exact (((ihf hf hscope hb).mul hc').sub (hb'.mul (ihg hg hscope hc))).div hc'.pow_number
  | pow hclosed _ ih =>
    obtain ⟨b, hb, houter⟩ := exists_outer_of_pow hev hD hscope he hclosed ha
    have hinner := ih (he.of_child (by simp [children])) hscope hb
    intro v hv
    obtain ⟨w, _, hw, -⟩ := hv.of_binary
    obtain ⟨factor, hfactor, hvalue⟩ := houter w hw
    rw [hfactor]
    exact hvalue.mul hinner v hv
  | powOne hclosed _ hone ih =>
    obtain ⟨b, hb, houter⟩ := exists_outer_of_pow hev hD hscope he hclosed ha
    exact houter.hasAtMost hev (ih (he.of_child (by simp [children])) hscope hb) hone
  | @tan operand inner _ ih =>
    have hoperand : operand.Fixed D := he.of_child (by simp [children])
    obtain ⟨b, hb, houter⟩ := hD.exists_outer_of_tan hoperand ha
    intro v hv
    obtain ⟨_, w, -, hw⟩ := hv.of_binary
    obtain ⟨factor, hfactor, hvalue⟩ := houter w hw
    rw [hfactor, mul_comm]
    exact (ih hoperand hscope hb).mul hvalue v hv
  | @tanOne operand inner _ hone ih =>
    have hoperand : operand.Fixed D := he.of_child (by simp [children])
    obtain ⟨b, hb, houter⟩ := hD.exists_outer_of_tan hoperand ha
    exact houter.hasAtMost hev (ih hoperand hscope hb) hone
  | @sum k start stop term term' rest hk hxstart _ _ ih =>
    obtain ⟨b, c, terms, hb, hc, hcount, hterms, rfl⟩ := ha.exists_of_sum
    have hstart : start.Fixed D := he.of_child (by simp [children])
    have hstop : stop.Fixed D := he.of_child (by simp [children])
    have hterm : term.Fixed D := he.of_child (by simp [children])
    have hconstant : D b = 0 := constant_of_value hev hD hstart hscope hxstart hb
    rw [map_list_sum]
    refine HasAtMost.sum (hb.hasAtMost hstart.deterministic) (hc.hasAtMost hstop.deterministic)
      (by rwa [List.length_map]) fun i t ht => ?_
    rw [List.getElem?_map, Option.map_eq_some_iff] at ht
    obtain ⟨u, hu, rfl⟩ := ht
    exact ih hterm (hscope.loopScope hk (constant_add hconstant (D.map_natCast i))) (hterms i u hu)

/-- Derivatives are right. Read a formula without random draws over a field with a derivation, all
constants and all other variables as constants and the variable as a number with derivative one. If
the formula and its derivative have values, where that of the formula is a number `a`, then the
value of the derivative is the derivative of `a`.

No more is asked of boolean constants: a formula that is differentiated where one stands has no
number for a value. -/
theorem value_of_derive (hD : lib.Differential D) (ρ : Reading K) (hreal : ∀ r, D (ρ.real r) = 0)
    (hcomplex : ∀ z, D (ρ.complex z) = 0) (t : Expr Float) (ht : ¬ t.ReachesRand) (x : String)
    (ev : Evaluator K) (depth : ℕ) (t' : Expr K) (drawn drawn' : ℕ)
    (hderive : (@derive K lib.scalar ev x depth (t.read ρ)).run.run drawn = (.ok t', drawn'))
    (scope : Scope K) (hscope : scope.Varies D x) (a : K)
    (ha : lib.HasValue ev scope (t.read ρ) (.real a)) (v : Value K)
    (hv : lib.HasValue ev scope t' v) : v = .real (D a) := by
  have hfixed : (t.read ρ).Fixed D :=
    ⟨realIn_read hreal hcomplex t, (isDeterministic_read t).trans (isDeterministic_iff.2 ht)⟩
  let := lib.scalar
  -- the values are the same without a limit, where the depth does not matter
  have hderived : Derived ev.unlimited x (t.read ρ) t' :=
    yields_derive ev x depth _ drawn t' drawn' hderive
  exact hasAtMost_of_derived (not_isLimited_unlimited ev) hD hderived hfixed hscope ha.unlimited v
    hv.unlimited

open RationalFunctions in
open Classical in
/-- The derivative of `x^2/y` among the rational functions, where `y` is two. -/
theorem value_of_derive_quotient :
    let t : Expr Float := .binary .div (.binary .pow (.var "x") (.const (.real 2.0))) (.var "y")
    let lib := library ℚ
    let X := indeterminate ℚ
    let ρ : Reading (RationalFunctions ℚ) := ⟨fun r => constant ℚ (Binary64.toRat r), fun _ => 0⟩
    let ev : Evaluator (RationalFunctions ℚ) := { maxPending := none, draw := fun _ => 0 }
    let scope : Scope (RationalFunctions ℚ) := .ofBindings [("x", .real X), ("y", .real 2)]
    let two : Expr (RationalFunctions ℚ) := .const (.real (ρ.real 2.0))
    let t' := @quotientRule _ lib.scalar (.binary .pow (.var "x") two)
      (@powerRule _ lib.scalar (.var "x") two) (.var "y") (lib.number 0)
    (lib.Differential (derivation ℚ) ∧ (∀ r, derivation ℚ (ρ.real r) = 0) ∧
      (∀ z, derivation ℚ (ρ.complex z) = 0) ∧ ¬ t.ReachesRand ∧
      (@derive _ lib.scalar ev "x" 2 (t.read ρ)).run.run 0 = (.ok t', 0) ∧
      scope.Varies (derivation ℚ) "x" ∧ lib.HasValue ev scope (t.read ρ) (.real (X ^ 2 / 2)) ∧
      lib.HasValue ev scope t' (.real ((2 * X * 2 - X ^ 2 * 0) / 2 ^ 2))) ∧
    Value.real ((2 * X * 2 - X ^ 2 * 0) / 2 ^ 2) = .real (derivation ℚ (X ^ 2 / 2)) := by
  intro t lib X ρ ev scope two t'
  let := lib.scalar
  have := charZero ℚ
  have htwo : ρ.real 2.0 = ((2 : ℕ) : RationalFunctions ℚ) := by
    show constant ℚ (Binary64.toRat 2.0) = _
    rw [Binary64.toRat_two, constant, map_ofNat, map_ofNat]
    rfl
  have hreal : ∀ r, derivation ℚ (ρ.real r) = 0 := fun r => derivation_constant ℚ _
  have hcomplex : ∀ z, derivation ℚ (ρ.complex z) = 0 := fun _ => map_zero _
  have hrand : ¬ t.ReachesRand := isDeterministic_iff.1 rfl
  have hread : t.read ρ = .binary .div (.binary .pow (.var "x") two) (.var "y") := rfl
  have hderive : (derive ev "x" 2 (t.read ρ)).run.run 0 = (.ok t', 0) := by
    have hclosed : two.isClosed = true := rfl
    have hone : Scalar.eq (Scalar.ofNat 1 : RationalFunctions ℚ) Scalar.one = true :=
      decide_eq_true rfl
    have hisOne : (isOne ev 7 (Expr.number 1)).run.run 0 = (.ok true, 0) := by
      show (Except.ok (Scalar.eq (Scalar.ofNat 1 : RationalFunctions ℚ) Scalar.one), 0) = _
      rw [hone]
    have hpower : (derive ev "x" 4 (.binary .pow (.var "x") two)).run.run 0 =
        (.ok (powerRule (.var "x") two), 0) := by
      rw [derive, if_neg nofun, within, if_neg nofun, if_pos hclosed, within, if_neg nofun, derive,
        if_neg nofun, if_pos rfl, pure_bind, run_bind_of_ok hisOne]
      rfl
    rw [hread, derive, if_neg nofun, run_bind_of_ok hpower]
    rfl
  have hscope : scope.Varies (derivation ℚ) "x" := by
    refine ⟨.ok ⟨X, rfl, derivation_indeterminate ℚ⟩, fun name hname => ?_⟩
    by_cases hy : "y" = name
    · subst hy
      exact .ok ((derivation ℚ).map_natCast 2)
    · have hnone : scope.get? name = none := by
        simp [scope, Scope.ofBindings, Scope.get?, Scope.frames, Bindings.get?, Ne.symm hname, hy]
      rw [Scope.lookup, hnone]
      exact .error _
  -- the values of the parts
  have hx : ev.HasValue scope (.var "x") (.real X) := ⟨0, 0, rfl⟩
  have hy : ev.HasValue scope (.var "y") (.real 2) := ⟨0, 0, rfl⟩
  have hn : ev.HasValue scope two (.real (ρ.real 2.0)) := ⟨0, 0, rfl⟩
  have hsquare : ev.HasValue scope (.binary .pow (.var "x") two) (.real (X ^ 2)) := by
    refine .binary rfl rfl rfl hx hn (applyBinary_pow (indeterminate_ne_zero ℚ) ?_)
    rw [htwo]
    exact naturalPower_natCast X 2
  have hpower : ev.HasValue scope (powerRule (.var "x") two) (.real (2 * X)) := by
    have hone : ρ.real 2.0 - Scalar.one = ((1 : ℕ) : RationalFunctions ℚ) := by
      rw [htwo, one_eq, Nat.cast_ofNat, Nat.cast_one]
      ring
    have hpredecessor : ev.HasValue scope (predecessor two) (.real ((1 : ℕ) : RationalFunctions ℚ)) :=
      hone ▸ ⟨0, 0, rfl⟩
    have hmul : Value.applyBinary .mul (.real (ρ.real 2.0)) (.real (X ^ 1)) = .ok (.real (2 * X)) := by
      rw [htwo, pow_one]
      rfl
    exact .binary rfl rfl rfl hn (.binary rfl rfl rfl hx hpredecessor
      (applyBinary_pow (indeterminate_ne_zero ℚ) (naturalPower_natCast X 1))) hmul
  have hvalue : ev.HasValue scope (t.read ρ) (.real (X ^ 2 / 2)) := by
    rw [hread]
    exact .binary rfl rfl rfl hsquare hy (applyBinary_div _ _ two_ne_zero)
  have hzero : ev.HasValue scope (Expr.number 0) (.real 0) := by
    rw [← Nat.cast_zero]
    exact ⟨0, 0, rfl⟩
  have hvalue' : ev.HasValue scope t' (.real ((2 * X * 2 - X ^ 2 * 0) / 2 ^ 2)) := by
    have hdifference : ev.HasValue scope (.binary .sub (.binary .mul (powerRule (.var "x") two)
        (.var "y")) (.binary .mul (.binary .pow (.var "x") two) (Expr.number 0)))
        (.real (2 * X * 2 - X ^ 2 * 0)) :=
      .binary rfl rfl rfl (.binary rfl rfl rfl hpower hy rfl)
        (.binary rfl rfl rfl hsquare hzero rfl) rfl
    have hdenominator : ev.HasValue scope (.binary .pow (.var "y") (Expr.number 2)) (.real (2 ^ 2)) :=
      .binary rfl rfl rfl hy ⟨0, 0, rfl⟩ (applyBinary_pow two_ne_zero (naturalPower_natCast 2 2))
    exact .binary rfl rfl rfl hdifference hdenominator
      (applyBinary_div _ _ (pow_ne_zero 2 two_ne_zero))
  exact ⟨⟨differential_library ℚ, hreal, hcomplex, hrand, hderive, hscope, hvalue, hvalue'⟩,
    value_of_derive (differential_library ℚ) ρ hreal hcomplex t hrand "x" ev 2 t' 0 0 hderive scope
      hscope _ hvalue _ hvalue'⟩

end FieldLibrary.Differential

end Formulary
