import Formulary.Proofs.Evaluation.Closure
import Mathlib.Algebra.BigOperators.Group.List.Basic
import Mathlib.Algebra.Field.Rat
import Mathlib.Algebra.Order.Ring.Rat

/-!
# Exact arithmetic

Formulas can be evaluated in any field, with exact sums, products and quotients. What a field does
not have of itself, its elementary functions among them, is a `FieldLibrary`. Functions need not be
defined everywhere; all that is asked of them is that a power with a natural exponent is what it is
in every field.

A tree `HasValue` in a field as it has one among other scalars. Where the value is a number, it
comes from numbers: the lemmas `exists_of_…` say from which, for the sorts of tree that have
derivatives. The other way round, a tree `HasAtMost` the value that its parts give it, if they have
no other values than given numbers. An evaluation can still fail, so there need not be a value.

The rational numbers are such a field, with as many operations as they have
(`FieldLibrary.rationals`).
-/

namespace Formulary

/-- What it takes to evaluate formulas in a field, apart from its arithmetic. -/
structure FieldLibrary (K : Type) [Field K] where
  pi : K
  euler : K
  lt : K → K → Bool
  isOddInteger : K → Bool
  truncate : K → K
  floor : K → Int
  abs : K → K
  hypotenuse : K → K → K
  angle : K → K → K
  /-- A power, if it is defined. -/
  power : K → K → Option K
  /-- The value of an elementary function, if it is defined. Only the functions that the others are
  made of are asked for. -/
  function : UnaryOp → K → Option K
  power_natCast {a p : K} {n : ℕ} (h : power a n = some p) : p = a ^ n

namespace FieldLibrary

variable {K : Type}

/-- A value that may be undefined. -/
def defined : Option K → Except Fault K
  | some a => .ok a
  | none => .error .domain

/-- What has a value was defined. -/
theorem defined_eq_ok {r : Option K} {a : K} (h : defined r = .ok a) : r = some a := by
  cases r with
  | some b =>
    cases h
    rfl
  | none => cases h

/-- What has a value had it before its errors were renamed. -/
theorem eq_ok_of_lift {r : Except Fault K} {a : K} (h : (lift r : Computed K K) = .ok a) :
    r = .ok a := by
  cases r with
  | ok b =>
    cases h
    rfl
  | error fault => cases h

variable [Field K] [DecidableEq K]

/-- The numbers of the field as scalars. Nothing is infinite, and nothing is too large. -/
@[reducible]
def scalar (lib : FieldLibrary K) : Scalar K where
  ofNat := Nat.cast
  half := 1 / 2
  pi := lib.pi
  euler := lib.euler
  infinity := 0
  eq a b := decide (a = b)
  lt := lib.lt
  isFinite _ := true
  isOddInteger := lib.isOddInteger
  truncate := lib.truncate
  floor := lib.floor
  abs := lib.abs
  hypotenuse := lib.hypotenuse
  angle := lib.angle
  quotient a b := if b = 0 then .error .zeroDivisor else .ok (a / b)
  power a b := defined (lib.power a b)
  square a := .ok (a * a)
  sqrt a := defined (lib.function .sqrt a)
  exp a := defined (lib.function .exp a)
  log a := defined (lib.function .ln a)
  log10 a := defined (lib.function .log10 a)
  sin a := defined (lib.function .sin a)
  cos a := defined (lib.function .cos a)
  tan a := defined (lib.function .tan a)
  asin a := defined (lib.function .arcsin a)
  acos a := defined (lib.function .arccos a)
  atan a := defined (lib.function .arctan a)
  sinh a := defined (lib.function .sinh a)
  cosh a := defined (lib.function .cosh a)
  tanh a := defined (lib.function .tanh a)
  asinh a := defined (lib.function .arcsinh a)
  acosh a := defined (lib.function .arccosh a)
  atanh a := defined (lib.function .arctanh a)

variable (lib : FieldLibrary K) {ev : Evaluator K} {scope scope' : Scope K} {e l r : Expr K}
  {v w : Value K} {a b c : K}

/-- The tree has the value in exact arithmetic. -/
def HasValue (ev : Evaluator K) (scope : Scope K) (e : Expr K) (v : Value K) : Prop :=
  let := lib.scalar
  ev.HasValue scope e v

/-- The tree has no other value than the number. -/
def HasAtMost (ev : Evaluator K) (scope : Scope K) (e : Expr K) (a : K) : Prop :=
  ∀ v, lib.HasValue ev scope e v → v = .real a

/-- The scope of the term of a sum. -/
def loopScope (scope : Scope K) (k : String) (a : K) : Scope K :=
  let := lib.scalar
  Evaluator.loopScope scope .sum k a

/-- The number of terms of a sum between these bounds. -/
def termCount (ev : Evaluator K) (a b : K) : Except (EvalError K) ℕ :=
  let := lib.scalar
  ev.termCount .sum a b

/-- A natural number in a tree. -/
def number (n : ℕ) : Expr K :=
  let := lib.scalar
  Expr.number n

variable {lib}

/-- In the scope of a term, the loop variable hides what is bound outside, and nothing else. -/
theorem lookup_loopScope (k name : String) :
    (lib.loopScope scope k a).lookup name = if k = name then .ok (.real a) else scope.lookup name :=
  let := lib.scalar
  Scope.lookup_loopScope scope .sum k name a

/-- A tree without random draws has one value only. -/
theorem HasValue.hasAtMost (he : e.isDeterministic = true) (h : lib.HasValue ev scope e (.real a)) :
    lib.HasAtMost ev scope e a := fun _ hv =>
  let := lib.scalar
  Evaluator.HasValue.unique he hv h

/-- A value remains without a limit. -/
theorem HasValue.unlimited (h : lib.HasValue ev scope e v) : lib.HasValue ev.unlimited scope e v :=
  let := lib.scalar
  Evaluator.HasValue.unlimited h

/-- Without a limit, a value stays where the free variables have the same values. -/
theorem HasValue.of_freeVars (hev : ¬ ev.IsLimited) (h : lib.HasValue ev scope e v)
    (hagree : ∀ name ∈ e.freeVars, scope.lookup name = scope'.lookup name) :
    lib.HasValue ev scope' e v :=
  let := lib.scalar
  Evaluator.HasValue.of_lookup hev h fun name hname =>
    hagree name (Expr.mem_freeVars_of_mem_dependence e hname)

/-! ## Constants and variables -/

/-- A constant has its own value. -/
theorem HasValue.of_const {origin : Option Origin} (h : lib.HasValue ev scope (.const w origin) v) :
    v = w :=
  let := lib.scalar
  Evaluator.HasValue.of_const h

/-- A variable has the value that it is bound to. -/
theorem HasValue.of_var {name : String} (h : lib.HasValue ev scope (.var name) v) :
    scope.lookup name = .ok v :=
  let := lib.scalar
  Evaluator.HasValue.of_var h

/-- A constant has no other value than its own. -/
theorem hasAtMost_const {origin : Option Origin} :
    lib.HasAtMost ev scope (.const (.real a) origin) a := fun _ => HasValue.of_const

/-- A whole number has no other value than itself. -/
theorem hasAtMost_number {n : ℕ} : lib.HasAtMost ev scope (lib.number n) n := fun _ => HasValue.of_const

/-- The constant zero has no other value than zero. -/
theorem hasAtMost_zero : lib.HasAtMost ev scope (lib.number 0) 0 := by
  have h : lib.HasAtMost ev scope (lib.number 0) ((0 : ℕ) : K) := hasAtMost_number
  rwa [Nat.cast_zero] at h

/-- The constant one has no other value than one. -/
theorem hasAtMost_one : lib.HasAtMost ev scope (lib.number 1) 1 := by
  have h : lib.HasAtMost ev scope (lib.number 1) ((1 : ℕ) : K) := hasAtMost_number
  rwa [Nat.cast_one] at h

/-! ## Operators and functions -/

/-- Both operands of an operator have values, if it has one. -/
theorem HasValue.of_binary {op : BinaryOp} (h : lib.HasValue ev scope (.binary op l r) v) :
    ∃ a b, lib.HasValue ev scope l a ∧ lib.HasValue ev scope r b := by
  let := lib.scalar
  obtain ⟨a, b, hl, hr, -⟩ := Evaluator.HasValue.of_binary h
  exact ⟨a, b, hl, hr⟩

/-- A real difference is one of real numbers. -/
theorem HasValue.exists_of_sub (h : lib.HasValue ev scope (.binary .sub l r) (.real c)) :
    ∃ a b, lib.HasValue ev scope l (.real a) ∧ lib.HasValue ev scope r (.real b) ∧ c = a - b := by
  let := lib.scalar
  obtain ⟨a, b, hl, hr, hc⟩ := Evaluator.HasValue.exists_of_arithmetic (fun _ _ => rfl) h
  exact ⟨a, b, hl, hr, (Except.ok.inj hc).symm⟩

/-- A real product is one of real numbers. -/
theorem HasValue.exists_of_mul (h : lib.HasValue ev scope (.binary .mul l r) (.real c)) :
    ∃ a b, lib.HasValue ev scope l (.real a) ∧ lib.HasValue ev scope r (.real b) ∧ c = a * b := by
  let := lib.scalar
  obtain ⟨a, b, hl, hr, hc⟩ := Evaluator.HasValue.exists_of_arithmetic (fun _ _ => rfl) h
  exact ⟨a, b, hl, hr, (Except.ok.inj hc).symm⟩

/-- The only value of a difference. -/
theorem HasAtMost.sub (hl : lib.HasAtMost ev scope l a) (hr : lib.HasAtMost ev scope r b) :
    lib.HasAtMost ev scope (.binary .sub l r) (a - b) := by
  let := lib.scalar
  intro v h
  obtain ⟨c, hc, rfl⟩ := Evaluator.HasValue.exists_real_of_arithmetic (fun _ _ => rfl) hl hr h
  rw [← Except.ok.inj hc]

/-- The only value of a product. -/
theorem HasAtMost.mul (hl : lib.HasAtMost ev scope l a) (hr : lib.HasAtMost ev scope r b) :
    lib.HasAtMost ev scope (.binary .mul l r) (a * b) := by
  let := lib.scalar
  intro v h
  obtain ⟨c, hc, rfl⟩ := Evaluator.HasValue.exists_real_of_arithmetic (fun _ _ => rfl) hl hr h
  rw [← Except.ok.inj hc]

/-- The zero of the scalars is that of the field. -/
theorem zero_eq (lib : FieldLibrary K) : @Scalar.zero K lib.scalar = 0 := Nat.cast_zero

/-- The one of the scalars is that of the field. -/
theorem one_eq (lib : FieldLibrary K) : @Scalar.one K lib.scalar = 1 := Nat.cast_one

/-- The quotient of scalars is that of the field, but not by zero. -/
theorem quotient_eq (lib : FieldLibrary K) (a b : K) : @Scalar.quotient K lib.scalar a b =
    if b = 0 then .error .zeroDivisor else .ok (a / b) := rfl

/-- The power of scalars is that of the library. -/
theorem power_eq (lib : FieldLibrary K) (a b : K) :
    @Scalar.power K lib.scalar a b = defined (lib.power a b) := rfl

/-- What a ratio is, if it has a value. -/
theorem eq_of_ratio (h : @RealFunction.ratio K lib.scalar a b = .ok c) : b ≠ 0 ∧ c = a / b := by
  have hquotient := eq_ok_of_lift h
  rw [quotient_eq] at hquotient
  split at hquotient
  · cases hquotient
  · next hb =>
    cases hquotient
    exact ⟨hb, rfl⟩

/-- What a quotient is, if it has a value. -/
theorem eq_of_div (h : @RealFunction.div K lib.scalar a b = .ok c) : b ≠ 0 ∧ c = a / b := by
  unfold RealFunction.div at h
  split at h
  · cases h
  · exact eq_of_ratio h

/-- What a power is, if it has a value. -/
theorem power_of_pow (h : @RealFunction.pow K lib.scalar a b = .ok c) :
    lib.power a b = some c := by
  unfold RealFunction.pow at h
  rw [power_eq] at h
  cases hp : lib.power a b with
  | none =>
    rw [hp] at h
    split at h <;> cases h
  | some p =>
    rw [hp] at h
    split at h <;> cases h
    rfl

/-- A secant is one over a cosine. -/
theorem exists_cos_of_sec (h : @RealFunction.sec K lib.scalar a = .ok c) :
    ∃ b, lib.function .cos a = some b ∧ b ≠ 0 ∧ c = 1 / b := by
  obtain ⟨b, hcos, h⟩ := bind_eq_ok.1 h
  split at h
  · cases h
  · obtain ⟨hb, rfl⟩ := eq_of_ratio h
    refine ⟨b, defined_eq_ok (eq_ok_of_lift hcos), hb, ?_⟩
    rw [one_eq]

/-- Real numbers are divided in the field. -/
theorem applyBinary_div (lib : FieldLibrary K) (a : K) (hb : b ≠ 0) :
    @Value.applyBinary K lib.scalar .div (.real a) (.real b) = .ok (.real (a / b)) := by
  let := lib.scalar
  have hzero : Scalar.isZero b = false := decide_eq_false fun h => hb (h.trans (zero_eq lib))
  have hdiv : RealFunction.div a b = .ok (a / b) := by
    rw [RealFunction.div, hzero, if_neg Bool.false_ne_true, RealFunction.ratio, quotient_eq, if_neg hb]
    rfl
  show Value.reported .div _ _ _ (RealFunction.div a b) = _
  rw [hdiv, Value.reported]

/-- Real numbers are raised to powers as the library says. -/
theorem applyBinary_pow (ha : a ≠ 0) (hp : lib.power a b = some c) :
    @Value.applyBinary K lib.scalar .pow (.real a) (.real b) = .ok (.real c) := by
  let := lib.scalar
  have hzero : Scalar.isZero a = false := decide_eq_false fun h => ha (h.trans (zero_eq lib))
  have hpow : RealFunction.pow a b = .ok c := by
    rw [RealFunction.pow, hzero, Bool.false_and, if_neg Bool.false_ne_true, power_eq, hp]
    rfl
  show Value.reported .pow _ _ _ (RealFunction.pow a b) = _
  rw [hpow, Value.reported]

/-- A real quotient is one of real numbers, and not by zero. -/
theorem HasValue.exists_of_div (h : lib.HasValue ev scope (.binary .div l r) (.real c)) :
    ∃ a b, lib.HasValue ev scope l (.real a) ∧ lib.HasValue ev scope r (.real b) ∧ b ≠ 0 ∧
      c = a / b := by
  let := lib.scalar
  obtain ⟨a, b, hl, hr, hc⟩ := Evaluator.HasValue.exists_of_arithmetic (fun _ _ => rfl) h
  exact ⟨a, b, hl, hr, eq_of_div hc⟩

/-- The only value of a quotient. -/
theorem HasAtMost.div (hl : lib.HasAtMost ev scope l a) (hr : lib.HasAtMost ev scope r b) :
    lib.HasAtMost ev scope (.binary .div l r) (a / b) := by
  let := lib.scalar
  intro v h
  obtain ⟨c, hc, rfl⟩ := Evaluator.HasValue.exists_real_of_arithmetic (fun _ _ => rfl) hl hr h
  rw [(eq_of_div hc).2]

/-- A real power is one of real numbers. -/
theorem HasValue.exists_of_pow (h : lib.HasValue ev scope (.binary .pow l r) (.real c)) :
    ∃ a b, lib.HasValue ev scope l (.real a) ∧ lib.HasValue ev scope r (.real b) ∧
      lib.power a b = some c := by
  let := lib.scalar
  obtain ⟨a, b, hl, hr, hc⟩ := Evaluator.HasValue.exists_of_arithmetic (fun _ _ => rfl) h
  exact ⟨a, b, hl, hr, power_of_pow hc⟩

/-- A power of numbers is a number. -/
theorem HasAtMost.exists_of_pow (hl : lib.HasAtMost ev scope l a) (hr : lib.HasAtMost ev scope r b)
    (h : lib.HasValue ev scope (.binary .pow l r) v) :
    ∃ c, lib.power a b = some c ∧ v = .real c := by
  let := lib.scalar
  obtain ⟨c, hc, hv⟩ := Evaluator.HasValue.exists_real_of_arithmetic (fun _ _ => rfl) hl hr h
  exact ⟨c, power_of_pow hc, hv⟩

/-- The only value of a power that is defined. -/
theorem HasAtMost.pow (hl : lib.HasAtMost ev scope l a) (hr : lib.HasAtMost ev scope r b)
    (hp : lib.power a b = some c) : lib.HasAtMost ev scope (.binary .pow l r) c := by
  intro v h
  obtain ⟨c', hp', rfl⟩ := hl.exists_of_pow hr h
  cases hp.symm.trans hp'
  rfl

/-- The only value of a power with a whole exponent. -/
theorem HasAtMost.pow_number {n : ℕ} (hl : lib.HasAtMost ev scope l a) :
    lib.HasAtMost ev scope (.binary .pow l (lib.number n)) (a ^ n) := by
  intro v h
  obtain ⟨c, hc, rfl⟩ := hl.exists_of_pow hasAtMost_number h
  rw [lib.power_natCast hc]

/-- A real tangent is one of a real number. -/
theorem HasValue.exists_of_tan (h : lib.HasValue ev scope (.unary .tan e) (.real c)) :
    ∃ a, lib.HasValue ev scope e (.real a) ∧ lib.function .tan a = some c := by
  let := lib.scalar
  obtain ⟨a, he, hc⟩ := Evaluator.HasValue.exists_of_function (fun _ => rfl) h
  exact ⟨a, he, defined_eq_ok (eq_ok_of_lift hc)⟩

/-- The secant of a number is a number. -/
theorem HasAtMost.exists_of_sec (he : lib.HasAtMost ev scope e a)
    (h : lib.HasValue ev scope (.unary .sec e) v) :
    ∃ b, lib.function .cos a = some b ∧ b ≠ 0 ∧ v = .real (1 / b) := by
  let := lib.scalar
  obtain ⟨c, hc, rfl⟩ := Evaluator.HasValue.exists_real_of_function (fun _ => rfl) he h
  obtain ⟨b, hcos, hb, rfl⟩ := exists_cos_of_sec hc
  exact ⟨b, hcos, hb, rfl⟩

/-- The only value of a secant is one over the cosine. -/
theorem HasAtMost.sec (he : lib.HasAtMost ev scope e a) (hcos : lib.function .cos a = some b) :
    lib.HasAtMost ev scope (.unary .sec e) (1 / b) := by
  intro v h
  obtain ⟨b', hcos', -, rfl⟩ := he.exists_of_sec h
  cases hcos.symm.trans hcos'
  rfl

/-! ## Sums -/

/-- Real numbers are added in the field. -/
theorem applyBinary_add (lib : FieldLibrary K) (a b : K) :
    @Value.applyBinary K lib.scalar .add (.real a) (.real b) = .ok (.real (a + b)) := rfl

/-- Numbers are added up to their sum. -/
theorem joinAll_add (lib : FieldLibrary K) (a : K) (terms : List K) :
    @Value.joinAll K lib.scalar .add (.real a) (terms.map Value.real) =
      .ok (.real (a + terms.sum)) := by
  let := lib.scalar
  induction terms generalizing a with
  | nil =>
    rw [List.sum_nil, add_zero]
    rfl
  | cons t terms ih =>
    rw [List.map_cons, Value.joinAll, List.foldlM_cons, applyBinary_add, List.sum_cons, ← add_assoc]
    exact ih _

/-- Real terms are joined to their sum. -/
theorem joinAll_zero (lib : FieldLibrary K) (terms : List K) :
    @Value.joinAll K lib.scalar .add (.real (@Scalar.zero K lib.scalar)) (terms.map Value.real) =
      .ok (.real terms.sum) := by
  let := lib.scalar
  rw [zero_eq lib, joinAll_add, zero_add]

/-- Only numbers are added up to a number. -/
theorem eq_real_of_joinAll {values : List (Value K)}
    (h : @Value.joinAll K lib.scalar .add v values = .ok (.real c)) :
    ∃ (a : K) (terms : List K), v = .real a ∧ values = terms.map Value.real := by
  let := lib.scalar
  induction values generalizing v with
  | nil =>
    cases h
    exact ⟨c, [], rfl, rfl⟩
  | cons w values ih =>
    rw [Value.joinAll, List.foldlM_cons] at h
    obtain ⟨u, hu, h⟩ := bind_eq_ok.1 h
    obtain ⟨b, terms, rfl, rfl⟩ := ih h
    obtain ⟨a, t, rfl, rfl, -⟩ := Value.eq_real_of_arithmetic hu
    exact ⟨a, t :: terms, rfl, rfl⟩

variable {k : String} {start stop term : Expr K} {rest : List (Expr K)}

/-- A sum that is a number is the sum of the numbers that its term is in the range. -/
theorem HasValue.exists_of_sum
    (h : lib.HasValue ev scope (.builtin .sum (.var k :: start :: stop :: term :: rest)) (.real c)) :
    ∃ (a b : K) (terms : List K), lib.HasValue ev scope start (.real a) ∧
      lib.HasValue ev scope stop (.real b) ∧ lib.termCount ev a b = .ok terms.length ∧
      (∀ (i : ℕ) t, terms[i]? = some t →
        lib.HasValue ev (lib.loopScope scope k (a + i)) term (.real t)) ∧
      c = terms.sum := by
  let := lib.scalar
  obtain ⟨a, b, values, hstart, hstop, hcount, hterm, hsum⟩ := Evaluator.HasValue.of_sum h
  obtain ⟨-, terms, -, rfl⟩ := eq_real_of_joinAll hsum
  rw [List.length_map] at hcount
  refine ⟨a, b, terms, hstart, hstop, hcount, fun i t ht => hterm i _ ?_, ?_⟩
  · rw [List.getElem?_map, ht, Option.map_some]
  · rw [joinAll_zero] at hsum
    cases hsum
    rfl

/-- A sum has the value that its range and its term give it. -/
theorem HasAtMost.sum {terms : List K} (hstart : lib.HasAtMost ev scope start a)
    (hstop : lib.HasAtMost ev scope stop b) (hcount : lib.termCount ev a b = .ok terms.length)
    (hterm : ∀ (i : ℕ) t, terms[i]? = some t →
      lib.HasAtMost ev (lib.loopScope scope k (a + i)) term t) :
    lib.HasAtMost ev scope (.builtin .sum (.var k :: start :: stop :: term :: rest)) terms.sum := by
  let := lib.scalar
  intro v h
  obtain ⟨a', b', values, hstartv, hstopv, hcountv, htermv, hsum⟩ := Evaluator.HasValue.of_sum h
  cases hstart _ hstartv
  cases hstop _ hstopv
  have hlength : values.length = terms.length := Except.ok.inj (hcountv.symm.trans hcount)
  obtain rfl : values = terms.map Value.real := by
    refine List.ext_getElem (by rw [hlength, List.length_map]) fun i hi hi' => ?_
    rw [List.getElem_map]
    exact hterm i _ (by simp [hlength ▸ hi]) _ (htermv i _ (by simp [hi]))
  rw [joinAll_zero] at hsum
  cases hsum
  rfl

/-! ## The rational numbers -/

/-- The rational numbers, where powers have natural exponents. Nothing else that needs more than
fractions is defined. -/
def rationals : FieldLibrary ℚ where
  pi := 0
  euler := 0
  lt a b := decide (a < b)
  isOddInteger a := a.den = 1 && a.num % 2 = 1
  truncate a := a.num.tdiv a.den
  floor := Rat.floor
  abs a := if a < 0 then -a else a
  hypotenuse _ _ := 0
  angle _ _ := 0
  power a b := if b.den = 1 ∧ 0 ≤ b.num then some (a ^ b.num.toNat) else none
  function _ _ := none
  power_natCast {a p n} h := by
    rw [if_pos ⟨Rat.den_natCast n, Rat.num_nonneg.2 n.cast_nonneg⟩] at h
    cases h
    rw [Rat.num_natCast, Int.toNat_natCast]

end FieldLibrary

end Formulary
