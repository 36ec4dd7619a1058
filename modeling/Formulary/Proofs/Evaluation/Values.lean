import Formulary.Proofs.Evaluation.Dependence

/-!
# The values of trees

A tree `HasValue` in a scope if an evaluation of it ends with that value, from some draw on. The
value of a tree is made of values of its parts, in the same scope or, for the term of a series, in a
scope that binds the loop variable. By itself a part has at least the room that it has in its tree,
and so it keeps its value (`Evaluator.HasValue.of_evalAt`). Values that are numbers come from
numbers: arithmetic does not lead back from the complex numbers.

A tree without random draws has one value at most (`Evaluator.HasValue.unique`).
-/

namespace Formulary

/-- Values joined to a first one, one after the other. -/
def Value.joinAll {α : Type} [Scalar α] (op : BinaryOp) (first : Value α)
    (values : List (Value α)) : Except (EvalError α) (Value α) :=
  values.foldlM (fun result v => result.applyBinary op v) first

namespace Value

variable {α : Type} {v w : Value α} {a b c : α}

section Functions

variable {f : UnaryOp} {onReal : α → Computed α α}
  {onComplex : Cartesian α → Computed α (Cartesian α)}

/-- A function of a number has the value that it has among the numbers. -/
theorem exists_real_of_function (h : function f onReal onComplex (.real a) = .ok v) :
    ∃ c, onReal a = .ok c ∧ v = .real c := by
  unfold function reportedFunction at h
  dsimp only at h
  split at h
  case h_1 c hc =>
    cases h
    exact ⟨c, hc, rfl⟩
  all_goals cases h

/-- The result of a function is a number if the argument is. -/
theorem eq_real_of_function (h : function f onReal onComplex v = .ok (.real c)) :
    ∃ a, v = .real a ∧ onReal a = .ok c := by
  cases v with
  | boolean b => cases h
  | real a =>
    obtain ⟨c', hc, heq⟩ := exists_real_of_function h
    cases heq
    exact ⟨a, rfl, hc⟩
  | complex z =>
    unfold function reportedFunction at h
    dsimp only at h
    split at h <;> cases h

end Functions

section Operators

variable [Scalar α] {op : BinaryOp} {onReals : α → α → Computed α α}
  {onComplexes : Cartesian α → Cartesian α → Computed α (Cartesian α)}

/-- An operator on numbers has the value that it has among the numbers. -/
theorem exists_real_of_arithmetic
    (h : arithmetic op onReals onComplexes (.real a) (.real b) = .ok v) :
    ∃ c, onReals a b = .ok c ∧ v = .real c := by
  unfold arithmetic reported at h
  dsimp only [promote?] at h
  split at h
  case h_1 c hc =>
    cases h
    exact ⟨c, hc, rfl⟩
  all_goals cases h

/-- The result of an operator is a number if both operands are. -/
theorem eq_real_of_arithmetic (h : arithmetic op onReals onComplexes v w = .ok (.real c)) :
    ∃ a b, v = .real a ∧ w = .real b ∧ onReals a b = .ok c := by
  have hcomplex : ∀ r : Computed α (Cartesian α), reported op v w complex r ≠ .ok (.real c) := by
    intro r
    unfold reported
    split <;> nofun
  cases v <;> cases w
  case real.real a b =>
    obtain ⟨c', hc, heq⟩ := exists_real_of_arithmetic h
    cases heq
    exact ⟨a, b, rfl, rfl, hc⟩
  case real.complex | complex.real | complex.complex => exact absurd h (hcomplex _)
  all_goals cases h

end Operators

end Value

namespace Evaluator

open Formulary.Expr

variable {α : Type} [Scalar α] {ev : Evaluator α} {scope scope' : Scope α} {e : Expr α}
  {v w : Value α} {depth n m : Nat}

/-- Evaluating the tree can end with this value. -/
def HasValue (ev : Evaluator α) (scope : Scope α) (e : Expr α) (v : Value α) : Prop :=
  ∃ n m, (ev.evaluate scope e).outcome n = (.ok v, m)

/-- What has a value below other nodes has it by itself. -/
theorem HasValue.of_evalAt (hdepth : 2 ≤ depth)
    (h : (ev.evalAt scope depth e).outcome n = (.ok v, m)) : ev.HasValue scope e v :=
  ⟨n, m, (evalAt_within e (.of_le ev hdepth) (.refl ev _ scope)).outcome_ok h⟩

/-- What has a value anywhere has it without a limit. -/
theorem HasValue.unlimited_of_evalAt (h : (ev.evalAt scope depth e).outcome n = (.ok v, m)) :
    ev.unlimited.HasValue scope e v :=
  ⟨n, m, (evalAt_unlimited e scope depth 2).outcome_ok h⟩

/-- A value remains without a limit. -/
theorem HasValue.unlimited (h : ev.HasValue scope e v) : ev.unlimited.HasValue scope e v := by
  obtain ⟨n, m, h⟩ := h
  exact .unlimited_of_evalAt h

omit [Scalar α] in
/-- What has a value is not too deep. -/
theorem outcome_of_guard {x : Eval α (Value α)}
    (h : (if ev.isTooDeep depth then throw .tooDeep else x).outcome n = (.ok v, m)) :
    x.outcome n = (.ok v, m) := by
  split at h
  · cases h
  · exact h

/-- Without a limit, values do not depend on what a tree does not depend on. -/
theorem HasValue.of_lookup (hev : ¬ ev.IsLimited) (h : ev.HasValue scope e v)
    (hlookup : ∀ name ∈ e.dependence.names, scope.lookup name = scope'.lookup name) :
    ev.HasValue scope' e v := by
  obtain ⟨n, m, h⟩ := h
  refine ⟨n, m, ?_⟩
  rwa [evaluate, ← evalAt_eq_of_not_isLimited hev hlookup 2 2]

/-- Without random draws, there is one outcome. -/
theorem exists_evalAt_eq (he : e.isDeterministic = true) (ev : Evaluator α) (scope : Scope α)
    (depth : Nat) : ∃ r, ev.evalAt scope depth e = Eval.of r := by
  have hdrawless : Eval.Drawless (ev.evalAt scope depth e)
      ((ev.withDraw ev.draw).evalAt scope depth e) := evalAt_drawless e he scope depth
  obtain ⟨r, hr, -⟩ := hdrawless
  exact ⟨r, hr⟩

theorem exists_evaluate_eq (he : e.isDeterministic = true) (ev : Evaluator α) (scope : Scope α) :
    ∃ r, ev.evaluate scope e = Eval.of r :=
  exists_evalAt_eq he ev scope 2

/-- Without random draws, there is one value at most. -/
theorem HasValue.unique (he : e.isDeterministic = true) (hv : ev.HasValue scope e v)
    (hw : ev.HasValue scope e w) : v = w := by
  obtain ⟨n, m, hv⟩ := hv
  obtain ⟨n', m', hw⟩ := hw
  obtain ⟨r, hr⟩ := exists_evaluate_eq he ev scope
  rw [hr, Eval.outcome_of] at hv hw
  cases hv
  cases hw
  rfl

/-- Without random draws, the draws do not matter. -/
theorem HasValue.withDraw (he : e.isDeterministic = true) (hv : ev.HasValue scope e v)
    (draw : Nat → α) : (ev.withDraw draw).HasValue scope e v := by
  obtain ⟨n, m, hv⟩ := hv
  have hdrawless : Eval.Drawless (ev.evalAt scope 2 e) ((ev.withDraw draw).evalAt scope 2 e) :=
    evalAt_drawless e he scope 2
  obtain ⟨r, hr, hr'⟩ := hdrawless
  exact ⟨n, m, by rwa [evaluate, hr', ← hr]⟩

/-! ## Values of parts -/

/-- A constant has its value only. -/
theorem HasValue.of_const {origin : Option Origin}
    (h : ev.HasValue scope (.const w origin) v) : v = w := by
  obtain ⟨n, m, h⟩ := h
  rw [evaluate, evalAt] at h
  cases outcome_of_guard h
  rfl

/-- A variable has the value that it is bound to. -/
theorem HasValue.of_var {name : String} (h : ev.HasValue scope (.var name) v) :
    scope.lookup name = .ok v := by
  obtain ⟨n, m, h⟩ := h
  rw [evaluate, evalAt, evalVar] at h
  exact congrArg Prod.fst (outcome_of_guard (outcome_of_guard h))

/-- The value of an operator comes from values of its operands. -/
theorem HasValue.of_binary {op : BinaryOp} {l r : Expr α}
    (h : ev.HasValue scope (.binary op l r) v) :
    ∃ a b, ev.HasValue scope l a ∧ ev.HasValue scope r b ∧ a.applyBinary op b = .ok v := by
  obtain ⟨n, m, h⟩ := h
  rw [evaluate, evalAt] at h
  obtain ⟨a, k, ha, h⟩ := Eval.outcome_bind_eq_ok.1 (outcome_of_guard h)
  obtain ⟨b, k', hb, h⟩ := Eval.outcome_bind_eq_ok.1 h
  exact ⟨a, b, .of_evalAt (by decide) ha, .of_evalAt (by decide) hb, congrArg Prod.fst h⟩

/-- The value of a function comes from a value of its operand. -/
theorem HasValue.of_unary {f : UnaryOp} {x : Expr α} (h : ev.HasValue scope (.unary f x) v) :
    ∃ a, ev.HasValue scope x a ∧ a.applyUnary f = .ok v := by
  obtain ⟨n, m, h⟩ := h
  rw [evaluate, evalAt] at h
  obtain ⟨a, k, ha, h⟩ := Eval.outcome_bind_eq_ok.1 (outcome_of_guard h)
  exact ⟨a, .of_evalAt (by decide) ha, congrArg Prod.fst h⟩

/-! ## Values from parts

Without a limit, parts that take no draws make a value wherever they stand. -/

/-- The outcome at any depth is the one at the root. -/
theorem evalAt_eq_of_unlimited (hev : ev.maxPending = none) (scope : Scope α) (depth : Nat)
    (e : Expr α) : ev.evalAt scope depth e = ev.evaluate scope e :=
  evalAt_eq_of_not_isLimited (fun hlimited => hlimited hev) (fun _ _ => rfl) depth 2

/-- Without random draws, a value is the outcome from every draw on. -/
theorem HasValue.evaluate_eq (he : e.isDeterministic = true) (h : ev.HasValue scope e v) :
    ev.evaluate scope e = Eval.of (.ok v) := by
  obtain ⟨n, m, h⟩ := h
  obtain ⟨r, hr⟩ := exists_evaluate_eq he ev scope
  rw [hr] at h ⊢
  cases h
  rfl

/-- The values of two operands make the value of an operator. -/
theorem HasValue.binary {op : BinaryOp} {l r : Expr α} {a b : Value α} (hev : ev.maxPending = none)
    (hl : l.isDeterministic = true) (hr : r.isDeterministic = true) (ha : ev.HasValue scope l a)
    (hb : ev.HasValue scope r b) (h : a.applyBinary op b = .ok v) :
    ev.HasValue scope (.binary op l r) v := by
  refine ⟨0, 0, ?_⟩
  rw [evaluate, evalAt, isTooDeep, hev, CallLimit.isExceeded_none, if_neg Bool.false_ne_true,
    evalAt_eq_of_unlimited hev, evalAt_eq_of_unlimited hev, ha.evaluate_eq hl, hb.evaluate_eq hr]
  exact congrArg (·, 0) h

section Numbers

variable {op : BinaryOp} {l r x : Expr α} {f : UnaryOp} {a b c : α}
  {onReals : α → α → Computed α α}
  {onComplexes : Cartesian α → Cartesian α → Computed α (Cartesian α)}
  {onReal : α → Computed α α} {onComplex : Cartesian α → Computed α (Cartesian α)}

/-- A number that an operator results in comes from numbers. -/
theorem HasValue.exists_of_arithmetic
    (hop : ∀ v w : Value α, v.applyBinary op w = Value.arithmetic op onReals onComplexes v w)
    (h : ev.HasValue scope (.binary op l r) (.real c)) :
    ∃ a b, ev.HasValue scope l (.real a) ∧ ev.HasValue scope r (.real b) ∧ onReals a b = .ok c := by
  obtain ⟨_, _, hl, hr, hvalue⟩ := h.of_binary
  rw [hop] at hvalue
  obtain ⟨a, b, rfl, rfl, hc⟩ := Value.eq_real_of_arithmetic hvalue
  exact ⟨a, b, hl, hr, hc⟩

/-- An operator on parts whose values are given numbers results in a number. -/
theorem HasValue.exists_real_of_arithmetic
    (hop : ∀ v w : Value α, v.applyBinary op w = Value.arithmetic op onReals onComplexes v w)
    (hl : ∀ v, ev.HasValue scope l v → v = .real a) (hr : ∀ v, ev.HasValue scope r v → v = .real b)
    (h : ev.HasValue scope (.binary op l r) v) : ∃ c, onReals a b = .ok c ∧ v = .real c := by
  obtain ⟨_, _, hlv, hrv, hv⟩ := h.of_binary
  rw [hop, hl _ hlv, hr _ hrv] at hv
  exact Value.exists_real_of_arithmetic hv

/-- A number that a function results in comes from a number. -/
theorem HasValue.exists_of_function
    (hf : ∀ v : Value α, v.applyUnary f = Value.function f onReal onComplex v)
    (h : ev.HasValue scope (.unary f x) (.real c)) :
    ∃ a, ev.HasValue scope x (.real a) ∧ onReal a = .ok c := by
  obtain ⟨_, hx, hvalue⟩ := h.of_unary
  rw [hf] at hvalue
  obtain ⟨a, rfl, hc⟩ := Value.eq_real_of_function hvalue
  exact ⟨a, hx, hc⟩

/-- A function of a part whose value is a given number results in a number. -/
theorem HasValue.exists_real_of_function
    (hf : ∀ v : Value α, v.applyUnary f = Value.function f onReal onComplex v)
    (hx : ∀ v, ev.HasValue scope x v → v = .real a) (h : ev.HasValue scope (.unary f x) v) :
    ∃ c, onReal a = .ok c ∧ v = .real c := by
  obtain ⟨_, hxv, hv⟩ := h.of_unary
  rw [hf, hx _ hxv] at hv
  exact Value.exists_real_of_function hv

end Numbers

/-- The values of the terms, joined one after the other. -/
theorem exists_values_of_accumulate {op : BinaryOp} {term : α → Eval α (Value α)} {start : α}
    {step count : Nat} {result : Value α}
    (h : (accumulate op term start step count result).outcome n = (.ok v, m)) :
    ∃ values : List (Value α), values.length = count ∧
      (∀ index w, values[index]? = some w → ∃ n m,
        (term (start + Scalar.ofNat (step + index))).outcome n = (.ok w, m)) ∧
      result.joinAll op values = .ok v := by
  induction count generalizing step result n with
  | zero =>
    rw [accumulate] at h
    cases h
    exact ⟨[], rfl, by rintro index w ⟨⟩, rfl⟩
  | succ count ih =>
    rw [accumulate] at h
    obtain ⟨w, k, hw, h⟩ := Eval.outcome_bind_eq_ok.1 h
    obtain ⟨joined, k', hjoined, h⟩ := Eval.outcome_bind_eq_ok.1 h
    obtain ⟨values, hlength, hvalues, hfold⟩ := ih h
    have hstep : result.applyBinary op w = .ok joined := congrArg Prod.fst hjoined
    refine ⟨w :: values, by rw [List.length_cons, hlength], fun index u hu => ?_, ?_⟩
    · cases index with
      | zero =>
        cases hu
        exact ⟨n, k, hw⟩
      | succ index =>
        obtain ⟨n', m', h'⟩ := hvalues index u hu
        exact ⟨n', m', by rwa [Nat.add_right_comm] at h'⟩
    · rw [Value.joinAll, List.foldlM_cons, hstep]
      exact hfold

/-- The bounds of a series are real numbers. -/
theorem eq_real_of_bounds {f : Builtin} {a b : α} (h : bounds f v w = .ok (a, b)) :
    v = .real a ∧ w = .real b := by
  unfold bounds at h
  split at h
  · split at h
    · cases h
      exact ⟨rfl, rfl⟩
    · cases h
  · cases h
  · cases h

/-- The value of a sum: the values that the term has for each number of the range, added up. -/
theorem HasValue.of_sum {k : String} {start stop term : Expr α} {rest : List (Expr α)}
    (h : ev.HasValue scope (.builtin .sum (.var k :: start :: stop :: term :: rest)) v) :
    ∃ (a b : α) (values : List (Value α)), ev.HasValue scope start (.real a) ∧
      ev.HasValue scope stop (.real b) ∧ ev.termCount .sum a b = .ok values.length ∧
      (∀ index w, values[index]? = some w →
        ev.HasValue (loopScope scope .sum k (a + Scalar.ofNat index)) term w) ∧
      (Value.real Scalar.zero).joinAll .add values = .ok v := by
  obtain ⟨n, m, h⟩ := h
  rw [evaluate, evalAt, evalCall, evalSeries] at h
  obtain ⟨first, n₁, hfirst, h⟩ := Eval.outcome_bind_eq_ok.1 (outcome_of_guard h)
  obtain ⟨last, n₂, hlast, h⟩ := Eval.outcome_bind_eq_ok.1 h
  obtain ⟨⟨a, b⟩, n₃, hbounds, h⟩ := Eval.outcome_bind_eq_ok.1 h
  obtain ⟨count, n₄, hcount, h⟩ := Eval.outcome_bind_eq_ok.1 h
  obtain ⟨values, rfl, hvalues, hfold⟩ := exists_values_of_accumulate h
  obtain ⟨rfl, rfl⟩ : first = .real a ∧ last = .real b :=
    eq_real_of_bounds (congrArg Prod.fst hbounds)
  refine ⟨a, b, values, .of_evalAt (by decide) hfirst, .of_evalAt (by decide) hlast,
    congrArg Prod.fst hcount, fun index w hw => ?_, hfold⟩
  obtain ⟨n', m', hterm⟩ := hvalues index w hw
  rw [evalTerm, Nat.zero_add] at hterm
  exact .of_evalAt (by decide) hterm

end Evaluator

end Formulary
