import Formulary.Proofs.Expr.Folding
import Formulary.Proofs.Number.Arithmetic

/-!
# What a series runs over

A series evaluates its term once for each number of a list, in order, and joins the values on the
way (`Evaluator.accumulate_eq_joinTerms`). The list has the numbers nearest to `start`, `start + 1`,
... up to `stop`, exactly. It can have one more: the terms are counted by the difference of the
bounds, which is rounded, and where it is rounded up to an integer this integer is counted too.
`Evaluator.Covers` says so, and `Evaluator.series_covers_range` that this is what a call of `sum` or
`prod` comes to.
-/

namespace Formulary.Evaluator

open Formulary.Expr Binary64

/-! ## The loop over a list -/

section Loop

variable {α : Type} [Scalar α]

/-- The values of a term for the numbers of a list, joined to a first value one after the other. -/
def joinTerms (op : BinaryOp) (term : α → Eval α (Value α)) (xs : List α) (first : Value α) :
    Eval α (Value α) :=
  xs.foldlM (fun result x => do
    let value ← term x
    Eval.of (result.applyBinary op value)) first

/-- What a series binds its variable to for the terms from `step` on, `count` of them. -/
def loopValues (start : α) (step count : Nat) : List α :=
  (List.range' step count).map fun k => start + Scalar.ofNat k

/-- The loop of a series joins the values of its term for these numbers. -/
theorem accumulate_eq_joinTerms (op : BinaryOp) (term : α → Eval α (Value α)) (start : α)
    (step count : Nat) (result : Value α) :
    accumulate op term start step count result =
      joinTerms op term (loopValues start step count) result := by
  induction count generalizing step result with
  | zero => rfl
  | succ count ih =>
    rw [accumulate, loopValues, List.range'_succ, List.map_cons, joinTerms, List.foldlM_cons,
      bind_assoc]
    exact bind_congr fun value => bind_congr fun joined => ih (step + 1) joined

end Loop

/-! ## The numbers of the loop -/

/-- `xs` runs from `a` to `b` in steps of one, as far as 53 bits of steps. -/
structure Covers (a b : Float) (xs : List Float) : Prop where
  /-- After `k` steps comes the number nearest to `a + k`. -/
  nearest : ∀ (k : Nat) (x : Float), k < 2 ^ 53 → xs[k]? = some x → IsNearest (toRat a + k) x
  /-- Every step up to `b` is taken, and the one after them if the difference is rounded to it. -/
  reaches : ∀ k : Nat, k < 2 ^ 53 → (k < xs.length ↔
    toRat a + k ≤ toRat b ∨ (toRat b < toRat a + k ∧ toRat (b - a) = k))
  /-- A step up to `b` is not rounded beyond it. -/
  below : ∀ (k : Nat) (x : Float), k < 2 ^ 53 → xs[k]? = some x → toRat a + k ≤ toRat b →
    toRat x ≤ toRat b

section Length

variable {a b : Float} {xs : List Float} (h : Covers a b xs) (hlength : xs.length < 2 ^ 53)
include h hlength

/-- Every step up to the end is taken, however many bits it has. -/
theorem Covers.lt_length_of_le {k : Nat} (hle : toRat a + k ≤ toRat b) : k < xs.length := by
  by_contra hk
  have hsteps : (xs.length : ℚ) ≤ k := by exact_mod_cast not_lt.1 hk
  have hnext : xs.length < xs.length := (h.reaches xs.length hlength).2 (.inl (by linarith))
  exact absurd hnext (Nat.lt_irrefl _)

/-- Where the difference of the bounds is not rounded, exactly the steps up to the end are taken. -/
theorem Covers.lt_length_iff (hexact : toRat (b - a) = toRat b - toRat a) (k : Nat) :
    k < xs.length ↔ toRat a + k ≤ toRat b := by
  refine ⟨fun hk => ?_, h.lt_length_of_le hlength⟩
  rcases (h.reaches k (hk.trans hlength)).1 hk with hle | ⟨hlt, heq⟩
  · exact hle
  · linarith

end Length

/-- A step of up to 53 bits does not leave the finite numbers. -/
theorem isNearest_add_ofNat {a : Float} (ha : isFinite a = true) {k : Nat} (hk : k < 2 ^ 53) :
    IsNearest (toRat a + k) (a + Float.ofNat k) := by
  obtain ⟨hfinite, hvalue⟩ := toRat_ofNat hk
  have hrounded := isRoundedTo_add ha hfinite
  rw [hvalue] at hrounded
  refine hrounded.nearest ?_
  have hmagnitude : |toRat a| ≤ largest := (abs_toRat a).trans_le (magnitude_le_largest ha)
  have hstep : |(k : ℚ)| < 2 ^ (970 : ℤ) := by
    rw [Nat.abs_cast]
    calc (k : ℚ) < 2 ^ (53 : ℤ) := by exact_mod_cast hk
      _ ≤ 2 ^ (970 : ℤ) := zpow_le_zpow_right₀ one_le_two (by decide)
  calc |toRat a + k| ≤ |toRat a| + |(k : ℚ)| := abs_add_le _ _
    _ < largest + 2 ^ (970 : ℤ) := add_lt_add_of_le_of_lt hmagnitude hstep

/-- The steps below the number of terms are those that a difference leaves room for. -/
theorem lt_toNat_floor_iff (span : Float) (k : Nat) :
    k < (Binary64.floor span + 1).toNat ↔ (k : ℚ) ≤ toRat span := by
  rw [Int.lt_toNat, Int.lt_add_one_iff, floor_eq, Int.le_floor, Int.cast_natCast]

/-- An infinite difference of the bounds either is too large or leaves no steps. -/
theorem span_of_infinite {span : Float} {q : ℚ} (hrounded : IsRoundedTo q span)
    (hinfinite : isFinite span = false) (hlt : Scalar.lt Scalar.zero span = false) :
    q < 0 ∧ toRat span < 0 := by
  have hle : overflow ≤ |q| := by
    by_contra h
    rw [(hrounded.nearest (not_le.1 h)).finite] at hinfinite
    cases hinfinite
  obtain ⟨hbits, hsign⟩ := hrounded.infinite hle
  have hspan := ofMagnitudeBits_magnitudeBits span
  rw [hbits, hsign] at hspan
  subst hspan
  by_cases hq : q < 0
  · refine ⟨hq, ?_⟩
    rw [decide_eq_true hq]
    have hmantissa : mantissa (ofMagnitudeBits true infinityBits) = 2 ^ 52 := rfl
    have hmagnitude : 0 < magnitude (ofMagnitudeBits true infinityBits) := by
      rw [magnitude, hmantissa]
      positivity
    exact neg_neg_of_pos hmagnitude
  · rw [decide_eq_false hq] at hlt
    cases hlt

variable {ev : Evaluator Float} {f : Builtin} {a b : Float} {count : Nat}

/-- Counting the terms by the rounded difference. -/
theorem count_eq (hcount : ev.termCount f a b = .ok count) :
    (isFinite (b - a) = true ∧ count = (Binary64.floor (b - a) + 1).toNat ∧
      Binary64.floor (b - a) < ev.maxSeriesTerms) ∨
    (isFinite (b - a) = false ∧ count = 0 ∧ Scalar.lt Scalar.zero (b - a) = false) := by
  have hfinite : Scalar.isFinite (b - a) = isFinite (b - a) := rfl
  have hfloor : Scalar.floor (b - a) = Binary64.floor (b - a) := rfl
  unfold termCount at hcount
  simp only [hfinite, hfloor] at hcount
  cases hspan : isFinite (b - a) with
  | true =>
    simp only [hspan, if_true] at hcount
    split at hcount
    · cases hcount
    · next hsmall =>
      cases hcount
      exact .inl ⟨rfl, rfl, not_le.1 hsmall⟩
  | false =>
    simp only [hspan, Bool.false_eq_true, if_false] at hcount
    split at hcount
    · cases hcount
    · next hpositive =>
      cases hcount
      exact .inr ⟨rfl, rfl, Bool.eq_false_of_not_eq_true hpositive⟩

/-- There are no more terms than there may be. -/
theorem count_le (hcount : ev.termCount f a b = .ok count) :
    count = 0 ∨ (count : ℤ) ≤ ev.maxSeriesTerms := by
  obtain ⟨-, rfl, hsmall⟩ | ⟨-, rfl, -⟩ := count_eq hcount
  · rcases Int.le_total (Binary64.floor (b - a) + 1) 0 with hnone | hsome
    · exact .inl (Int.toNat_of_nonpos hnone)
    · right
      rw [Int.toNat_of_nonneg hsome]
      exact hsmall
  · exact .inl rfl

/-- The steps that are counted are those up to the end, and the one that the difference is rounded
to. -/
theorem lt_count_iff (ha : isFinite a = true) (hb : isFinite b = true)
    (hcount : ev.termCount f a b = .ok count) {k : Nat} (hk : k < 2 ^ 53) : k < count ↔
      toRat a + k ≤ toRat b ∨ (toRat b < toRat a + k ∧ toRat (b - a) = k) := by
  have hrounded := isRoundedTo_sub hb ha
  rw [← le_sub_iff_add_le', ← sub_lt_iff_lt_add']
  obtain ⟨hspan, rfl, -⟩ | ⟨hspan, rfl, hlt⟩ := count_eq hcount
  · have hsmall : |toRat b - toRat a| < overflow := by
      by_contra hle
      obtain ⟨hbits, -⟩ := hrounded.infinite (not_lt.1 hle)
      rw [isFinite, hbits] at hspan
      cases hspan
    obtain ⟨hfinite, hvalue⟩ := toRat_ofNat hk
    have hreach := (hrounded.nearest hsmall).le_toRat_iff hfinite
    rw [hvalue] at hreach
    rw [lt_toNat_floor_iff, hreach]
  · obtain ⟨hq, hnegative⟩ := span_of_infinite hrounded hspan hlt
    have hstep : (0 : ℚ) ≤ k := Nat.cast_nonneg k
    constructor
    · exact fun h => absurd h (Nat.not_lt_zero k)
    · rintro (hle | ⟨-, heq⟩) <;> linarith

/-- The loop runs over its range. -/
theorem covers_loopValues (ha : isFinite a = true) (hb : isFinite b = true)
    (hcount : ev.termCount f a b = .ok count) : Covers a b (loopValues a 0 count) := by
  have hvalue : ∀ (k : Nat) (x : Float), k < 2 ^ 53 → (loopValues a 0 count)[k]? = some x →
      IsNearest (toRat a + k) x := by
    intro k x hk hx
    obtain ⟨i, hi, rfl⟩ := List.getElem?_map ▸ hx |> Option.map_eq_some_iff.1
    obtain ⟨-, rfl⟩ := List.getElem?_eq_some_iff.1 hi
    rw [List.getElem_range', Nat.zero_add, Nat.one_mul]
    exact isNearest_add_ofNat ha hk
  refine ⟨hvalue, fun k hk => ?_, fun k x hk hx hle => (hvalue k x hk hx).le_of_le hb hle⟩
  rw [loopValues, List.length_map, List.length_range']
  exact lt_count_iff ha hb hcount hk

/-! ## A call of a series -/

/-- A series with finite bounds that is not rejected runs over as many numbers as there are terms.
-/
theorem series_eq_joinTerms (ha : isFinite a = true) (hb : isFinite b = true)
    (hcount : ev.termCount f a b = .ok count) (term : Float → Eval Float (Value Float)) :
    ev.series f (.real a) (.real b) term =
      joinTerms (seriesOperator (α := Float) f).1 term (loopValues a 0 count)
        (seriesOperator f).2 := by
  have hbounds : bounds f (.real a) (.real b) = .ok (a, b) := by
    have hfinite : (Scalar.isFinite a && Scalar.isFinite b) = true := Bool.and_eq_true_iff.2 ⟨ha, hb⟩
    rw [bounds, if_pos hfinite]
  refine Eval.outcome_injective fun n => ?_
  rw [series, Eval.outcome_bind, hbounds, Eval.outcome_of]
  dsimp only
  rw [Eval.outcome_bind, hcount, Eval.outcome_of, ← accumulate_eq_joinTerms]

section Call

variable {scope : Scope Float} {depth n n₁ n₂ : Nat} {k : String} {start stop term : Expr Float}
  {rest : List (Expr Float)}

/-- A series with finite bounds that is not rejected evaluates its term once for each number from
the one to the other, in order, and for no other number but at most one that follows them. There is
none where the difference of the bounds is not rounded. -/
theorem series_covers_range (hf : f.isSeries = true)
    (hstart : (ev.evalAt scope (depth + 4) start).outcome n = (.ok (.real a), n₁))
    (hstop : (ev.evalAt scope (depth + 4) stop).outcome n₁ = (.ok (.real b), n₂))
    (ha : isFinite a = true) (hb : isFinite b = true) (hcount : ev.termCount f a b = .ok count) :
    ∃ xs : List Float, Covers a b xs ∧ xs.length = count ∧
      (xs = [] ∨ (xs.length : ℤ) ≤ ev.maxSeriesTerms) ∧
      (toRat (b - a) = toRat b - toRat a → xs.length < 2 ^ 53 →
        ∀ k : Nat, k < xs.length ↔ toRat a + k ≤ toRat b) ∧
      (ev.evalAt scope depth (.builtin f (.var k :: start :: stop :: term :: rest))).outcome n =
        (joinTerms (seriesOperator (α := Float) f).1
          (fun x => ev.evalAt (loopScope scope f k x) (depth + 4) term) xs
          (seriesOperator f).2).outcome n₂ := by
  have hlength : (loopValues a 0 count).length = count := by
    rw [loopValues, List.length_map, List.length_range']
  have hcovers : Covers a b (loopValues a 0 count) := covers_loopValues ha hb hcount
  refine ⟨loopValues a 0 count, hcovers, hlength, ?_, fun hexact hshort =>
    hcovers.lt_length_iff hshort hexact, ?_⟩
  · rw [← List.length_eq_zero_iff, hlength]
    exact count_le hcount
  · have hdeep : ¬ ev.isTooDeep (depth + 2) = true := by
      intro hdeep
      rw [evalAt_of_isTooDeep (isTooDeep_mono (by omega) hdeep)] at hstart
      cases hstart
    rw [evalAt, if_neg hdeep, evalCall_series _ _ _ hf, evalSeries, Eval.outcome_bind, hstart]
    dsimp only
    rw [Eval.outcome_bind, hstop]
    dsimp only
    rw [series_eq_joinTerms ha hb hcount]
    simp only [evalTerm]

/-- From one to two and a half in steps of one: the numbers one and two are added. -/
theorem series_covers_range_fractional :
    let ev : Evaluator Float := { draw := fun _ => 0.5 }
    let scope : Scope Float := .ofBindings [("x", .real 2.5)]
    let sum : Expr Float := .builtin .sum [.var "k", .const (.real 1.0), .var "x", .var "k"]
    (ev.evalAt scope 0 sum).outcome 0 = (.ok (.real 3.0), 0) ∧
      ∃ xs : List Float, Covers 1.0 2.5 xs ∧ xs.length = 2 ∧
        (xs = [] ∨ (xs.length : ℤ) ≤ ev.maxSeriesTerms) ∧
        (toRat (2.5 - 1.0) = toRat 2.5 - toRat 1.0 → xs.length < 2 ^ 53 →
          ∀ k : Nat, k < xs.length ↔ toRat 1.0 + k ≤ toRat 2.5) ∧
        (ev.evalAt scope 0 sum).outcome 0 =
          (joinTerms .add (fun x => ev.evalAt (loopScope scope .sum "k" x) 4 (.var "k")) xs
            (.real Scalar.zero)).outcome 0 := by
  intro ev scope sum
  have hsum : (0.0 : Float) + (1.0 + Float.ofNat 0) + (1.0 + Float.ofNat 1) = 3.0 := by rfl
  refine ⟨congrArg (fun x => (Except.ok (Value.real x), 0)) hsum, ?_⟩
  exact series_covers_range (by rfl) (by rfl) (by rfl) (by rfl) (by rfl) (by rfl)

/-- A bound just below zero is one whole step from minus one in rounded numbers: a sum of ones up to
it is two, and no numbers that stay within the bound add up to that. -/
theorem series_past_end :
    let ev : Evaluator Float := { draw := fun _ => 0.5 }
    let b := Binary64.nearest true 1 (tenTo 20)
    let scope : Scope Float := .ofBindings [("x", .real b)]
    let ones : Expr Float :=
      .builtin .sum [.var "k", .const (.real (-1.0)), .var "x", .const (.real 1.0)]
    (ev.evalAt scope 0 ones).outcome 0 = (.ok (.real 2.0), 0) ∧
      ∀ xs : List Float, (∀ k : Nat, k < xs.length ↔ toRat (-1.0) + k ≤ toRat b) →
        (joinTerms .add (fun x => ev.evalAt (loopScope scope .sum "k" x) 4 (.const (.real 1.0))) xs
          (.real Scalar.zero)).outcome 0 ≠ (.ok (.real 2.0), 0) := by
  refine ⟨by rfl, ?_⟩
  intro xs hrange hjoined
  have hstart : toRat (-1.0) = -1 := by
    show -(((2 ^ 52 : Nat) : ℚ) * 2 ^ (-52 : ℤ)) = -1
    norm_num
  have hend : toRat (Binary64.nearest true 1 (tenTo 20)) < 0 := by
    have hmantissa : 0 < mantissa (Binary64.nearest true 1 (tenTo 20)) := by decide
    exact neg_neg_of_pos (mul_pos (by exact_mod_cast hmantissa) (by positivity))
  have hshort : ¬ 1 < xs.length := by
    rw [hrange, hstart, Nat.cast_one, neg_add_cancel]
    exact not_le.2 hend
  have hbits {x y : Float} (h : (Except.ok (Value.real x), 0) =
      ((Except.ok (Value.real y), 0) : Except (EvalError Float) (Value Float) × Nat)) :
      x.toBits = y.toBits :=
    congrArg Float.toBits (Value.real.inj (Except.ok.inj (congrArg Prod.fst h)))
  -- no terms add up to zero, and one term to one
  match xs with
  | [] => exact absurd (hbits hjoined) (by decide)
  | [x] => exact absurd (hbits hjoined) (by decide)
  | x :: y :: xs => exact hshort (Nat.succ_lt_succ (Nat.succ_pos _))

end Call

end Formulary.Evaluator
