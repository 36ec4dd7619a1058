import Formulary.Arithmetic.Elementary
import Formulary.Proofs.Number.Binary64
import Formulary.Value.Operation

/-!
# Comparisons

Two binary64 numbers stand in one of four relations: one is less, they are equal, one is greater, or
one of them is a NaN and there is no relation at all (`Binary64.relation`). Equality is decided by
itself, and the order by asking whether either number is below the other, so that numbers without a
relation count as equal in order. `Value.Relates` says what the six operators come to for each
relation, of real numbers and of booleans.

So the operators agree with each other as long as no NaN is compared (`Value.comparisons_agree`).
Beside a NaN both `>=` and `<=` are true, although `==`, `<` and `>` are all false.
-/

namespace Formulary

namespace Binary64

open Float.Model Float.Model.UnpackedFloat

/-- How two numbers compare. A NaN does not compare with anything. -/
def relation (x y : Float) : Option Ordering := x.toModel.unpack.compare y.toModel.unpack

/-- Less is one of the relations. -/
theorem lt_eq (x y : Float) : x.lt y = (relation x y == some .lt) := by
  show decide ((relation x y == some .lt) = true) = _
  rw [Bool.decide_eq_true]

/-- A lexicographic order, the other way round. -/
theorem swap_lexicographic (e e' : Int) (m m' : Nat) :
    ((compare e e').then (compare m m')).swap = (compare e' e).then (compare m' m) := by
  rw [Ordering.swap_then, Int.compare_swap, Nat.compare_swap]

/-- Compared the other way round, two numbers stand in the converse relation. -/
theorem compare_swap (u v : UnpackedFloat) : v.compare u = (u.compare v).map Ordering.swap := by
  cases u with
  | notANumber => cases v <;> rfl
  | infinity s =>
    cases v with
    | infinity s' => cases s <;> cases s' <;> rfl
    | _ => cases s <;> rfl
  | zero s =>
    cases v with
    | infinity s' => cases s' <;> rfl
    | finite s' m' e' hm' => cases s' <;> rfl
    | _ => rfl
  | finite s m e hm =>
    cases v with
    | notANumber => rfl
    | infinity s' => cases s' <;> cases s <;> rfl
    | zero s' => cases s <;> rfl
    | finite s' m' e' hm' =>
      have hswap := swap_lexicographic e e' m m'
      cases s with
      | positive =>
        cases s' with
        | positive => exact congrArg some hswap.symm
        | negative => rfl
      | negative =>
        cases s' with
        | positive => rfl
        | negative => exact congrArg (fun o => some o.swap) hswap.symm

/-- The relation the other way round. -/
theorem relation_swap (x y : Float) : relation y x = (relation x y).map Ordering.swap :=
  compare_swap _ _

/-- Only a NaN is in no relation. -/
theorem compare_eq_none_iff (u v : UnpackedFloat) :
    u.compare v = none ↔ u = .notANumber ∨ v = .notANumber := by
  fun_cases UnpackedFloat.compare u v <;> simp_all

/-- Only a NaN has no relation. -/
theorem relation_eq_none_iff (x y : Float) :
    relation x y = none ↔ x.isNaN = true ∨ y.isNaN = true := by
  rw [relation, compare_eq_none_iff, ← isNaN_iff, ← isNaN_iff]
  rfl

end Binary64

namespace Value

/-- Two values that every comparison is defined for and that are not widened: real numbers or
booleans. -/
inductive Comparable {α : Type} : Value α → Value α → Prop where
  | reals (a b : α) : Comparable (.real a) (.real b)
  | booleans (a b : Bool) : Comparable (.boolean a) (.boolean b)

/-- The comparison is true. -/
def Holds {α : Type} [Scalar α] (op : BinaryOp) (v w : Value α) : Prop :=
  v.applyBinary op w = .ok (.boolean true)

/-- The operators that compare. -/
def comparisons : List BinaryOp := [.equal, .notEqual, .less, .greater, .atMost, .atLeast]

/-- What the six comparisons come to. -/
structure Relates (v w : Value Float) (relation : Option Ordering) : Prop where
  equal : v.applyBinary .equal w = .ok (.boolean (relation == some .eq))
  notEqual : v.applyBinary .notEqual w = .ok (.boolean (relation != some .eq))
  less : v.applyBinary .less w = .ok (.boolean (relation == some .lt))
  greater : v.applyBinary .greater w = .ok (.boolean (relation == some .gt))
  atMost : v.applyBinary .atMost w = .ok (.boolean (relation != some .gt))
  atLeast : v.applyBinary .atLeast w = .ok (.boolean (relation != some .lt))

/-- The value is no number. -/
def isNaN : Value Float → Bool
  | real x => x.isNaN
  | _ => false

/-- The order of two real numbers: without a relation they count as equal. -/
theorem compare_eq (a b : Float) :
    RealFunction.compare a b = (Binary64.relation a b).getD .eq := by
  have hlt : Scalar.lt a b = (Binary64.relation a b == some .lt) := Binary64.lt_eq a b
  have hgt : Scalar.lt b a = (Binary64.relation b a == some .lt) := Binary64.lt_eq b a
  rw [Binary64.relation_swap] at hgt
  rw [RealFunction.compare, hlt, hgt]
  cases Binary64.relation a b with
  | none => rfl
  | some o => cases o <;> rfl

/-- Real numbers relate as they are. -/
theorem relates_reals (a b : Float) : Relates (.real a) (.real b) (Binary64.relation a b) := by
  have hordering : ordering (.real a) (.real b) = .ok ((Binary64.relation a b).getD .eq) := by
    rw [← compare_eq]
    rfl
  refine ⟨rfl, rfl, ?less, ?greater, ?atMost, ?atLeast⟩
  all_goals
    simp only [applyBinary, hordering, Except.map]
    cases Binary64.relation a b with
    | none => rfl
    | some o => cases o <;> rfl

/-- False is less than true. -/
theorem relates_booleans (a b : Bool) : Relates (.boolean a) (.boolean b) (some (compare a b)) := by
  cases a <;> cases b <;> exact ⟨rfl, rfl, rfl, rfl, rfl, rfl⟩

/-- What can be compared stands in a relation unless a NaN is compared, and in the converse relation
the other way round. -/
theorem Comparable.exists_relates {v w : Value Float} (h : Comparable v w) :
    ∃ relation : Option Ordering, Relates v w relation ∧ Relates w v (relation.map Ordering.swap) ∧
      (relation = none ↔ v.isNaN = true ∨ w.isNaN = true) := by
  cases h with
  | reals a b =>
    have hconverse := relates_reals b a
    rw [Binary64.relation_swap] at hconverse
    exact ⟨_, relates_reals a b, hconverse, Binary64.relation_eq_none_iff a b⟩
  | booleans a b =>
    have hswap : compare b a = (compare a b).swap := by
      cases a <;> cases b <;> rfl
    have hconverse := relates_booleans b a
    rw [hswap] at hconverse
    exact ⟨_, relates_booleans a b, hconverse, by simp [isNaN]⟩

/-- A comparison holds if its value is true. -/
theorem holds_iff {op : BinaryOp} {v w : Value Float} {b : Bool}
    (h : v.applyBinary op w = .ok (.boolean b)) : Holds op v w ↔ b = true := by
  rw [Holds, h, Except.ok.injEq, boolean.injEq]

/-- The six comparisons of two real numbers or two booleans are defined and agree with each other:
inequality is the opposite of equality, `<` is `>` the other way round, at most one of `<`, `==` and
`>` is true, and `>=` and `<=` are made of these, except that both are true if a NaN is compared. -/
theorem comparisons_agree {v w : Value Float} (h : Comparable v w) :
    (∀ op ∈ comparisons, ∃ b, v.applyBinary op w = .ok (.boolean b)) ∧
      (Holds .atLeast v w ↔
        Holds .greater v w ∨ Holds .equal v w ∨ v.isNaN = true ∨ w.isNaN = true) ∧
      (Holds .atMost v w ↔
        Holds .less v w ∨ Holds .equal v w ∨ v.isNaN = true ∨ w.isNaN = true) ∧
      (Holds .notEqual v w ↔ ¬ Holds .equal v w) ∧
      (Holds .less v w ↔ Holds .greater w v) ∧
      ¬ (Holds .less v w ∧ Holds .equal v w) ∧ ¬ (Holds .less v w ∧ Holds .greater v w) ∧
      ¬ (Holds .equal v w ∧ Holds .greater v w) := by
  obtain ⟨relation, hrelates, hconverse, hnone⟩ := h.exists_relates
  refine ⟨?_, ?_⟩
  · intro op hop
    simp only [comparisons, List.mem_cons, List.not_mem_nil, or_false] at hop
    rcases hop with rfl | rfl | rfl | rfl | rfl | rfl
    · exact ⟨_, hrelates.equal⟩
    · exact ⟨_, hrelates.notEqual⟩
    · exact ⟨_, hrelates.less⟩
    · exact ⟨_, hrelates.greater⟩
    · exact ⟨_, hrelates.atMost⟩
    · exact ⟨_, hrelates.atLeast⟩
  · rw [← hnone, holds_iff hrelates.equal, holds_iff hrelates.notEqual, holds_iff hrelates.less,
      holds_iff hrelates.greater, holds_iff hrelates.atMost, holds_iff hrelates.atLeast,
      holds_iff hconverse.greater]
    cases relation with
    | none => decide
    | some order => cases order <;> decide

/-- The two zeros are equal, so either is at least the other. -/
theorem comparisons_agree_zeros :
    Comparable (.real (-0.0)) (.real 0.0 : Value Float) ∧ Holds .atLeast (.real (-0.0)) (.real 0.0) :=
  ⟨.reals _ _, (comparisons_agree (.reals (-0.0) 0.0)).2.1.2 (.inr (.inl rfl))⟩

/-- Beside a NaN, `>=` is true although neither `>` nor `==` is. -/
theorem not_comparisons_agree_nan :
    ¬ (Holds .atLeast (.real Binary64.notANumber) (.real 1.0) ↔
      Holds .greater (.real Binary64.notANumber) (.real 1.0) ∨
        Holds .equal (.real Binary64.notANumber) (.real 1.0)) := by
  have hatLeast : Holds .atLeast (.real Binary64.notANumber) (.real 1.0) := rfl
  rintro h
  rcases h.1 hatLeast with hgreater | hequal
  · cases hgreater
  · cases hequal

end Value

end Formulary
