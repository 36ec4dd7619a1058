import Formulary.Proofs.Arithmetic.Field
import Formulary.Proofs.Calculus.Rules
import Formulary.Proofs.Expr.Reading
import Mathlib.Tactic.Ring

/-!
# Antiderivatives are right

A formula that has an antiderivative is affine in the variable, and its antiderivative grows between
two numbers by their distance times the mean of the values at both
(`FieldLibrary.trapezoid_of_integrate`). The field is any of characteristic zero.

Along the variable, all other names keep their values, and so does every tree that does not contain
it. There are numbers `m` and `c`, then, such that the formula is `m * u + c` at `u` and its
antiderivative `m * (u^2 / 2) + c * u`. Both are linear in `m` and `c`, which is what differences
and sums keep (`FieldLibrary.IsCombination`). A sum adds up the numbers of its terms, which depend
on the loop variable but not on the variable.
-/

namespace Formulary

/-! ## Scopes along a variable -/

section Scopes

variable {α : Type} {scope : Scope α} {x name : String} {v w : Value α}

theorem Bindings.names_insert (x : String) (v w : Value α) (bindings : Bindings α) :
    (bindings.insert x v).names = (bindings.insert x w).names := by
  induction bindings with
  | nil => rfl
  | cons b rest ih =>
    rw [insert, insert]
    split
    · rfl
    · exact congrArg (b.1 :: ·) ih

theorem Scope.get?_define (scope : Scope α) (x name : String) (v : Value α) :
    (scope.define x v).get? name = if x = name then some v else scope.get? name := by
  have hinner : ((scope.define x v).inner.bindings.get? name) =
      if x = name then some v else scope.inner.bindings.get? name := Bindings.get?_insert x v _
  rw [get?, get?, frames, frames, List.findSome?_cons, List.findSome?_cons, hinner]
  by_cases h : x = name
  · rw [if_pos h, if_pos h]
  · rw [if_neg h, if_neg h]
    rfl

theorem Scope.lookup_define_self : (scope.define x v).lookup x = .ok v := by
  rw [lookup, get?_define, if_pos rfl]

/-- The value of one name does not show in another. A report of an unbound name lists names only. -/
theorem Scope.lookup_define_of_ne (hname : name ≠ x) (v w : Value α) :
    (scope.define x v).lookup name = (scope.define x w).lookup name := by
  have hnames : (scope.define x v).outermost.bindings.names =
      (scope.define x w).outermost.bindings.names := by
    rcases scope with ⟨inner, _ | ⟨f, outer⟩⟩
    · exact Bindings.names_insert x v w inner.bindings
    · rfl
  rw [lookup, lookup, get?_define, get?_define, if_neg hname.symm, if_neg hname.symm, hnames]

end Scopes

variable {K : Type} [Field K] [DecidableEq K]

variable {lib : FieldLibrary K} {ev : Evaluator K} {scope : Scope K} {σ : K → Scope K}
  {x k : String} {e f f' g g' start stop term : Expr K} {rest : List (Expr K)}
  {a b c d m p q u v : K} {n : ℕ}

/-- Scopes that differ in the number of `x` only. -/
structure Scope.Along (x : String) (σ : K → Scope K) : Prop where
  variable_ (u : K) : (σ u).lookup x = .ok (.real u)
  other {name : String} (hname : name ≠ x) (u v : K) : (σ u).lookup name = (σ v).lookup name

omit [Field K] [DecidableEq K] in
/-- Binding the variable to different numbers. -/
theorem Scope.along_define (scope : Scope K) (x : String) :
    Scope.Along x fun u => scope.define x (.real u) where
  variable_ _ := lookup_define_self
  other hname _ _ := lookup_define_of_ne hname _ _

/-- A loop variable is one of the other names. -/
theorem Scope.Along.loopScope (hσ : Scope.Along x σ) (hk : k ≠ x) (a : K) :
    Scope.Along x fun u => lib.loopScope (σ u) k a where
  variable_ u := by
    rw [FieldLibrary.lookup_loopScope, if_neg hk]
    exact hσ.variable_ u
  other hname u v := by
    rw [FieldLibrary.lookup_loopScope, FieldLibrary.lookup_loopScope, hσ.other hname u v]

namespace FieldLibrary

open Formulary.Expr

/-- The tree keeps its value along the scopes. -/
def IsConstant (lib : FieldLibrary K) (ev : Evaluator K) (σ : K → Scope K) (e : Expr K) : Prop :=
  ∀ ⦃u v a b⦄, lib.HasValue ev (σ u) e (.real a) → lib.HasValue ev (σ v) e (.real b) → a = b

/-- A tree without the variable is constant. -/
theorem isConstant_of_not_mem (hev : ¬ ev.IsLimited) (hσ : Scope.Along x σ)
    (he : e.isDeterministic = true) (hx : x ∉ e.freeVars) : lib.IsConstant ev σ e := by
  intro u v a b ha hb
  have ha' : lib.HasValue ev (σ v) e (.real a) :=
    ha.of_freeVars hev fun name hname => hσ.other (ne_of_mem_of_not_mem hname hx) u v
  exact Value.real.inj (hb.hasAtMost he _ ha')

/-! ## Linear combinations -/

/-- The tree has no other number for a value than `m * p + c * q`. -/
def IsCombination (lib : FieldLibrary K) (ev : Evaluator K) (scope : Scope K) (e : Expr K)
    (m c p q : K) : Prop :=
  ∀ a, lib.HasValue ev scope e (.real a) → a = m * p + c * q

/-- A difference combines what its operands combine. -/
theorem IsCombination.sub (hf : lib.IsCombination ev scope f m c p q)
    (hg : lib.IsCombination ev scope g a b p q) :
    lib.IsCombination ev scope (.binary .sub f g) (m - a) (c - b) p q := by
  intro d hd
  obtain ⟨s, t, hs, ht, rfl⟩ := hd.exists_of_sub
  rw [hf s hs, hg t ht]
  ring

/-- A sum combines what its terms combine. -/
theorem IsCombination.sum {mᵢ cᵢ : K → K}
    (hstart : ∀ a', lib.HasValue ev scope start (.real a') → a' = a)
    (hstop : ∀ b', lib.HasValue ev scope stop (.real b') → b' = b)
    (hcount : lib.termCount ev a b = .ok n)
    (hterm : ∀ i, lib.IsCombination ev (lib.loopScope scope k i) term (mᵢ i) (cᵢ i) p q) :
    lib.IsCombination ev scope (.builtin .sum (.var k :: start :: stop :: term :: rest))
      ((List.range n).map fun i : ℕ => mᵢ (a + i)).sum
      ((List.range n).map fun i : ℕ => cᵢ (a + i)).sum p q := by
  intro d hd
  obtain ⟨a', b', terms, ha, hb, hcount', hterms, rfl⟩ := hd.exists_of_sum
  obtain rfl := hstart a' ha
  obtain rfl := hstop b' hb
  obtain rfl : terms.length = n := Except.ok.inj (hcount'.symm.trans hcount)
  have hmap : terms =
      (List.range terms.length).map fun i : ℕ => mᵢ (a' + i) * p + cᵢ (a' + i) * q := by
    refine List.ext_getElem (by rw [List.length_map, List.length_range]) fun i hi _ => ?_
    rw [List.getElem_map, List.getElem_range]
    exact hterm _ _ (hterms i _ (List.getElem?_eq_getElem hi))
  rw [← List.sum_map_mul_right, ← List.sum_map_mul_right, ← List.sum_map_add, ← hmap]

/-! ## Trees and their antiderivatives -/

/-- At each number `u` the first tree is `m * u + c`, and the second `m * (u^2 / 2) + c * u`. -/
structure IsPrimitive (lib : FieldLibrary K) (ev : Evaluator K) (σ : K → Scope K) (f f' : Expr K)
    (m c : K) : Prop where
  affine (u : K) : lib.IsCombination ev (σ u) f m c u 1
  primitive (u : K) : lib.IsCombination ev (σ u) f' m c (u ^ 2 / 2) u

/-- The value of the variable. -/
theorem HasValue.of_variable (hσ : Scope.Along x σ) (h : lib.HasValue ev (σ u) (.var x) (.real a)) :
    a = u := by
  cases (hσ.variable_ u).symm.trans h.of_var
  rfl

/-- A constant times the variable. -/
theorem exists_isPrimitive_of_isConstant (hσ : Scope.Along x σ) (he : lib.IsConstant ev σ e) :
    ∃ m c, lib.IsPrimitive ev σ e (.binary .mul e (.var x)) m c := by
  by_cases hvalue : ∃ u a, lib.HasValue ev (σ u) e (.real a)
  · obtain ⟨v, c, hc⟩ := hvalue
    refine ⟨0, c, fun u a ha => ?_, fun u d hd => ?_⟩
    · rw [he ha hc]
      ring
    · obtain ⟨a, b, ha, hb, rfl⟩ := hd.exists_of_mul
      rw [he ha hc, hb.of_variable hσ]
      ring
  · refine ⟨0, 0, fun u a ha => absurd ⟨u, a, ha⟩ hvalue, fun u d hd => ?_⟩
    obtain ⟨a, -, ha, -⟩ := hd.exists_of_mul
    exact absurd ⟨u, a, ha⟩ hvalue

/-- Half the square of the variable. -/
theorem isPrimitive_var (hσ : Scope.Along x σ) :
    lib.IsPrimitive ev σ (.var x)
      (.binary .div (.binary .pow (.var x) (lib.number 2)) (lib.number 2)) 1 0 where
  affine u a ha := by
    rw [ha.of_variable hσ]
    ring
  primitive u d hd := by
    obtain ⟨s, t, hs, ht, -, rfl⟩ := hd.exists_of_div
    obtain ⟨a, b, ha, hb, hpower⟩ := hs.exists_of_pow
    cases hasAtMost_number _ ht
    cases hasAtMost_number _ hb
    rw [lib.power_natCast hpower, ha.of_variable hσ, Nat.cast_ofNat]
    ring

/-- A difference of antiderivatives. -/
theorem IsPrimitive.sub (hf : lib.IsPrimitive ev σ f f' m c) (hg : lib.IsPrimitive ev σ g g' a b) :
    lib.IsPrimitive ev σ (.binary .sub f g) (.binary .sub f' g') (m - a) (c - b) where
  affine u := (hf.affine u).sub (hg.affine u)
  primitive u := (hf.primitive u).sub (hg.primitive u)

/-- Term by term, if the range is constant. -/
theorem exists_isPrimitive_sum {term' : Expr K} (hstart : lib.IsConstant ev σ start)
    (hstop : lib.IsConstant ev σ stop)
    (hterm : ∀ i, ∃ m c, lib.IsPrimitive ev (fun u => lib.loopScope (σ u) k i) term term' m c) :
    ∃ m c, lib.IsPrimitive ev σ (.builtin .sum (.var k :: start :: stop :: term :: rest))
      (.builtin .sum [.var k, start, stop, term']) m c := by
  by_cases hrange : ∃ u a b n, lib.HasValue ev (σ u) start (.real a) ∧
      lib.HasValue ev (σ u) stop (.real b) ∧ lib.termCount ev a b = .ok n
  · obtain ⟨v, a, b, n, ha, hb, hcount⟩ := hrange
    choose mᵢ cᵢ hterms using hterm
    refine ⟨((List.range n).map fun i : ℕ => mᵢ (a + i)).sum,
      ((List.range n).map fun i : ℕ => cᵢ (a + i)).sum, fun u => ?_, fun u => ?_⟩
    · exact IsCombination.sum (fun _ h => hstart h ha) (fun _ h => hstop h hb) hcount
        fun i => (hterms i).affine u
    · exact IsCombination.sum (fun _ h => hstart h ha) (fun _ h => hstop h hb) hcount
        fun i => (hterms i).primitive u
  · -- no sum over such a range has a value
    refine ⟨0, 0, fun u d hd => ?_, fun u d hd => ?_⟩ <;>
    · obtain ⟨a, b, terms, ha, hb, hcount, -⟩ := hd.exists_of_sum
      exact absurd ⟨u, a, b, _, ha, hb, hcount⟩ hrange

variable {ρ : Reading K}

theorem read_number_two (lib : FieldLibrary K) (hρ : ρ.real 2 = 2) :
    (Expr.number 2).read ρ = lib.number 2 := by
  have htwo : (Expr.number 2).read ρ = .const (.real (ρ.real 2)) := by
    rw [Expr.number, Expr.read, Reading.value]
    rfl
  rw [htwo, hρ, ← Nat.cast_ofNat]
  rfl

/-- A tree that has an antiderivative is affine, and the antiderivative is right. -/
theorem exists_isPrimitive_of_integrate (hev : ¬ ev.IsLimited) (hρ : ρ.real 2 = 2)
    {t F : Expr Float} (ht : t.isDeterministic = true) {limit : CallLimit} {depth : ℕ}
    (hF : t.integrate limit x depth = .ok F) (hσ : Scope.Along x σ) :
    ∃ m c, lib.IsPrimitive ev σ (t.read ρ) (F.read ρ) m c := by
  fun_induction Expr.integrate limit x depth t generalizing F σ with
  | case1 => cases hF
  | case2 depth _ v origin =>
    cases hF
    simp only [Expr.read]
    exact exists_isPrimitive_of_isConstant hσ
      (isConstant_of_not_mem hev hσ (by rw [isDeterministic]) (by simp [freeVars]))
  | case3 depth _ name =>
    cases hF
    split
    · next hname =>
      subst hname
      simp only [Expr.read, read_number_two lib hρ]
      exact ⟨1, 0, isPrimitive_var hσ⟩
    · next hname =>
      simp only [Expr.read]
      exact exists_isPrimitive_of_isConstant hσ (isConstant_of_not_mem hev hσ
        (by rw [isDeterministic]) (by simpa [freeVars] using Ne.symm hname))
  | case4 depth _ f g ihf ihg =>
    obtain ⟨f', hf, hF⟩ := bind_eq_ok.1 hF
    obtain ⟨g', hg, hF⟩ := bind_eq_ok.1 hF
    cases hF
    obtain ⟨m, c, hprimitive⟩ := ihf (isDeterministic_of_mem_children ht (by simp [children])) hf hσ
    obtain ⟨a, b, hprimitive'⟩ := ihg (isDeterministic_of_mem_children ht (by simp [children])) hg hσ
    simp only [Expr.read]
    exact ⟨m - a, c - b, hprimitive.sub hprimitive'⟩
  | case5 depth _ k start stop term rest ih =>
    obtain ⟨hk, hrange, term', hterm, rfl⟩ := ok_of_summation hF
    obtain ⟨hxstart, hxstop⟩ := rangeError?_eq_none hrange
    have hpart : ∀ child ∈ [start, stop, term], child.isDeterministic = true := fun child hchild =>
      isDeterministic_of_mem_children ht (List.mem_cons_of_mem _ (List.mem_append_left rest hchild))
    simp only [List.forall_mem_cons] at hpart
    obtain ⟨hstart, hstop, hterm', -⟩ := hpart
    have hconstant : ∀ bound : Expr Float, bound.isDeterministic = true → x ∉ bound.freeVars →
        lib.IsConstant ev σ (bound.read ρ) := fun bound hbound hx =>
      isConstant_of_not_mem hev hσ ((isDeterministic_read bound).trans hbound) (by rwa [freeVars_read])
    simp only [Expr.read, readAll]
    exact exists_isPrimitive_sum (hconstant start hstart hxstart) (hconstant stop hstop hxstop)
      fun i => ih hterm' hterm (hσ.loopScope hk i)
  | case6 => cases hF
  | case7 => cases hF

/-- Antiderivatives are right. Read a formula without random draws that has an antiderivative, and
the antiderivative, over a field of characteristic zero, such that two is two. Whatever the other
variables are bound to, the formula is affine in the variable. Between any two numbers where it and
the antiderivative have numbers for values, the antiderivative grows by the distance of the two
times the mean of the values of the formula.

No more is asked of boolean constants: where one matters, there is no number for a value. -/
theorem trapezoid_of_integrate [CharZero K] (lib : FieldLibrary K) (ev : Evaluator K) (ρ : Reading K)
    (hρ : ρ.real 2 = 2) (t F : Expr Float) (ht : ¬ t.ReachesRand) (x : String)
    (limit : CallLimit) (depth : ℕ) (hF : t.integrate limit x depth = .ok F) (scope : Scope K) :
    (∃ m c, ∀ u a, lib.HasValue ev (scope.define x (.real u)) (t.read ρ) (.real a) → a = m * u + c) ∧
      ∀ u v a b A B : K, lib.HasValue ev (scope.define x (.real u)) (t.read ρ) (.real a) →
        lib.HasValue ev (scope.define x (.real v)) (t.read ρ) (.real b) →
        lib.HasValue ev (scope.define x (.real u)) (F.read ρ) (.real A) →
        lib.HasValue ev (scope.define x (.real v)) (F.read ρ) (.real B) →
        B - A = (v - u) * (a + b) / 2 := by
  -- the values are the same without a limit, where the depth does not matter
  have hexists : ∃ m c,
      lib.IsPrimitive ev.unlimited (fun u => scope.define x (.real u)) (t.read ρ) (F.read ρ) m c :=
    exists_isPrimitive_of_integrate ev.not_isLimited_unlimited hρ (isDeterministic_iff.2 ht) hF
      (scope.along_define x)
  obtain ⟨m, c, hprimitive⟩ := hexists
  refine ⟨⟨m, c, fun u a ha => ?_⟩, fun u v a b A B ha hb hA hB => ?_⟩
  · rw [hprimitive.affine u a ha.unlimited, mul_one]
  · rw [hprimitive.affine u a ha.unlimited, hprimitive.affine v b hb.unlimited,
      hprimitive.primitive u A hA.unlimited, hprimitive.primitive v B hB.unlimited]
    ring

/-- The sum of `x - k` for `k` from one to two, and its antiderivative, between zero and two. -/
theorem trapezoid_of_integrate_sum :
    let one : Expr Float := .const (.real 1.0)
    let two : Expr Float := .const (.real 2.0)
    let t : Expr Float := .builtin .sum [.var "k", one, two, .binary .sub (.var "x") (.var "k")]
    let square : Expr Float := .binary .div (.binary .pow (.var "x") (Expr.number 2)) (Expr.number 2)
    let F : Expr Float := .builtin .sum [.var "k", one, two,
      .binary .sub square (.binary .mul (.var "k") (.var "x"))]
    let ρ : Reading ℚ := ⟨Binary64.toRat, fun _ => 0⟩
    let ev : Evaluator ℚ := { maxPending := none, draw := fun _ => 0 }
    let scope : ℚ → Scope ℚ := fun u => Scope.empty.define "x" (.real u)
    (ρ.real 2 = 2 ∧ ¬ t.ReachesRand ∧ t.integrate .standard "x" 2 = .ok F ∧
      rationals.HasValue ev (scope 0) (t.read ρ) (.real (-3)) ∧
      rationals.HasValue ev (scope 2) (t.read ρ) (.real 1) ∧
      rationals.HasValue ev (scope 0) (F.read ρ) (.real 0) ∧
      rationals.HasValue ev (scope 2) (F.read ρ) (.real (-2))) ∧
    (∃ m c, ∀ u a, rationals.HasValue ev (scope u) (t.read ρ) (.real a) → a = m * u + c) ∧
    (-2 : ℚ) - 0 = (2 - 0) * (-3 + 1) / 2 := by
  intro one two t square F ρ ev scope
  let := rationals.scalar
  have hρ : ρ.real 2 = 2 := Binary64.toRat_two
  have hrand : ¬ t.ReachesRand := isDeterministic_iff.1 rfl
  have hF : t.integrate .standard "x" 2 = .ok F := rfl
  have hone : one.read ρ = .const (.real 1) := by
    rw [← Binary64.toRat_one]
    rfl
  have htwo : two.read ρ = .const (.real 2) := by
    rw [← Binary64.toRat_two]
    rfl
  have ht : t.read ρ = .builtin .sum [.var "k", .const (.real 1), .const (.real 2),
      .binary .sub (.var "x") (.var "k")] := by
    rw [← hone, ← htwo]
    rfl
  have hread : F.read ρ = .builtin .sum [.var "k", .const (.real 1), .const (.real 2),
      .binary .sub (.binary .div (.binary .pow (.var "x") (.const (.real 2))) (.const (.real 2)))
        (.binary .mul (.var "k") (.var "x"))] := by
    rw [← hone, ← htwo]
    rfl
  have ht0 : rationals.HasValue ev (scope 0) (t.read ρ) (.real (-3)) := by
    rw [ht]
    exact ⟨0, 0, by with_unfolding_all rfl⟩
  have ht2 : rationals.HasValue ev (scope 2) (t.read ρ) (.real 1) := by
    rw [ht]
    exact ⟨0, 0, by with_unfolding_all rfl⟩
  have hF0 : rationals.HasValue ev (scope 0) (F.read ρ) (.real 0) := by
    rw [hread]
    exact ⟨0, 0, by with_unfolding_all rfl⟩
  have hF2 : rationals.HasValue ev (scope 2) (F.read ρ) (.real (-2)) := by
    rw [hread]
    exact ⟨0, 0, by with_unfolding_all rfl⟩
  obtain ⟨haffine, htrapezoid⟩ :=
    trapezoid_of_integrate rationals ev ρ hρ t F hrand "x" .standard 2 hF Scope.empty
  exact ⟨⟨hρ, hrand, hF, ht0, ht2, hF0, hF2⟩, haffine, htrapezoid 0 2 _ _ _ _ ht0 ht2 hF0 hF2⟩

end FieldLibrary

end Formulary
