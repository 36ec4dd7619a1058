import Formulary.Proofs.Evaluation.Values
import Formulary.Proofs.Expr.Rules

/-!
# The rules of derivatives

`Expr.Derived` has a constructor for each way in which a derivative is made, with what is known of
the parts at that point: an exponent is closed, an inner derivative that is left out has been found
to be one, and the range of a sum does not depend on the variable. Whatever draws there are, a
derivative is made in one of these ways (`Expr.yields_derive`).
-/

namespace Formulary.Expr

variable {α : Type} [Scalar α] {x : String}

omit [Scalar α] in
/-- A second step follows a result, with the draws that the first step has left over. -/
theorem run_bind_of_ok {β γ : Type} {y : Transform α β} {f : β → Transform α γ} {b : β} {n m : ℕ}
    (h : y.run.run n = (.ok b, m)) : (y >>= f).run.run n = (f b).run.run m := by
  rw [ExceptT.run_bind, StateT.run_bind, h]
  rfl

/-- The tree is closed, and it can be evaluated to one. -/
structure IsOne (ev : Evaluator α) (e : Expr α) : Prop where
  closed : e.freeVars = []
  value : ∃ a, ev.HasValue .empty e (.real a) ∧ Scalar.eq a Scalar.one = true

omit [Scalar α] in
/-- A closed tree has no free variables. -/
theorem freeVars_of_isClosed {e : Expr α} (h : e.isClosed = true) : e.freeVars = [] :=
  List.isEmpty_iff.1 h

/-- What is found to be one is one, also without a limit. -/
theorem yields_isOne (ev : Evaluator α) (depth : Nat) (e : Expr α) :
    (isOne ev depth e).Yields fun found => found = true → IsOne ev.unlimited e := by
  refine .within ?_ _ _
  split
  · next hclosed =>
    rintro n found m h rfl
    refine ⟨freeVars_of_isClosed hclosed, ?_⟩
    rcases houtcome : (ev.evalAt .empty (depth + 2) e).outcome n with ⟨r, k⟩
    have hrun : (ev.evalAt .empty (depth + 2) e).run.run n = (r, k) := houtcome
    rw [ExceptT.run_mk, StateT.run_bind, hrun] at h
    rcases r with err | v
    · cases h
    · cases v with
      | real a => exact ⟨a, .unlimited_of_evalAt houtcome, Except.ok.inj (congrArg Prod.fst h)⟩
      | _ => cases h
  · exact .pure nofun

omit [Scalar α] in
/-- A range that does not stand in the way of a transformation. -/
theorem rangeError?_eq_none {what : Calculus} {start stop : Expr α}
    (h : rangeError? what x start stop = none) : x ∉ start.freeVars ∧ x ∉ stop.freeVars := by
  unfold rangeError? at h
  dsimp only at h
  split at h
  · cases h
  · next hx => rwa [List.mem_append, not_or] at hx

/-- The ways to make a derivative by `x`. -/
inductive Derived (ev : Evaluator α) (x : String) : Expr α → Expr α → Prop where
  | const (v : Value α) (origin : Option Origin) : Derived ev x (.const v origin) (number 0)
  | self : Derived ev x (.var x) (number 1)
  | var {name : String} (hname : name ≠ x) : Derived ev x (.var name) (number 0)
  | sub {f f' g g' : Expr α} (hf : Derived ev x f f') (hg : Derived ev x g g') :
      Derived ev x (.binary .sub f g) (.binary .sub f' g')
  | div {f f' g g' : Expr α} (hf : Derived ev x f f') (hg : Derived ev x g g') :
      Derived ev x (.binary .div f g) (quotientRule f f' g g')
  | pow {base exponent inner : Expr α} (hclosed : exponent.freeVars = [])
      (hbase : Derived ev x base inner) :
      Derived ev x (.binary .pow base exponent) (.binary .mul (powerRule base exponent) inner)
  | powOne {base exponent inner : Expr α} (hclosed : exponent.freeVars = [])
      (hbase : Derived ev x base inner) (hone : IsOne ev inner) :
      Derived ev x (.binary .pow base exponent) (powerRule base exponent)
  | tan {operand inner : Expr α} (hoperand : Derived ev x operand inner) :
      Derived ev x (.unary .tan operand) (.binary .mul inner (tangentRule operand))
  | tanOne {operand inner : Expr α} (hoperand : Derived ev x operand inner)
      (hone : IsOne ev inner) : Derived ev x (.unary .tan operand) (tangentRule operand)
  | sum {k : String} {start stop term term' : Expr α} {rest : List (Expr α)} (hk : k ≠ x)
      (hstart : x ∉ start.freeVars) (hstop : x ∉ stop.freeVars) (hterm : Derived ev x term term') :
      Derived ev x (.builtin .sum (.var k :: start :: stop :: term :: rest))
        (.builtin .sum [.var k, start, stop, term'])

/-- A derivative is made in one of these ways. What has been found to be one is so without a limit.
-/
theorem yields_derive (ev : Evaluator α) (x : String) (depth : Nat) (e : Expr α) :
    (derive ev x depth e).Yields (Derived ev.unlimited x e) := by
  fun_induction Expr.derive ev x depth e with
  | case1 => exact .throw _
  | case2 depth _ v origin => exact .pure (.const v origin)
  | case3 depth _ name =>
    by_cases hname : name = x
    · subst hname
      rw [if_pos rfl]
      exact .pure .self
    · rw [if_neg hname]
      exact .pure (.var hname)
  | case4 depth _ f g ihf ihg =>
    exact .bind ihf fun _ hf => .bind ihg fun _ hg => .pure (.sub hf hg)
  | case5 depth _ f g ihf ihg =>
    exact .bind ihf fun _ hf => .bind (.within ihg _ _) fun _ hg => .pure (.div hf hg)
  | case6 depth _ base exponent ih =>
    refine .within ?_ _ _
    split
    · next hclosed =>
      have hexponent := freeVars_of_isClosed hclosed
      refine .within (.bind ih fun inner hinner => ?_) _ _
      refine .bind (yields_isOne ev (depth + 3) inner) fun found hone => ?_
      cases found with
      | true => exact .pure (.powOne hexponent hinner (hone rfl))
      | false => exact .pure (.pow hexponent hinner)
    · exact .throw _
  | case7 depth _ operand ih =>
    refine .within (.bind ih fun inner hinner => ?_) _ _
    refine .bind (yields_isOne ev (depth + 2) inner) fun found hone => ?_
    cases found with
    | true => exact .pure (.tanOne hinner (hone rfl))
    | false => exact .pure (.tan hinner)
  | case8 depth _ k start stop term rest ih =>
    refine .summation ih (fun hk hrange term' hterm => ?_) _ _
    obtain ⟨hstart, hstop⟩ := rangeError?_eq_none hrange
    exact .sum hk hstart hstop hterm
  | case9 => exact .throw _
  | case10 => exact .throw _

end Formulary.Expr
