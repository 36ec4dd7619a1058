import Formulary.Proofs.Evaluation.Failing
import Formulary.Proofs.Expr.FreeVars
import Formulary.Proofs.Syntax.Rules
import Formulary.Proofs.Syntax.Spelling
import Formulary.Proofs.Value.Operation

/-!
# Free variables are all that evaluation reads

A formula has the same outcomes in all scopes that bind its free variables to the same values, and
none of these is the report of an unbound variable (`Language.outcome_eq_of_free`). Only a limit can
tell two such scopes apart, if there is more to search in one of them
(`Evaluator.evaluate_var_too_deep`).

The first half is that a tree depends on its free variables. The second half needs the functions
that are called: their bodies are evaluated in a scope of their own, which binds the parameters and
nothing else. As a definition is read only if its body is closed under its parameters, the claim
about bodies goes by induction over the registry, and the claim about trees by induction over the
tree.
-/

open Formulary.Expr Formulary.Grammar

namespace Formulary

variable {α : Type}

/-! ## Bound names -/

namespace Bindings

variable {name : String}

/-- A binding that is added is found, and the others are found as before. -/
theorem get?_insert (n : String) (v : Value α) (bindings : Bindings α) :
    (bindings.insert n v).get? name = if n = name then some v else bindings.get? name := by
  induction bindings with
  | nil => rfl
  | cons b rest ih =>
    obtain ⟨m, w⟩ := b
    rw [insert]
    split
    · next hm =>
      subst hm
      by_cases hname : m = name <;> simp [get?, hname]
    · next hm =>
      by_cases hname : m = name
      · have hn : n ≠ name := fun hn => hm (hname.trans hn.symm)
        simp [get?, hname, hn]
      · simp [get?, hname, ih]

/-- Bindings made one after the other keep names bound. -/
theorem exists_get?_foldl {pairs : List (String × Value α)} {bindings : Bindings α}
    (h : name ∈ pairs.map (·.1) ∨ ∃ v, bindings.get? name = some v) :
    ∃ v, (pairs.foldl (fun bindings (n, v) => bindings.insert n v) bindings).get? name = some v := by
  induction pairs generalizing bindings with
  | nil => simpa using h
  | cons pair pairs ih =>
    rw [List.foldl_cons]
    refine ih ?_
    by_cases hname : pair.1 = name
    · exact .inr ⟨pair.2, by simp [get?_insert, hname]⟩
    · rcases h with hmem | ⟨v, hv⟩
      · exact .inl (List.mem_of_ne_of_mem (Ne.symm hname) hmem)
      · exact .inr ⟨v, by simp [get?_insert, hname, hv]⟩

end Bindings

namespace Scope

variable {names names' : List String} {scope : Scope α}

/-- All of the names have values. -/
def Binds (scope : Scope α) (names : List String) : Prop :=
  ∀ name ∈ names, ∃ v, scope.lookup name = .ok v

/-- What binds some names binds fewer. -/
theorem Binds.mono (h : scope.Binds names) (hsub : ∀ name ∈ names', name ∈ names) :
    scope.Binds names' := fun name hname => h name (hsub name hname)

/-- Inside a series, its loop variable is bound as well. -/
theorem Binds.loopScope [Scalar α] {k : String} (h : scope.Binds (names.filter (· != k)))
    (f : Builtin) (x : α) : (Evaluator.loopScope scope f k x).Binds names := by
  intro name hname
  rw [lookup_loopScope]
  by_cases hk : k = name
  · exact ⟨.real x, if_pos hk⟩
  · rw [if_neg hk]
    exact h name (List.mem_filter.2 ⟨hname, by simpa using Ne.symm hk⟩)

/-- The scope of a function's body binds the parameters. -/
theorem binds_ofBindings {params : List String} {values : List (Value α)} (name : String)
    (h : values.length = params.length) :
    (ofBindings (.ofList (params.zip values)) name).Binds params := by
  intro param hparam
  have hmem : param ∈ (params.zip values).map (·.1) := by
    rwa [List.map_fst_zip (Nat.le_of_eq h.symm)]
  obtain ⟨v, hv⟩ : ∃ v, (Bindings.ofList (params.zip values)).get? param = some v :=
    Bindings.exists_get?_foldl (.inl hmem)
  refine ⟨v, ?_⟩
  have hget : (ofBindings (.ofList (params.zip values)) name).get? param = some v := by
    simpa [get?, frames, ofBindings] using hv
  rw [lookup, hget]

end Scope

/-! ## Unbound variables -/

namespace Evaluator

variable [Scalar α]

/-- The evaluation does not end with the report of an unbound variable. -/
abbrev Bound (x : Eval α (Value α)) : Prop := x.FailsOnly fun e => e.kind ≠ .unknownVariable

/-- No operator, condition, series or limit reports an unbound variable. -/
theorem admits_bound : Admits fun e : EvalError α => e.kind ≠ .unknownVariable where
  tooDeep := nofun
  condition _ := nofun
  boundKind _ _ _ _ := nofun
  boundInfinite _ _ _ := nofun
  tooManyTerms _ _ _ _ := nofun
  binary op left right := left.applyBinary_bound op right
  unary f v := v.applyUnary_bound f

/-- Called with as many values as it has parameters, the function finds all its variables bound. -/
def BoundBody (d : Definition (Expr α)) : Prop :=
  ∀ (ev : Evaluator α) (depth : Nat) (values : List (Value α)), values.length = d.arity →
    Bound (ev.evalBody depth values d)

end Evaluator

open Evaluator

section Trees

variable [Scalar α] {rules : Rules α}

/-- A scope that binds the free variables of a tree binds all that the tree looks up, if the bodies
of its callees are bound by their parameters. -/
theorem Expr.Follows.bound_evalAt {e : Expr α} (h : e.Follows rules)
    (hcallee : ∀ d, rules.callee d → BoundBody d) (ev : Evaluator α) :
    ∀ (scope : Scope α) (depth : Nat), scope.Binds e.freeVars → Bound (ev.evalAt scope depth e) := by
  have hP := admits_bound (α := α)
  induction h with
  | const _ origin =>
    intro scope depth _
    rw [evalAt]
    exact failsOnly_guard hP (.pure _)
  | @var name _ =>
    intro scope depth hscope
    obtain ⟨v, hv⟩ := hscope name (by simp [freeVars])
    rw [evalAt]
    refine failsOnly_guard hP (failsOnly_evalVar hP ?_)
    rw [hv]
    exact .ok v
  | binary op _ _ ihl ihr =>
    intro scope depth hscope
    rw [freeVars] at hscope
    have hl := ihl scope (depth + 2) (hscope.mono fun _ => List.mem_append_left _)
    have hr := ihr scope (depth + 2) (hscope.mono fun _ => List.mem_append_right _)
    rw [evalAt]
    exact failsOnly_guard hP <| .bind hl fun a => .bind hr fun b => .of (hP.binary op a b)
  | unary f _ ih =>
    intro scope depth hscope
    rw [freeVars] at hscope
    rw [evalAt]
    exact failsOnly_guard hP <| .bind (ih scope _ hscope) fun v => .of (hP.unary f v)
  | @builtin f args hf harity hloop hargs ih =>
    intro scope depth hscope
    rw [evalAt]
    refine failsOnly_guard hP (failsOnly_evalCall hP hf harity.1 hloop ?_ ?_)
    · intro hcall e he
      rw [freeVars_call hcall] at hscope
      exact ih e he scope _ (hscope.mono fun _ hname => mem_freeVarsOfAll.2 ⟨e, he, hname⟩)
    · rintro hseries k start stop term rest rfl
      obtain ⟨_, _, _, _, heq⟩ := (Follows.builtin hf harity hloop hargs).series_args hseries
      cases heq
      rw [freeVars_series hseries] at hscope
      refine ⟨ih start (by simp) scope _ (hscope.mono fun _ hname => ?_),
        ih stop (by simp) scope _ (hscope.mono fun _ hname => ?_),
        -- the loop variable is bound in the scope of the term
        fun x => ih term (by simp) _ _ (Scope.Binds.loopScope (hscope.mono fun _ hname => ?_) f x)⟩
      · exact List.mem_append_left _ (List.mem_append_left _ hname)
      · exact List.mem_append_left _ (List.mem_append_right _ hname)
      · exact List.mem_append_right _ hname
  | @apply d args hd harity _ ih =>
    intro scope depth hscope
    rw [freeVars] at hscope
    have hargs : (ev.evalAll scope (depth + 4) args).FailsOnly _ := failsOnly_evalAll fun e he =>
      ih e he scope _ (hscope.mono fun _ hname => mem_freeVarsOfAll.2 ⟨e, he, hname⟩)
    rw [evalAt]
    refine failsOnly_guard hP <| hargs.bind_of_ok fun n values m hvalues => ?_
    exact hcallee d hd ev _ values ((length_eq_of_evalAll hvalues).trans harity)

end Trees

/-- The functions of a defined registry are bound by their parameters. -/
theorem Registry.Defined.boundBody {r : Registry} (h : r.Defined) :
    ∀ d ∈ r.definitions, BoundBody d := by
  refine h.forall_mem fun lang text d hregistry hd ev depth values hvalues => ?_
  obtain ⟨-, -, hclosed, hbody⟩ := Language.parseDefinition_eq_ok hd
  obtain ⟨name, params, body, bodyText⟩ := d
  rw [evalBody]
  refine (Language.follows_of_parse hbody).bound_evalAt hregistry ev _ depth ?_
  exact (Scope.binds_ofBindings name hvalues).mono hclosed

namespace Language

/-- Evaluation depends on the free variables only. In two scopes that bind them to the same values,
a formula has the same outcome for the same draws, which is no report of an unbound variable. Only
where the calls are limited may one of the scopes leave too little room for a search that comes to
more of its frames than the same search in the other one. -/
theorem outcome_eq_of_free (lang : Language) (hregistry : lang.registry.Defined) (text : String)
    (t : Expr Float) (hparse : lang.parse text = .ok t) (scope scope' : Scope Float)
    (hfree : ∀ name ∈ t.freeVars,
      ∃ v, scope.get? name = some v ∧ scope'.get? name = some v)
    (ev : Evaluator Float) (n : Nat) :
    ((ev.evaluate scope t).outcome n = (ev.evaluate scope' t).outcome n ∨
        ev.IsLimited ∧ (∃ name ∈ t.freeVars, scope.reach name ≠ scope'.reach name) ∧
          (((ev.evaluate scope t).outcome n).1 = .error .tooDeep ∨
            ((ev.evaluate scope' t).outcome n).1 = .error .tooDeep)) ∧
      ∀ e, ((ev.evaluate scope t).outcome n).1 = .error e → e.kind ≠ .unknownVariable := by
  have hfollows : t.Follows lang.rules := follows_of_parse hparse
  have hlookup : ∀ name ∈ t.freeVars, ∃ v, scope.lookup name = .ok v ∧ scope'.lookup name = .ok v := by
    intro name hname
    obtain ⟨v, hv, hv'⟩ := hfree name hname
    exact ⟨v, by rw [Scope.lookup, hv], by rw [Scope.lookup, hv']⟩
  have hsame : ∀ name ∈ t.dependence.names, scope.lookup name = scope'.lookup name := by
    intro name hname
    obtain ⟨v, hv, hv'⟩ := hlookup name (hfollows.mem_dependence.1 hname)
    rw [hv, hv']
  constructor
  · by_cases hreach : ∀ name ∈ t.freeVars, scope.reach name = scope'.reach name
    · refine .inl ?_
      have hagree : Scope.Agree ev t.dependence.names scope scope' := fun name hname =>
        ⟨hsame name hname, fun _ => hreach name (hfollows.mem_dependence.1 hname)⟩
      rw [evaluate, evaluate, evalAt_eq_of_agree hagree]
    · -- both come to what there is without a limit, unless they are too deep
      have hunlimited : ev.unlimited.evalAt scope 2 t = ev.unlimited.evalAt scope' 2 t :=
        evalAt_eq_of_not_isLimited (not_isLimited_unlimited ev) hsame 2 2
      have hleft : Eval.Within ev.IsLimited (ev.evaluate scope t) (ev.unlimited.evalAt scope 2 t) :=
        evalAt_unlimited t scope 2 2
      have hright : Eval.Within ev.IsLimited (ev.evaluate scope' t)
          (ev.unlimited.evalAt scope' 2 t) := evalAt_unlimited t scope' 2 2
      simp only [not_forall, exists_prop] at hreach
      rcases hleft n with ⟨hlimited, hdeep⟩ | hleft
      · exact .inr ⟨hlimited, hreach, .inl hdeep⟩
      · rcases hright n with ⟨hlimited, hdeep⟩ | hright
        · exact .inr ⟨hlimited, hreach, .inr hdeep⟩
        · exact .inl (by rw [hleft, hright, hunlimited])
  · have hbinds : scope.Binds t.freeVars := by
      intro name hname
      obtain ⟨v, hv, -⟩ := hlookup name hname
      exact ⟨v, hv⟩
    exact hfollows.bound_evalAt hregistry.boundBody ev scope 2 hbinds n

/-- `sum(k,1,x,k)` needs a binding for `x`, and none for `k`. -/
theorem outcome_eq_of_free_sum :
    let t : Expr Float := .builtin .sum [.var "k", .const (.real 1.0), .var "x", .var "k"]
    let ev : Evaluator Float := { draw := fun _ => 0.5 }
    let scope : Scope Float := .ofBindings [("x", .real 2.0)]
    let scope' : Scope Float :=
      (Scope.ofBindings [("k", .boolean true), ("x", .real 2.0)]).child "inner"
    ({ maxPending := none } : Language).parse "sum(k, 1, x, k)" = .ok t ∧
      (∀ name ∈ t.freeVars, ∃ v, scope.get? name = some v ∧ scope'.get? name = some v) ∧
      ((ev.evaluate scope t).outcome 0 = (ev.evaluate scope' t).outcome 0 ∨
          ev.IsLimited ∧ (∃ name ∈ t.freeVars, scope.reach name ≠ scope'.reach name) ∧
            (((ev.evaluate scope t).outcome 0).1 = .error .tooDeep ∨
              ((ev.evaluate scope' t).outcome 0).1 = .error .tooDeep)) ∧
        ∀ e, ((ev.evaluate scope t).outcome 0).1 = .error e → e.kind ≠ .unknownVariable := by
  intro t ev scope scope'
  have hk : Atom { maxPending := none } ['k'] (.var "k") :=
    .variable ⟨not_wrapped_of_head (by decide), by decide, by decide, by decide⟩ rfl (by decide)
  have hx : Atom { maxPending := none } ['x'] (.var "x") :=
    .variable ⟨not_wrapped_of_head (by decide), by decide, by decide, by decide⟩ rfl (by decide)
  have hone : Atom { maxPending := none } ['1'] (.const (.real 1.0)) :=
    .number ⟨not_wrapped_of_head (by decide), by decide, by decide, by decide⟩
      (.outside (by decide) (by decide) .nil) rfl
  have hargs : List.Forall₂ (Formula { maxPending := none }) [['k'], ['1'], ['x'], ['k']]
      [.var "k", .const (.real 1.0), .var "x", .var "k"] :=
    .cons (.of_atom (by decide) hk) (.cons (.of_atom (by decide) hone)
      (.cons (.of_atom (by decide) hx) (.cons (.of_atom (by decide) hk) .nil)))
  have hsum : Atom { maxPending := none }
      (argumentList { maxPending := none } "sum" [['k'], ['1'], ['x'], ['k']]) t :=
    .builtin .sum (by decide) (fun s hs => .of_forall (by revert s; decide)) hargs (by decide)
      fun _ => ⟨"k", _, rfl⟩
  have hparse : ({ maxPending := none } : Language).parse "sum(k, 1, x, k)" = .ok t :=
    Language.parse_of_formula NumberFormat.hasPlainMarks_standard rfl (by decide)
      (.of_atom (by decide) hsum)
  have hfree : ∀ name ∈ t.freeVars,
      ∃ v, scope.get? name = some v ∧ scope'.get? name = some v := by
    intro name hname
    obtain rfl : name = "x" := by simpa [t, freeVars] using hname
    exact ⟨.real 2.0, rfl, rfl⟩
  exact ⟨hparse, hfree, outcome_eq_of_free _ .empty _ t hparse scope scope' hfree ev 0⟩

end Language

namespace Scope

/-- So many empty scopes, one inside the other, inside this one. -/
def nested (scope : Scope α) : Nat → Scope α
  | 0 => scope
  | n + 1 => (scope.nested n).child "inner"

variable (scope : Scope α) (n : Nat) (name : String)

/-- Empty scopes bind nothing. -/
theorem get?_nested : (scope.nested n).get? name = scope.get? name := by
  induction n with
  | zero => rfl
  | succ n ih => exact ih

/-- A search comes to each of the empty scopes first. -/
theorem reach_nested : (scope.nested n).reach name = scope.reach name + n := by
  induction n with
  | zero => rfl
  | succ n ih =>
    rw [← Nat.add_assoc, ← ih]
    rfl

end Scope

/-- A variable is too deep in ten thousand empty scopes, and has its value outside of them. -/
theorem Evaluator.evaluate_var_too_deep :
    let ev : Evaluator Float := { draw := fun _ => 0.5 }
    let scope : Scope Float := .ofBindings [("x", .real 2.0)]
    let scope' : Scope Float := scope.nested 10000
    ({ maxPending := none } : Language).parse "x" = .ok (.var "x") ∧
      scope.get? "x" = some (.real 2.0) ∧ scope'.get? "x" = some (.real 2.0) ∧
      (ev.evaluate scope (.var "x")).outcome 0 = (.ok (.real 2.0), 0) ∧
      (ev.evaluate scope' (.var "x")).outcome 0 = (.error .tooDeep, 0) := by
  intro ev scope scope'
  have hx : Atom { maxPending := none } ['x'] (.var "x") :=
    .variable ⟨not_wrapped_of_head (by decide), by decide, by decide, by decide⟩ rfl (by decide)
  have hparse : ({ maxPending := none } : Language).parse "x" = .ok (.var "x") :=
    Language.parse_of_formula NumberFormat.hasPlainMarks_standard rfl (by decide)
      (.of_atom (by decide) hx)
  have hdeep : ev.isTooDeep (2 + 2 + scope'.reach "x") = true := by
    have hreach : scope.reach "x" = 1 := rfl
    rw [Scope.reach_nested, hreach]
    rfl
  refine ⟨hparse, rfl, Scope.get?_nested scope 10000 "x", rfl, ?_⟩
  rw [evaluate, evalAt, if_neg (by decide), evalVar, if_pos hdeep]
  rfl

end Formulary
