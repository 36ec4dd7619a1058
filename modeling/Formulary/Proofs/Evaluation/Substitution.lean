import Formulary.Proofs.Evaluation.FreeVars
import Formulary.Proofs.Evaluation.Negations

/-!
# Calls and substitution

A function is called by evaluating its body in a scope that binds the parameters. The same outcome
has the body in which the parameters are replaced by the values of the arguments (`Expr.subst`),
without any scope: `Language.call_eq_subst`. The loop variable of a series hides a parameter of its
name, in the scope of the term as in the tree of the term, but not in the bounds.

The body of a call is deeper than the call, and the call may itself be at any depth. By itself the
body is at the top. A parameter has to be searched for, from the innermost series on, and a value
has not. This is all that the two can differ by: the call can be too deep
(`Negation.call_too_deep`).
-/

open Formulary.Expr Formulary.Grammar

namespace Formulary

variable {α : Type}

/-! ## Substitution -/

/-- The bindings without that of one name. -/
def Bindings.without (name : String) (bindings : Bindings α) : Bindings α :=
  bindings.filter (·.1 != name)

/-- Only the one name is unbound. -/
theorem Bindings.get?_without (k name : String) (bindings : Bindings α) :
    (bindings.without k).get? name = if k = name then none else bindings.get? name := by
  induction bindings with
  | nil => simp [without, get?]
  | cons b rest ih =>
    obtain ⟨n, v⟩ := b
    unfold without at ih ⊢
    by_cases hn : n = k
    · rw [List.filter_cons_of_neg (by simpa using hn), ih, get?]
      by_cases hname : k = name
      · simp [hname]
      · simp [hname, hn]
    · rw [List.filter_cons_of_pos (by simpa using hn), get?, get?, ih]
      by_cases hname : n = name
      · have hk : ¬ k = name := fun hk => hn (hname.trans hk.symm)
        simp [hname, hk]
      · simp [hname]

namespace Expr

mutual

/-- The tree with constants in the places of its free variables, as far as these are bound. -/
def subst (values : Bindings α) : Expr α → Expr α
  | const v origin => const v origin
  | var name => match values.get? name with
    | some v => const v
    | none => var name
  | binary op l r => binary op (subst values l) (subst values r)
  | unary f x => unary f (subst values x)
  | builtin .sum [var k, start, stop, term] =>
    builtin .sum [var k, subst values start, subst values stop, subst (values.without k) term]
  | builtin .prod [var k, start, stop, term] =>
    builtin .prod [var k, subst values start, subst values stop, subst (values.without k) term]
  | builtin f args => builtin f (substAll values args)
  | apply d args => apply d (substAll values args)

/-- The same for a list of trees. -/
def substAll (values : Bindings α) : List (Expr α) → List (Expr α)
  | [] => []
  | e :: es => subst values e :: substAll values es

end

/-- The loop variable of a series is replaced in the bounds and not in the term. -/
theorem subst_series {f : Builtin} (hf : f.isSeries = true) (values : Bindings α) (k : String)
    (start stop term : Expr α) :
    (builtin f [var k, start, stop, term]).subst values =
      builtin f [var k, start.subst values, stop.subst values, term.subst (values.without k)] := by
  cases f with
  | sum | prod => simp only [subst]
  | _ => cases hf

/-- In all other calls, variables are replaced in all arguments. -/
theorem subst_call {f : Builtin} (hf : f.isSeries = false) (values : Bindings α)
    (args : List (Expr α)) : (builtin f args).subst values = builtin f (substAll values args) := by
  cases f with
  | sum | prod => cases hf
  | _ => simp only [subst]

end Expr

/-! ## Evaluation -/

open Evaluator

section Trees

variable {names names' : List String} {values : Bindings α} {scope scope' : Scope α}

/-- The first scope has for some names the given values, and for those that have none the values of
the second scope, which is not searched longer for them. -/
def Scope.Overlays (names : List String) (values : Bindings α) (scope scope' : Scope α) : Prop :=
  ∀ name ∈ names, match values.get? name with
    | some v => scope.lookup name = .ok v
    | none => scope.lookup name = scope'.lookup name ∧ scope'.reach name ≤ scope.reach name

/-- Fewer names are asked for. -/
theorem Scope.Overlays.mono (h : Scope.Overlays names values scope scope')
    (hsub : ∀ name ∈ names', name ∈ names) : Scope.Overlays names' values scope scope' :=
  fun name hname => h name (hsub name hname)

variable [Scalar α]

/-- Inside a series, the loop variable has its own value in both scopes. -/
theorem Scope.Overlays.loopScope {k : String}
    (h : Scope.Overlays (names.filter (· != k)) values scope scope') (f : Builtin) (x : α) :
    Scope.Overlays names (values.without k) (Evaluator.loopScope scope f k x)
      (Evaluator.loopScope scope' f k x) := by
  intro name hname
  rw [lookup_loopScope, lookup_loopScope, reach_loopScope, reach_loopScope, Bindings.get?_without]
  by_cases hk : k = name
  · simp only [if_pos hk, le_refl, and_self]
  · simp only [if_neg hk]
    have hscope := h name (List.mem_filter.2 ⟨hname, by simpa using Ne.symm hk⟩)
    cases hvalue : values.get? name with
    | some v => rwa [hvalue] at hscope
    | none =>
      rw [hvalue] at hscope
      exact ⟨hscope.1, Nat.succ_le_succ hscope.2⟩

namespace Evaluator

variable {ev : Evaluator α} {limited : Prop} {depth depth' : Nat} {args : List (Expr α)}

section Arguments

variable (h : ∀ e ∈ args,
  Eval.Within limited (ev.evalAt scope depth e) (ev.evalAt scope' depth' (e.subst values)))

include h

/-- The values of arguments. -/
theorem evalAll_subst : Eval.Within limited (ev.evalAll scope depth args)
    (ev.evalAll scope' depth' (substAll values args)) := by
  induction args with
  | nil =>
    rw [substAll, evalAll, evalAll]
    exact .refl _
  | cons e es ih =>
    obtain ⟨he, hes⟩ := List.forall_mem_cons.1 h
    rw [substAll, evalAll, evalAll]
    exact .bind he fun _ => .bind (ih hes) fun _ => .refl _

/-- The value of the branch that is chosen. -/
theorem evalBranch_subst (b : Bool) : Eval.Within limited (ev.evalBranch scope depth b args)
    (ev.evalBranch scope' depth' b (substAll values args)) := by
  match b, args with
  | b, [] =>
    rw [substAll, evalBranch, evalBranch]
    exact .refl _
  | true, [yes] =>
    rw [substAll, substAll, evalBranch, evalBranch]
    exact h yes (by simp)
  | false, [yes] =>
    rw [substAll, substAll, evalBranch, evalBranch]
    exact .refl _
  | true, yes :: no :: rest =>
    rw [substAll, substAll, evalBranch, evalBranch]
    exact h yes (by simp)
  | false, yes :: no :: rest =>
    rw [substAll, substAll, evalBranch, evalBranch]
    exact h no (by simp)

end Arguments

/-- The calls of all functions but the series. -/
theorem evalCall_subst {f : Builtin} (hf : f.isSeries = false)
    (h : ∀ e ∈ args, Eval.Within limited (ev.evalAt scope (depth + 1) e)
      (ev.evalAt scope' (depth' + 1) (e.subst values))) :
    Eval.Within limited (ev.evalCall scope depth f args)
      (ev.evalCall scope' depth' f (substAll values args)) := by
  cases Builtin.shape f args with
  | other name args =>
    rw [evalCall, evalCall]
    exact .refl _
  | cond condition branches =>
    obtain ⟨hcondition, hbranches⟩ := List.forall_mem_cons.1 h
    rw [substAll, evalCall, evalCall]
    exact .bind hcondition fun _ => .bind (.refl _) fun b => evalBranch_subst hbranches b
  | rand limit rest =>
    rw [substAll, evalCall, evalCall]
    exact .bind (h limit (by simp)) fun _ => .refl _
  | series hseries | noVariable hseries => simp [hf] at hseries
  | missing hall =>
    rw [substAll, evalCall_missing _ _ _ hall, evalCall_missing _ _ _ hall]
    exact .refl _

omit [Scalar α] in
/-- A variable has the value that replaces it, or has to be searched for in both scopes. -/
theorem evalVar_subst {name : String} (hdepth : depth' ≤ depth)
    (h : Scope.Overlays [name] values scope scope') :
    Eval.Within ev.IsLimited (ev.evalVar scope depth name) (match values.get? name with
      | some v => pure v
      | none => ev.evalVar scope' depth' name) := by
  have hname := h name List.mem_cons_self
  unfold evalVar
  by_cases hdeep : ev.isTooDeep (depth + scope.reach name) = true
  · rw [if_pos hdeep]
    exact .tooDeep (isLimited_of_isTooDeep hdeep)
  · rw [if_neg hdeep]
    cases hvalue : values.get? name with
    | some v =>
      rw [hvalue] at hname
      rw [hname]
      exact .refl _
    | none =>
      rw [hvalue] at hname
      obtain ⟨hlookup, hreach⟩ := hname
      rw [if_neg fun hdeep' => hdeep (isTooDeep_mono (Nat.add_le_add hdepth hreach) hdeep'), hlookup]
      exact .refl _

end Evaluator

/-- Binding variables comes to the same as substituting values for them, unless it is too deep. -/
theorem Expr.Follows.evalAt_subst {rules : Rules α} {e : Expr α} (h : e.Follows rules)
    (ev : Evaluator α) : ∀ (values : Bindings α) (scope scope' : Scope α) (depth depth' : Nat),
      depth' ≤ depth → Scope.Overlays e.freeVars values scope scope' →
        Eval.Within ev.IsLimited (ev.evalAt scope depth e)
          (ev.evalAt scope' depth' (e.subst values)) := by
  induction h with
  | const _ origin =>
    intro values scope scope' depth depth' hle _
    rw [subst, evalAt, evalAt]
    exact (Below.of_le ev hle).guard 2 (.refl _)
  | @var name _ =>
    intro values scope scope' depth depth' hle hscope
    have hvariable : Eval.Within ev.IsLimited (ev.evalVar scope (depth + 2) name) _ :=
      evalVar_subst (Nat.add_le_add_right hle 2) hscope
    have hguard := (Below.of_le ev hle).guard 2 hvariable
    rw [subst, evalAt]
    cases hvalue : values.get? name with
    | some v =>
      rw [hvalue] at hguard
      rw [evalAt]
      exact hguard
    | none =>
      rw [hvalue] at hguard
      rw [evalAt]
      exact hguard
  | binary op _ _ ihl ihr =>
    intro values scope scope' depth depth' hle hscope
    rw [freeVars] at hscope
    have hl := ihl values scope scope' (depth + 2) (depth' + 2) (by omega)
      (hscope.mono fun _ => List.mem_append_left _)
    have hr := ihr values scope scope' (depth + 2) (depth' + 2) (by omega)
      (hscope.mono fun _ => List.mem_append_right _)
    rw [subst, evalAt, evalAt]
    exact (Below.of_le ev hle).guard 2 (.bind hl fun _ => .bind hr fun _ => .refl _)
  | unary f _ ih =>
    intro values scope scope' depth depth' hle hscope
    rw [freeVars] at hscope
    have hoperand := ih values scope scope' (depth + 2) (depth' + 2) (by omega) hscope
    rw [subst, evalAt, evalAt]
    exact (Below.of_le ev hle).guard 2 (.bind hoperand fun _ => .refl _)
  | @builtin f args hf harity hloop hargs ih =>
    intro values scope scope' depth depth' hle hscope
    by_cases hseries : f.isSeries = true
    · obtain ⟨k, start, stop, term, rfl⟩ :=
        (Follows.builtin hf harity hloop hargs).series_args hseries
      rw [freeVars_series hseries] at hscope
      have hstart := ih start (by simp) values scope scope' (depth + 4) (depth' + 4) (by omega)
        (hscope.mono fun _ hname => List.mem_append_left _ (List.mem_append_left _ hname))
      have hstop := ih stop (by simp) values scope scope' (depth + 4) (depth' + 4) (by omega)
        (hscope.mono fun _ hname => List.mem_append_left _ (List.mem_append_right _ hname))
      -- in the term, the loop variable is not replaced
      have hterm (x : α) := ih term (by simp) (values.without k) (Evaluator.loopScope scope f k x)
        (Evaluator.loopScope scope' f k x) (depth + 4) (depth' + 4) (by omega)
        (Scope.Overlays.loopScope (hscope.mono fun _ => List.mem_append_right _) f x)
      rw [subst_series hseries, evalAt, evalAt,
        evalCall_series _ _ _ hseries, evalCall_series _ _ _ hseries, evalSeries, evalSeries]
      refine (Below.of_le ev hle).guard 2 (.bind hstart fun _ => .bind hstop fun _ => ?_)
      refine series_within rfl fun x => ?_
      rw [evalTerm, evalTerm]
      exact hterm x
    · have hcall : f.isSeries = false := by simpa using hseries
      rw [freeVars_call hcall] at hscope
      have hall := fun e he => ih e he values scope scope' (depth + 2 + 1) (depth' + 2 + 1) (by omega)
        (hscope.mono fun _ hname => mem_freeVarsOfAll.2 ⟨e, he, hname⟩)
      rw [subst_call hcall, evalAt, evalAt]
      exact (Below.of_le ev hle).guard 2 (evalCall_subst hcall hall)
  | @apply d args _ _ _ ih =>
    intro values scope scope' depth depth' hle hscope
    rw [freeVars] at hscope
    have hall := fun e he => ih e he values scope scope' (depth + 4) (depth' + 4) (by omega)
      (hscope.mono fun _ hname => mem_freeVarsOfAll.2 ⟨e, he, hname⟩)
    rw [subst, evalAt, evalAt]
    exact (Below.of_le ev hle).guard 2 (.bind (evalAll_subst hall) fun values' =>
      evalBody_within values' d (.of_le ev (by omega)))

end Trees

/-! ## Calls -/

namespace Bindings

variable {name : String} {pairs bindings : Bindings α}

/-- Names without a value are those that are not bound. -/
theorem get?_eq_none_iff : bindings.get? name = none ↔ name ∉ bindings.names := by
  induction bindings with
  | nil => simp [get?, names]
  | cons b rest ih =>
    obtain ⟨n, v⟩ := b
    rw [get?, names, List.map_cons, List.mem_cons, not_or, ← names, ← ih]
    by_cases hname : n = name
    · simp [hname]
    · simp [hname, Ne.symm hname]

/-- Each of several bindings of different names stays as it was made. -/
theorem get?_foldl_of_nodup (h : pairs.names.Nodup) :
    get? name (pairs.foldl (fun bindings (n, v) => bindings.insert n v) bindings) =
      (get? name pairs).or (get? name bindings) := by
  induction pairs generalizing bindings with
  | nil => rfl
  | cons pair pairs ih =>
    obtain ⟨n, v⟩ := pair
    obtain ⟨hfresh, hpairs⟩ := List.nodup_cons.1 h
    rw [List.foldl_cons, ih hpairs, get?_insert, get?]
    by_cases hname : n = name
    · have hnone : get? name pairs = none := get?_eq_none_iff.2 (hname ▸ hfresh)
      simp [hname, hnone]
    · simp [hname]

end Bindings

namespace Scope

/-- The scope of a function's body has the values of the parameters, which differ. -/
theorem overlays_ofBindings {params : List String} {values : List (Value α)} (name : String)
    (hlength : values.length = params.length) (hparams : params.Nodup) (scope : Scope α) :
    Overlays params (params.zip values) (ofBindings (.ofList (params.zip values)) name) scope := by
  intro param hparam
  have hnames : Bindings.names (params.zip values) = params :=
    List.map_fst_zip (Nat.le_of_eq hlength.symm)
  have hfold : Bindings.get? param (.ofList (params.zip values)) =
      (Bindings.get? param (params.zip values)).or none :=
    Bindings.get?_foldl_of_nodup (hnames.symm ▸ hparams)
  have hget : (ofBindings (.ofList (params.zip values)) name).get? param =
      Bindings.get? param (params.zip values) := by
    simpa [get?, frames, ofBindings] using hfold
  obtain ⟨v, hv⟩ : ∃ v, Bindings.get? param (params.zip values) = some v := by
    rw [← Option.ne_none_iff_exists', ne_eq, Bindings.get?_eq_none_iff, not_not, hnames]
    exact hparam
  rw [hv, lookup, hget, hv]

end Scope

/-- The body of a function of a defined registry comes to the same with values in the places of the
parameters, unless it is too deep. -/
theorem Registry.Defined.evalBody_subst {r : Registry} (h : r.Defined) :
    ∀ d ∈ r.definitions, ∀ (ev : Evaluator Float) (depth depth' : Nat) (values : List (Value Float)),
      depth' ≤ depth → values.length = d.arity →
        Eval.Within ev.IsLimited (ev.evalBody depth values d)
          (ev.evalAt .empty depth' (d.body.subst (d.params.zip values))) := by
  refine h.forall_mem fun lang text d _ hd ev depth depth' values hle hvalues => ?_
  obtain ⟨-, hparams, hclosed, hbody⟩ := Language.parseDefinition_eq_ok hd
  obtain ⟨name, params, body, bodyText⟩ := d
  rw [evalBody]
  exact (Language.follows_of_parse hbody).evalAt_subst ev _ _ _ depth depth' hle
    ((Scope.overlays_ofBindings name hvalues hparams .empty).mono hclosed)

/-- A call whose arguments have values by themselves goes on with the body, unless it is too deep.
-/
theorem Evaluator.outcome_apply [Scalar α] {ev : Evaluator α} {scope : Scope α} {depth n m : Nat}
    {args : List (Expr α)} {values : List (Value α)} {d : Definition (Expr α)} {x : Eval α (Value α)}
    (hargs : (ev.evalAll scope 2 args).outcome n = (.ok values, m))
    (hbody : Eval.Within ev.IsLimited (ev.evalBody (depth + 3) values d) x) :
    let call := ev.evalAt scope depth (.apply d args)
    call.outcome n = x.outcome m ∨ ev.IsLimited ∧ (call.outcome n).1 = .error .tooDeep := by
  intro call
  have hroom : 2 ≤ depth + 4 := by omega
  have hwithin : Eval.Within ev.IsLimited (ev.evalAll scope (depth + 4) args)
      (ev.evalAll scope 2 args) := evalAll_within args (.of_le ev hroom) (.refl ev _ scope)
  by_cases hdeep : ev.isTooDeep (depth + 2) = true
  · refine .inr ⟨isLimited_of_isTooDeep hdeep, ?_⟩
    rw [show call = throw .tooDeep from evalAt_of_isTooDeep hdeep scope _]
    rfl
  · have hcall : call = ev.evalAll scope (depth + 4) args >>= fun values =>
        ev.evalBody (depth + 3) values d := by
      rw [show call = ev.evalAt scope depth (.apply d args) from rfl, evalAt, if_neg hdeep]
    rw [hcall, Eval.outcome_bind]
    rcases hwithin n with ⟨hlimited, htooDeep⟩ | hsame
    · refine .inr ⟨hlimited, ?_⟩
      generalize (ev.evalAll scope (depth + 4) args).outcome n = outcome at htooDeep ⊢
      obtain ⟨r, k⟩ := outcome
      obtain rfl : r = .error .tooDeep := htooDeep
      rfl
    · rw [hsame, hargs]
      exact (hbody m).symm

namespace Language

/-- A call has the outcome of the body with the values of the arguments in the places of the
parameters, evaluated from the first draw on that the arguments have left over, unless the call is
too deep. -/
theorem call_eq_subst (lang : Language) (hregistry : lang.registry.Defined)
    (d : Definition (Expr Float)) (hd : d ∈ lang.registry.definitions) (args : List (Expr Float))
    (harity : args.length = d.arity) (ev : Evaluator Float) (scope : Scope Float)
    (values : List (Value Float)) (n m : Nat)
    (hvalues : (ev.evalAll scope 2 args).outcome n = (.ok values, m)) (depth : Nat) :
    let call := ev.evalAt scope depth (.apply d args)
    let body := d.body.subst (d.params.zip values)
    call.outcome n = (ev.evaluate .empty body).outcome m ∨
      ev.IsLimited ∧ (call.outcome n).1 = .error .tooDeep := by
  have hlength : values.length = d.arity := (length_eq_of_evalAll hvalues).trans harity
  have hbody := hregistry.evalBody_subst d hd ev (depth + 3) 2 values (by omega) hlength
  exact outcome_apply hvalues hbody

/-- `f(2)` for `f(k)=sum(k,1,k,k)`: the upper bound is replaced, and the term is not. -/
theorem call_eq_subst_series :
    let f : Definition (Expr Float) :=
      ⟨"f", ["k"], .builtin .sum [.var "k", .const (.real 1.0), .var "k", .var "k"], "sum(k,1,k,k)"⟩
    let lang : Language := { registry := ⟨[f]⟩, maxPending := none }
    let ev : Evaluator Float := { draw := fun _ => 0.5 }
    let call := ev.evaluate .empty (.apply f [.const (.real 2.0)])
    ({ maxPending := none } : Language).parseDefinition "f(k)=sum(k,1,k,k)" = .ok f ∧
      lang.registry.Defined ∧
      (ev.evalAll .empty 2 [.const (.real 2.0)]).outcome 0 = (.ok [.real 2.0], 0) ∧
      f.body.subst (f.params.zip [.real 2.0]) =
        .builtin .sum [.var "k", .const (.real 1.0), .const (.real 2.0), .var "k"] ∧
      (call.outcome 0 = (ev.evaluate .empty
          (.builtin .sum [.var "k", .const (.real 1.0), .const (.real 2.0), .var "k"])).outcome 0 ∨
        ev.IsLimited ∧ (call.outcome 0).1 = .error .tooDeep) := by
  intro f lang ev call
  have hk : Formula { maxPending := none } ['k'] (.var "k") :=
    .of_atom (by decide) <| .variable ⟨not_wrapped_of_head (by decide), by decide, by decide, by decide⟩
      rfl (by decide)
  have hone : Formula { maxPending := none } ['1'] (.const (.real 1.0)) :=
    .of_atom (by decide) <| .number ⟨not_wrapped_of_head (by decide), by decide, by decide, by decide⟩
      (.outside (by decide) (by decide) .nil) rfl
  have hsum : Atom { maxPending := none }
      (argumentList { maxPending := none } "sum" [['k'], ['1'], ['k'], ['k']]) f.body :=
    .builtin .sum (by decide) (fun s hs => .of_forall (by revert s; decide))
      (.cons hk (.cons hone (.cons hk (.cons hk .nil)))) (by decide) fun _ => ⟨"k", _, rfl⟩
  have hbody : ({ maxPending := none } : Language).parse "sum(k,1,k,k)" = .ok f.body :=
    Language.parse_of_formula NumberFormat.hasPlainMarks_standard rfl (by decide)
      (.of_atom (by decide) hsum)
  have hread : ({ maxPending := none } : Language).parseDefinition "f(k)=sum(k,1,k,k)" = .ok f :=
    @parseDefinition_of_parse _ _ ['f'] ['k'] _ [['k']] _ rfl (Syntax.isReserved_letter (by decide)) rfl
      (by simp [Syntax.isName, Syntax.isLowercase, Syntax.isReserved_letter]) (by decide) rfl hbody
      (Syntax.isExhausted_of_none rfl _) (by decide)
  have hregister : ({ maxPending := none } : Language).register f = .ok lang := rfl
  have hdefined : lang.registry.Defined := .register .empty hread .empty hregister
  exact ⟨hread, hdefined, rfl, rfl, call_eq_subst lang hdefined f (by simp [lang]) _ rfl ev .empty
    [.real 2.0] 0 0 rfl 2⟩

end Language

/-! ## The limit of depth -/

/-- Negations have no variables to replace. -/
theorem Expr.subst_negated (e : Expr α) (values : Bindings α) (n : Nat) :
    (e.negated n).subst values = (e.subst values).negated n := by
  induction n with
  | zero => rfl
  | succ n ih => rw [negated, subst, ih, negated]

/-- The limit of depth is what a call and its body can differ by: behind 3000 negations the call is
too deep, though its argument is not, and its body is negated no more often. -/
theorem Negation.call_too_deep :
    let f : Definition (Expr Float) := Negation.function 3000
    let lang : Language := { registry := ⟨[f]⟩, maxPending := none }
    let ev : Evaluator Float := { draw := fun _ => 0.5 }
    let call : Expr Float := .apply f [.const (.boolean true)]
    ({ maxPending := none } : Language).define
        (String.ofList ("f(x)=".toList ++ (List.replicate 3000 '!' ++ ['x']))) = .ok (f, lang) ∧
      lang.parse (String.ofList (List.replicate 3000 '!' ++ "f(true)".toList)) =
        .ok (call.negated 3000) ∧
      (ev.evaluate .empty (call.negated 3000)).outcome 0 = (.error .tooDeep, 0) ∧
      (ev.evalAt .empty (2 + 2 * 3000) call).outcome 0 = (.error .tooDeep, 0) ∧
      (ev.evalAll .empty (2 + 2 * 3000 + 4) [.const (.boolean true)]).outcome 0 =
        (.ok [.boolean true], 0) ∧
      (ev.evaluate .empty (f.body.subst (f.params.zip [.boolean true]))).outcome 0 =
        (.ok (.boolean true), 0) := by
  intro f lang ev call
  have hcall : ev.evalAt .empty (2 + 2 * 3000) call = throw .tooDeep := evalAt_call ev .empty 3000 _
  refine ⟨define_function 3000, ?_, ?_, ?_, rfl, ?_⟩
  · refine Language.parse_of_within NumberFormat.hasPlainMarks_standard rfl ?_
    rw [String.toList_ofList, Text.compact_negations 3000 rfl]
    exact .part ((operand_call 3000 99).negated 3000)
  · rw [evaluate, evalAt_negated_of_tooDeep hcall]
    rfl
  · rw [hcall]
    rfl
  · have hbody : f.body.subst (f.params.zip [.boolean true]) =
        (const (.boolean true) : Expr Float).negated 3000 := subst_negated _ _ 3000
    have hvalue : ev.evaluate .empty ((const (.boolean true) : Expr Float).negated 3000) =
        pure (.boolean true) := evalAt_negated_of_truth (b := true) rfl
    rw [hbody, hvalue]
    rfl

end Formulary
