import Formulary.Expr.Folding
import Formulary.Proofs.Evaluation.Call
import Formulary.Proofs.Evaluation.Within

/-!
# What an evaluation depends on

An evaluation reads its scope at the names of `Expr.dependence` only, and where it has more room it
gives the same outcomes, up to the limit: this is `Evaluator.evalAt_within`. More room is a smaller
depth or no limit at all. With the same room nothing is up to the limit, so the outcomes are equal
(`Evaluator.evalAt_eq_of_agree`). A tree without random draws, also in the functions that it calls,
takes none, and it has the same outcome whatever the draws are: this is `Evaluator.evalAt_drawless`.

Both are inductions over the tree and the bodies of the functions that it calls, with one case for
each shape of a call. The first one changes the scopes on its way: inside a series, two scopes agree
on the loop variable as well.

How many frames of a scope a search comes to is part of what an evaluation reads, as long as there
is a limit. So two scopes `Agree` under an evaluator if they have the same values for some names
and, if the evaluator has a limit, find them equally fast. Without a limit the values alone decide,
and any evaluation has the outcomes of the unlimited one up to its limit
(`Evaluator.evalAt_unlimited`).
-/

namespace Formulary

open Formulary.Expr

/-- The number of calls that may be pending is limited. -/
def Evaluator.IsLimited {α : Type} (ev : Evaluator α) : Prop := ev.maxPending ≠ none

/-! ## Scopes that agree -/

namespace Expr.Dependence

variable {a b : Dependence} {name k : String}

@[simp] theorem mem_join : name ∈ (a.join b).names ↔ name ∈ a.names ∨ name ∈ b.names := by
  by_cases h : name ∈ a.names <;> simp [join, h]

@[simp] theorem mem_bind : name ∈ (a.bind k).names ↔ name ∈ a.names ∧ name ≠ k := by
  simp [bind]

end Expr.Dependence

namespace Scope

variable {α : Type} {ev : Evaluator α} {scope scope' : Scope α} {a b : Dependence}
  {names names' : List String}

/-- Two scopes have the same values for some names, or the same report of a missing one. As far as
that matters, they are searched equally long for it. -/
def Agree (ev : Evaluator α) (names : List String) (scope scope' : Scope α) : Prop :=
  ∀ name ∈ names, scope.lookup name = scope'.lookup name ∧
    (ev.IsLimited → scope.reach name = scope'.reach name)

/-- A scope agrees with itself. -/
theorem Agree.refl (ev : Evaluator α) (names : List String) (scope : Scope α) :
    Agree ev names scope scope := fun _ _ => ⟨rfl, fun _ => rfl⟩

/-- Scopes that agree on some names agree on fewer. -/
theorem Agree.mono (h : Agree ev names scope scope') (hsub : ∀ name ∈ names', name ∈ names) :
    Agree ev names' scope scope' := fun name hname => h name (hsub name hname)

/-- Scopes that agree on what two trees depend on agree on the first one. -/
theorem Agree.left (h : Agree ev (a.join b).names scope scope') : Agree ev a.names scope scope' :=
  h.mono fun _ hname => Dependence.mem_join.2 (.inl hname)

/-- Scopes that agree on what two trees depend on agree on the second one. -/
theorem Agree.right (h : Agree ev (a.join b).names scope scope') : Agree ev b.names scope scope' :=
  h.mono fun _ hname => Dependence.mem_join.2 (.inr hname)

/-- Inside a series, its loop variable hides what is outside. -/
theorem lookup_loopScope [Scalar α] (scope : Scope α) (f : Builtin) (k name : String) (x : α) :
    (Evaluator.loopScope scope f k x).lookup name =
      if k = name then .ok (.real x) else scope.lookup name := by
  by_cases h : k = name
  · simp [Evaluator.loopScope, lookup, get?, frames, child, define, Bindings.insert,
      Bindings.get?, h]
  · -- the outermost frame, which a report lists, is that of the scope outside
    have hframe : (Evaluator.loopScope scope f k x).outermost = scope.outermost := by
      simp only [Evaluator.loopScope, outermost, child, define, List.getLastD_cons]
    have hget : (Evaluator.loopScope scope f k x).get? name = scope.get? name := by
      simp [Evaluator.loopScope, get?, frames, child, define, Bindings.insert, Bindings.get?, h]
    rw [if_neg h, lookup, lookup, hframe, hget]

/-- The loop variable is found at once, and any other name one frame later. -/
theorem reach_loopScope [Scalar α] (scope : Scope α) (f : Builtin) (k name : String) (x : α) :
    (Evaluator.loopScope scope f k x).reach name = if k = name then 1 else scope.reach name + 1 := by
  by_cases h : k = name <;>
    simp [Evaluator.loopScope, reach, frames, searched, child, define, Bindings.insert,
      Bindings.get?, h]

/-- Inside a series, scopes agree on the loop variable as well. -/
theorem Agree.loopScope [Scalar α] {k : String} (h : Agree ev (a.bind k).names scope scope')
    (f : Builtin) (x : α) :
    Agree ev a.names (Evaluator.loopScope scope f k x) (Evaluator.loopScope scope' f k x) := by
  intro name hname
  rw [lookup_loopScope, lookup_loopScope, reach_loopScope, reach_loopScope]
  by_cases hk : k = name
  · simp only [if_pos hk, implies_true, and_self]
  · obtain ⟨hlookup, hreach⟩ := h name (Dependence.mem_bind.2 ⟨hname, fun heq => hk heq.symm⟩)
    simp only [if_neg hk]
    exact ⟨hlookup, fun hlimited => by rw [hreach hlimited]⟩

/-- What a series depends on, given the arguments behind its loop variable. -/
def seriesDependence (k : String) : List (Expr α) → Dependence
  | start :: stop :: term :: _ =>
    (start.dependence.join stop.dependence).join (term.dependence.bind k)
  | args => dependenceOfAll args

/-- Scopes that agree on what a series depends on agree on its bounds and its term. -/
theorem Agree.series {f : Builtin} {k : String} {args : List (Expr α)} (hf : f.isSeries = true)
    (h : Agree ev (builtin f (.var k :: args)).dependence.names scope scope') :
    Agree ev (seriesDependence k args).names scope scope' := by
  rcases args with _ | ⟨start, _ | ⟨stop, _ | ⟨term, rest⟩⟩⟩
  case cons.cons.cons => cases f <;> first | exact h | cases hf
  all_goals
    refine Agree.right (a := (Expr.var (α := α) k).dependence) (h.mono fun name hname => ?_)
    cases f <;> exact hname

/-- Only what a series depends on leaves out some of the arguments. -/
theorem Agree.call {f : Builtin} {args : List (Expr α)} (hf : f.isSeries = false)
    (h : Agree ev (builtin f args).dependence.names scope scope') :
    Agree ev (dependenceOfAll args).names scope scope' := by
  cases f <;> first | exact h | cases hf

end Scope

/-! ## The limit of depth -/

namespace Evaluator

section Depth

variable {α : Type} {ev ev' : Evaluator α} {depth depth' : Nat}

/-- What is too deep is too deep with more calls pending. -/
theorem isTooDeep_mono (h : depth' ≤ depth) (hdeep : ev.isTooDeep depth' = true) :
    ev.isTooDeep depth = true := CallLimit.isExceeded_mono h hdeep

/-- Only an evaluator with a limit finds something too deep. -/
theorem isLimited_of_isTooDeep (h : ev.isTooDeep depth = true) : ev.IsLimited :=
  CallLimit.ne_none_of_isExceeded h

/-- The same evaluator with room for any number of calls. -/
def unlimited (ev : Evaluator α) : Evaluator α := { ev with maxPending := none }

/-- Without a limit, the calls are not limited. -/
theorem not_isLimited_unlimited (ev : Evaluator α) : ¬ ev.unlimited.IsLimited := fun h => h rfl

/-- An evaluation at the first depth stands for one at the second depth, which has no less room.
Where it has more, the first evaluation may be `limited`. -/
structure Below (limited : Prop) (ev : Evaluator α) (depth : Nat) (ev' : Evaluator α) (depth' : Nat) :
    Prop where
  draw : ev.draw = ev'.draw
  maxSeriesTerms : ev.maxSeriesTerms = ev'.maxSeriesTerms
  tooDeep (calls : Nat) (h : ev'.isTooDeep (depth' + calls) = true) :
    ev.isTooDeep (depth + calls) = true
  limited (calls : Nat) (h : ev.isTooDeep (depth + calls) = true) :
    ev'.isTooDeep (depth' + calls) = true ∨ limited

namespace Below

variable {limited : Prop}

/-- A depth has no less room than itself. -/
theorem refl (ev : Evaluator α) (depth : Nat) : Below limited ev depth ev depth :=
  ⟨rfl, rfl, fun _ => id, fun _ => .inl⟩

/-- A lower depth has no less room. -/
theorem of_le (ev : Evaluator α) (h : depth' ≤ depth) : Below ev.IsLimited ev depth ev depth' :=
  ⟨rfl, rfl, fun _ => isTooDeep_mono (by omega), fun _ hdeep => .inr (isLimited_of_isTooDeep hdeep)⟩

/-- Without a limit, there is no less room at any depth. -/
theorem unlimited (ev : Evaluator α) (depth depth' : Nat) :
    Below ev.IsLimited ev depth ev.unlimited depth' :=
  ⟨rfl, rfl, fun _ => nofun, fun _ hdeep => .inr (isLimited_of_isTooDeep hdeep)⟩

/-- More calls on both sides. -/
theorem add (h : Below limited ev depth ev' depth') (calls : Nat) :
    Below limited ev (depth + calls) ev' (depth' + calls) where
  draw := h.draw
  maxSeriesTerms := h.maxSeriesTerms
  tooDeep more := by
    rw [Nat.add_assoc, Nat.add_assoc]
    exact h.tooDeep (calls + more)
  limited more := by
    rw [Nat.add_assoc, Nat.add_assoc]
    exact h.limited (calls + more)

/-- The check of the depth comes before what is done there. -/
theorem guard (h : Below limited ev depth ev' depth') {x y : Eval α (Value α)} (calls : Nat)
    (hxy : Eval.Within limited x y) :
    Eval.Within limited (if ev.isTooDeep (depth + calls) then throw .tooDeep else x)
      (if ev'.isTooDeep (depth' + calls) then throw .tooDeep else y) := by
  by_cases hdeep : ev.isTooDeep (depth + calls) = true
  · rw [if_pos hdeep]
    rcases h.limited calls hdeep with hdeep' | hlimited
    · rw [if_pos hdeep']
      exact .refl _
    · exact .tooDeep hlimited
  · rw [if_neg hdeep, if_neg fun hdeep' => hdeep (h.tooDeep calls hdeep')]
    exact hxy

/-- A variable has the same value where scopes agree on it. -/
theorem evalVar {name : String} {scope scope' : Scope α} (h : Below limited ev depth ev' depth')
    (hname : Scope.Agree ev [name] scope scope') :
    Eval.Within limited (ev.evalVar scope depth name) (ev'.evalVar scope' depth' name) := by
  obtain ⟨hlookup, hreach⟩ := hname name List.mem_cons_self
  unfold Evaluator.evalVar
  rw [hlookup]
  by_cases hlimited : ev.IsLimited
  · rw [hreach hlimited]
    exact h.guard _ (.refl _)
  · -- without a limit on the left there is none on the right
    rw [if_neg fun hdeep => hlimited (isLimited_of_isTooDeep hdeep),
      if_neg fun hdeep => hlimited (isLimited_of_isTooDeep (h.tooDeep _ hdeep))]
    exact .refl _

end Below

end Depth

/-- The same evaluator with other draws to take. -/
def withDraw {α : Type} (ev : Evaluator α) (draw : Nat → α) : Evaluator α := { ev with draw }

@[simp] theorem isTooDeep_withDraw {α : Type} (ev : Evaluator α) (draw : Nat → α) (depth : Nat) :
    (ev.withDraw draw).isTooDeep depth = ev.isTooDeep depth := rfl

variable {α : Type} [Scalar α] {ev ev' : Evaluator α} {limited : Prop}

/-- There has to be room for the calls of a node. -/
theorem evalAt_of_isTooDeep {depth : Nat} (h : ev.isTooDeep (depth + 2) = true) (scope : Scope α)
    (e : Expr α) : ev.evalAt scope depth e = throw .tooDeep := by
  rw [evalAt.eq_def, if_pos h]

/-! ## Series -/

/-- Terms that stand for others are joined to a value that stands for theirs. -/
theorem accumulate_within {op : BinaryOp} {term term' : α → Eval α (Value α)}
    (h : ∀ x, Eval.Within limited (term x) (term' x)) (start : α) :
    ∀ (count step : Nat) (result : Value α),
      Eval.Within limited (accumulate op term start step count result)
        (accumulate op term' start step count result) := by
  intro count
  induction count with
  | zero => intro step result; exact .refl _
  | succ count ih =>
    intro step result
    exact .bind (h _) fun _ => .bind (.refl _) fun joined => ih (step + 1) joined

/-- Series with the same bounds, whose terms have the same outcomes. -/
theorem series_within {f : Builtin} {start stop : Value α} {term term' : α → Eval α (Value α)}
    (hmax : ev.maxSeriesTerms = ev'.maxSeriesTerms)
    (h : ∀ x, Eval.Within limited (term x) (term' x)) :
    Eval.Within limited (ev.series f start stop term) (ev'.series f start stop term') := by
  have hcount (a b : α) : ev.termCount f a b = ev'.termCount f a b := by
    unfold termCount
    rw [hmax]
  refine .bind (.refl _) fun (a, b) => ?_
  dsimp only
  rw [hcount a b]
  exact .bind (.refl _) fun _ => accumulate_within h _ _ _ _

/-- Terms that take no draws are joined without one. -/
theorem accumulate_drawless {op : BinaryOp} {term term' : α → Eval α (Value α)}
    (h : ∀ x, Eval.Drawless (term x) (term' x)) (start : α) :
    ∀ (count step : Nat) (result : Value α),
      Eval.Drawless (accumulate op term start step count result)
        (accumulate op term' start step count result) := by
  intro count
  induction count with
  | zero => intro step result; exact .pure _
  | succ count ih =>
    intro step result
    exact .bind (h _) fun _ => .bind (.of _) fun joined => ih (step + 1) joined

/-- A series whose terms take no draws takes none, and other draws change nothing. -/
theorem series_drawless {f : Builtin} {start stop : Value α} {term term' : α → Eval α (Value α)}
    {draw : Nat → α} (h : ∀ x, Eval.Drawless (term x) (term' x)) :
    Eval.Drawless (ev.series f start stop term)
      ((ev.withDraw draw).series f start stop term') :=
  .bind (.of _) fun (_, _) => .bind (.of _) fun _ => accumulate_drawless h _ _ _ _

/-! ## Scopes and depths -/

mutual

/-- Scopes that agree on what a tree depends on give the same outcomes, and so does more room, up to
the limit. -/
theorem evalAt_within (e : Expr α) {scope scope' : Scope α} {depth depth' : Nat}
    (hdepth : Below limited ev depth ev' depth') (h : Scope.Agree ev e.dependence.names scope scope') :
    Eval.Within limited (ev.evalAt scope depth e) (ev'.evalAt scope' depth' e) := by
  match e with
  | .const v _ =>
    rw [evalAt, evalAt]
    exact hdepth.guard 2 (.refl _)
  | .var name =>
    rw [evalAt, evalAt]
    exact hdepth.guard 2 ((hdepth.add 2).evalVar h)
  | .binary op l r =>
    rw [evalAt, evalAt]
    have hl := evalAt_within l (hdepth.add 2) h.left
    have hr := evalAt_within r (hdepth.add 2) h.right
    exact hdepth.guard 2 (.bind hl fun _ => .bind hr fun _ => .refl _)
  | .unary f x =>
    rw [evalAt, evalAt]
    have hx := evalAt_within x (hdepth.add 2) h
    exact hdepth.guard 2 (.bind hx fun _ => .refl _)
  | .builtin f args =>
    rw [evalAt, evalAt]
    exact hdepth.guard 2 (evalCall_within f args (hdepth.add 2) h)
  | .apply d args =>
    rw [evalAt, evalAt]
    have hargs := evalAll_within args (hdepth.add 4) h
    exact hdepth.guard 2 (.bind hargs fun values => evalBody_within values d (hdepth.add 3))

/-- `evalAt_within` for a call of a builtin function. -/
theorem evalCall_within (f : Builtin) (args : List (Expr α)) {scope scope' : Scope α}
    {depth depth' : Nat} (hdepth : Below limited ev depth ev' depth')
    (h : Scope.Agree ev (builtin f args).dependence.names scope scope') :
    Eval.Within limited (ev.evalCall scope depth f args)
      (ev'.evalCall scope' depth' f args) := by
  cases Builtin.shape f args with
  | other name args =>
    rw [evalCall, evalCall]
    exact .refl _
  | cond condition branches =>
    rw [evalCall, evalCall]
    have h := h.call rfl
    have hcondition := evalAt_within condition (hdepth.add 1) h.left
    exact .bind hcondition fun _ => .bind (.refl _) fun b =>
      evalBranch_within b branches (hdepth.add 1) h.right
  | rand limit rest =>
    rw [evalCall, evalCall]
    have hlimit := evalAt_within limit (hdepth.add 1) (h.call rfl).left
    rw [hdepth.draw]
    exact .bind hlimit fun _ => .bind (.refl _) fun _ => .refl _
  | series hf k args =>
    rw [evalCall_series _ _ _ hf, evalCall_series _ _ _ hf]
    exact evalSeries_within f k args (hdepth.add 2) (h.series hf)
  | missing hf =>
    rw [evalCall_missing _ _ _ hf, evalCall_missing _ _ _ hf]
    exact .refl _
  | noVariable hf he rest =>
    rw [evalCall_noVariable _ _ _ hf he, evalCall_noVariable _ _ _ hf he]
    exact .refl _

/-- `evalAt_within` for a series. -/
theorem evalSeries_within (f : Builtin) (k : String) (args : List (Expr α))
    {scope scope' : Scope α} {depth depth' : Nat} (hdepth : Below limited ev depth ev' depth')
    (h : Scope.Agree ev (Scope.seriesDependence k args).names scope scope') :
    Eval.Within limited (ev.evalSeries scope depth f k args)
      (ev'.evalSeries scope' depth' f k args) := by
  match args with
  | [] =>
    rw [evalSeries, evalSeries]
    exact .refl _
  | [start] =>
    rw [evalSeries, evalSeries]
    exact .bind (evalAt_within start hdepth (Scope.Agree.left h)) fun _ => .refl _
  | [start, stop] =>
    rw [evalSeries, evalSeries]
    have hstart := evalAt_within start hdepth (Scope.Agree.left h)
    have hstop := evalAt_within stop hdepth (Scope.Agree.left (Scope.Agree.right h))
    refine .bind hstart fun _ => .bind hstop fun _ => series_within hdepth.maxSeriesTerms fun x => ?_
    rw [evalTerm, evalTerm]
    exact .refl _
  | start :: stop :: term :: rest =>
    rw [evalSeries, evalSeries]
    have hstart := evalAt_within start hdepth h.left.left
    have hstop := evalAt_within stop hdepth h.left.right
    refine .bind hstart fun _ => .bind hstop fun _ => series_within hdepth.maxSeriesTerms fun x => ?_
    rw [evalTerm, evalTerm]
    exact evalAt_within term hdepth (h.right.loopScope f x)

/-- `evalAt_within` for the branches of a condition. -/
theorem evalBranch_within (b : Bool) (args : List (Expr α)) {scope scope' : Scope α}
    {depth depth' : Nat} (hdepth : Below limited ev depth ev' depth')
    (h : Scope.Agree ev (dependenceOfAll args).names scope scope') :
    Eval.Within limited (ev.evalBranch scope depth b args)
      (ev'.evalBranch scope' depth' b args) := by
  match b, args with
  | b, [] =>
    rw [evalBranch, evalBranch]
    exact .refl _
  | true, [yes] =>
    rw [evalBranch, evalBranch]
    exact evalAt_within yes hdepth (Scope.Agree.left h)
  | false, [yes] =>
    rw [evalBranch, evalBranch]
    exact .refl _
  | true, yes :: no :: rest =>
    rw [evalBranch, evalBranch]
    exact evalAt_within yes hdepth (Scope.Agree.left h)
  | false, yes :: no :: rest =>
    rw [evalBranch, evalBranch]
    exact evalAt_within no hdepth (Scope.Agree.left (Scope.Agree.right h))

/-- `evalAt_within` for a list of arguments. -/
theorem evalAll_within (es : List (Expr α)) {scope scope' : Scope α} {depth depth' : Nat}
    (hdepth : Below limited ev depth ev' depth')
    (h : Scope.Agree ev (dependenceOfAll es).names scope scope') :
    Eval.Within limited (ev.evalAll scope depth es) (ev'.evalAll scope' depth' es) := by
  match es with
  | [] =>
    rw [evalAll, evalAll]
    exact .refl _
  | e :: es =>
    rw [evalAll, evalAll]
    have he := evalAt_within e hdepth (Scope.Agree.left h)
    have hes := evalAll_within es hdepth (Scope.Agree.right h)
    exact .bind he fun _ => .bind hes fun _ => .refl _

/-- `evalAt_within` for the body of a function, whose scope is its own. -/
theorem evalBody_within (values : List (Value α)) (d : Definition (Expr α))
    {depth depth' : Nat} (hdepth : Below limited ev depth ev' depth') :
    Eval.Within limited (ev.evalBody depth values d) (ev'.evalBody depth' values d) := by
  match d with
  | ⟨name, params, body, _⟩ =>
    rw [evalBody, evalBody]
    exact evalAt_within body hdepth (.refl _ _ _)

end

/-- At one depth, scopes that agree on what a tree depends on give the same outcomes. -/
theorem evalAt_eq_of_agree {e : Expr α} {scope scope' : Scope α}
    (h : Scope.Agree ev e.dependence.names scope scope') (depth : Nat) :
    ev.evalAt scope depth e = ev.evalAt scope' depth e :=
  (evalAt_within e (.refl ev depth) h).eq id

/-- Without a limit there is no other outcome, unless the evaluation is too deep. -/
theorem evalAt_unlimited (e : Expr α) (scope : Scope α) (depth depth' : Nat) :
    Eval.Within ev.IsLimited (ev.evalAt scope depth e) (ev.unlimited.evalAt scope depth' e) :=
  evalAt_within e (.unlimited ev depth depth') (.refl ev _ scope)

/-- Without a limit the depth does not matter, nor how long a scope is searched. -/
theorem evalAt_eq_of_not_isLimited {e : Expr α} {scope scope' : Scope α} (hev : ¬ ev.IsLimited)
    (h : ∀ name ∈ e.dependence.names, scope.lookup name = scope'.lookup name) (depth depth' : Nat) :
    ev.evalAt scope depth e = ev.evalAt scope' depth' e := by
  have hroom (calls : Nat) : ev.isTooDeep calls = false :=
    Bool.eq_false_iff.2 fun hdeep => hev (isLimited_of_isTooDeep hdeep)
  have hbelow : Below False ev depth ev depth' := ⟨rfl, rfl, by simp [hroom], by simp [hroom]⟩
  refine (evalAt_within e hbelow fun name hname => ?_).eq id
  exact ⟨h name hname, fun hlimited => absurd hlimited hev⟩

/-! ## Random draws -/

variable {draw : Nat → α}

mutual

/-- Without random draws in it, a tree takes none, whatever the draws are. -/
theorem evalAt_drawless (e : Expr α) (he : e.isDeterministic = true)
    (scope : Scope α) (depth : Nat) :
    Eval.Drawless (ev.evalAt scope depth e) ((ev.withDraw draw).evalAt scope depth e) := by
  by_cases hdeep : ev.isTooDeep (depth + 2) = true
  · rw [evalAt.eq_def, evalAt.eq_def (ev.withDraw draw), isTooDeep_withDraw, if_pos hdeep,
      if_pos hdeep]
    exact .throw _
  match e with
  | .const v _ =>
    rw [evalAt, evalAt, isTooDeep_withDraw, if_neg hdeep]
    exact .pure v
  | .var name =>
    rw [evalAt, evalAt, isTooDeep_withDraw, if_neg hdeep, evalVar, evalVar, isTooDeep_withDraw]
    split
    · exact .throw _
    · exact .of _
  | .binary op l r =>
    rw [isDeterministic, Bool.and_eq_true] at he
    rw [evalAt, evalAt, isTooDeep_withDraw, if_neg hdeep, if_neg hdeep]
    have hl := evalAt_drawless l he.1 scope (depth + 2)
    have hr := evalAt_drawless r he.2 scope (depth + 2)
    exact .bind hl fun _ => .bind hr fun _ => .of _
  | .unary f x =>
    rw [isDeterministic] at he
    rw [evalAt, evalAt, isTooDeep_withDraw, if_neg hdeep, if_neg hdeep]
    exact .bind (evalAt_drawless x he scope (depth + 2)) fun _ => .of _
  | .builtin f args =>
    rw [isDeterministic, Bool.and_eq_true, Bool.not_eq_true'] at he
    rw [evalAt, evalAt, isTooDeep_withDraw, if_neg hdeep, if_neg hdeep]
    exact evalCall_drawless f args he.1 he.2 scope (depth + 2)
  | .apply d args =>
    rw [isDeterministic, Bool.and_eq_true] at he
    rw [evalAt, evalAt, isTooDeep_withDraw, if_neg hdeep, if_neg hdeep]
    have hargs := evalAll_drawless args he.2 scope (depth + 4)
    exact .bind hargs fun values => evalBody_drawless values d he.1 (depth + 3)

/-- `evalAt_drawless` for a call of a builtin function. -/
theorem evalCall_drawless (f : Builtin) (args : List (Expr α)) (hf : f.isRandom = false)
    (hargs : allDeterministic args = true) (scope : Scope α) (depth : Nat) :
    Eval.Drawless (ev.evalCall scope depth f args)
      ((ev.withDraw draw).evalCall scope depth f args) := by
  cases Builtin.shape f args with
  | other name args =>
    rw [evalCall, evalCall]
    exact .throw _
  | cond condition branches =>
    rw [allDeterministic, Bool.and_eq_true] at hargs
    rw [evalCall, evalCall]
    exact .bind (evalAt_drawless condition hargs.1 scope (depth + 1)) fun _ => .bind (.of _) fun b =>
      evalBranch_drawless b branches hargs.2 scope (depth + 1)
  | rand => cases hf
  | series hf k args =>
    rw [allDeterministic, Bool.and_eq_true] at hargs
    rw [evalCall_series _ _ _ hf, evalCall_series _ _ _ hf]
    exact evalSeries_drawless f k args hargs.2 scope (depth + 2)
  | missing hf =>
    rw [evalCall_missing _ _ _ hf, evalCall_missing _ _ _ hf]
    exact .throw _
  | noVariable hf he rest =>
    rw [evalCall_noVariable _ _ _ hf he, evalCall_noVariable _ _ _ hf he]
    exact .throw _

/-- `evalAt_drawless` for a series. -/
theorem evalSeries_drawless (f : Builtin) (k : String) (args : List (Expr α))
    (hargs : allDeterministic args = true) (scope : Scope α) (depth : Nat) :
    Eval.Drawless (ev.evalSeries scope depth f k args)
      ((ev.withDraw draw).evalSeries scope depth f k args) := by
  match args with
  | [] =>
    rw [evalSeries, evalSeries]
    exact .throw _
  | [start] =>
    rw [allDeterministic, Bool.and_eq_true] at hargs
    rw [evalSeries, evalSeries]
    exact .bind (evalAt_drawless start hargs.1 scope depth) fun _ => .throw _
  | start :: stop :: term =>
    simp only [allDeterministic, Bool.and_eq_true] at hargs
    rw [evalSeries, evalSeries]
    have hstart := evalAt_drawless start hargs.1 scope depth
    have hstop := evalAt_drawless stop hargs.2.1 scope depth
    exact .bind hstart fun _ => .bind hstop fun _ => 
      series_drawless fun x =>
        evalTerm_drawless f term hargs.2.2 (loopScope scope f k x) depth

/-- `evalAt_drawless` for the term of a series. -/
theorem evalTerm_drawless (f : Builtin) (args : List (Expr α))
    (hargs : allDeterministic args = true) (scope : Scope α) (depth : Nat) :
    Eval.Drawless (ev.evalTerm scope depth f args)
      ((ev.withDraw draw).evalTerm scope depth f args) := by
  match args with
  | [] =>
    rw [evalTerm, evalTerm]
    exact .throw _
  | term :: rest =>
    rw [allDeterministic, Bool.and_eq_true] at hargs
    rw [evalTerm, evalTerm]
    exact evalAt_drawless term hargs.1 scope depth

/-- `evalAt_drawless` for the branches of a condition. -/
theorem evalBranch_drawless (b : Bool) (args : List (Expr α))
    (hargs : allDeterministic args = true) (scope : Scope α) (depth : Nat) :
    Eval.Drawless (ev.evalBranch scope depth b args)
      ((ev.withDraw draw).evalBranch scope depth b args) := by
  match b, args with
  | true, [] =>
    rw [evalBranch, evalBranch]
    exact .throw _
  | false, [] =>
    rw [evalBranch, evalBranch]
    exact .pure _
  | true, [yes] =>
    rw [allDeterministic, Bool.and_eq_true] at hargs
    rw [evalBranch, evalBranch]
    exact evalAt_drawless yes hargs.1 scope depth
  | false, [yes] =>
    rw [evalBranch, evalBranch]
    exact .pure _
  | true, yes :: no :: rest =>
    rw [allDeterministic, Bool.and_eq_true] at hargs
    rw [evalBranch, evalBranch]
    exact evalAt_drawless yes hargs.1 scope depth
  | false, yes :: no :: rest =>
    simp only [allDeterministic, Bool.and_eq_true] at hargs
    rw [evalBranch, evalBranch]
    exact evalAt_drawless no hargs.2.1 scope depth

/-- `evalAt_drawless` for a list of arguments. -/
theorem evalAll_drawless (es : List (Expr α)) (hes : allDeterministic es = true)
    (scope : Scope α) (depth : Nat) : Eval.Drawless (ev.evalAll scope depth es)
      ((ev.withDraw draw).evalAll scope depth es) := by
  match es with
  | [] =>
    rw [evalAll, evalAll]
    exact .pure _
  | e :: es =>
    rw [allDeterministic, Bool.and_eq_true] at hes
    rw [evalAll, evalAll]
    have he := evalAt_drawless e hes.1 scope depth
    exact .bind he fun _ => .bind (evalAll_drawless es hes.2 scope depth) fun _ => .pure _

/-- `evalAt_drawless` for the body of a function. -/
theorem evalBody_drawless (values : List (Value α)) (d : Definition (Expr α))
    (hd : bodyDeterministic d = true) (depth : Nat) :
    Eval.Drawless (ev.evalBody depth values d)
      ((ev.withDraw draw).evalBody depth values d) := by
  match d with
  | ⟨name, params, body, _⟩ =>
    rw [bodyDeterministic] at hd
    rw [evalBody, evalBody]
    exact evalAt_drawless body hd _ depth

end

end Evaluator

end Formulary
