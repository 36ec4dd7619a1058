import Formulary.Evaluation.Basic

/-!
# Constant folding

A subtree is foldable when it needs no binding and takes no random draw, not even through a
user-defined function. Every foldable subtree that is not inside a larger one is evaluated, with
nothing bound, and replaced by its value.

A subtree whose value is infinite or a NaN stays as it is, because no number literal spells it; its
own subtrees may still be folded. A subtree that fails is a failure of the folding, except where it
may never be evaluated: in a branch of `if` and in the term of a series it stays as it is.

## Failing in the middle

Folding goes through a tree from left to right. `Folding.failure` is the first failure, and
`Folding.tree` is then the tree with everything folded that came before it.

## Pending calls

`depth` is the number of calls that are pending when a tree is folded: one for each node that it is
inside of. An evaluation starts on top of them. What is foldable is found out beforehand, and that
takes more calls than the folding itself (`Expr.analysisCalls`).
-/

namespace Formulary

namespace Expr

variable {α : Type}

/-- What decides whether a tree is foldable: the names that it leaves free, and whether it is free
of random draws. -/
structure Dependence where
  names : List String
  deterministic : Bool

namespace Dependence

def none : Dependence := ⟨[], true⟩

/-- Depending on what either of two trees depends on. -/
def join (a b : Dependence) : Dependence :=
  ⟨a.names ++ b.names.filter (· ∉ a.names), a.deterministic && b.deterministic⟩

/-- Without a name, which is bound here. -/
def bind (name : String) (a : Dependence) : Dependence :=
  ⟨a.names.filter (· != name), a.deterministic⟩

end Dependence

mutual

/-- No random draw is taken, in the tree or in the functions that it calls. -/
def isDeterministic : Expr α → Bool
  | const .. | var _ => true
  | binary _ l r => l.isDeterministic && r.isDeterministic
  | unary _ x => x.isDeterministic
  | builtin f args => !f.isRandom && allDeterministic args
  | apply d args => bodyDeterministic d && allDeterministic args

/-- No random draw is taken in any of the trees. -/
def allDeterministic : List (Expr α) → Bool
  | [] => true
  | e :: es => e.isDeterministic && allDeterministic es

/-- No random draw is taken in the body of a function. -/
def bodyDeterministic : Definition (Expr α) → Bool
  | ⟨_, _, body, _⟩ => body.isDeterministic

end

mutual

/-- What a tree depends on, found in one pass from its leaves upward. Arguments behind the term of a
series are never evaluated, so their names do not matter. -/
def dependence : Expr α → Dependence
  | const .. => .none
  | var name => ⟨[name], true⟩
  | binary _ l r => l.dependence.join r.dependence
  | unary _ x => x.dependence
  | builtin .sum (var k :: start :: stop :: term :: rest)
  | builtin .prod (var k :: start :: stop :: term :: rest) =>
    let d := (start.dependence.join stop.dependence).join (term.dependence.bind k)
    ⟨d.names, d.deterministic && (dependenceOfAll rest).deterministic⟩
  | builtin f args =>
    let d := dependenceOfAll args
    ⟨d.names, d.deterministic && !f.isRandom⟩
  | apply f args =>
    let d := dependenceOfAll args
    ⟨d.names, d.deterministic && bodyDeterministic f⟩

/-- What several trees depend on together. -/
def dependenceOfAll : List (Expr α) → Dependence
  | [] => .none
  | e :: es => e.dependence.join (dependenceOfAll es)

end

mutual

/-- How many more calls are pending at most while the calls in a tree are searched for random draws.
The search ends at the first one. -/
def searchCalls : Expr α → Nat
  | const .. | var _ => 0
  | binary _ l r => if l.isDeterministic then max l.searchCalls r.searchCalls else l.searchCalls
  | unary _ x => x.searchCalls
  | builtin f args => if f.isRandom then 0 else searchCallsOfAll args
  | apply d args =>
    if bodyDeterministic d then max (bodyCalls d) (searchCallsOfAll args) else bodyCalls d

/-- The same for several trees, from left to right. -/
def searchCallsOfAll : List (Expr α) → Nat
  | [] => 0
  | e :: es => if e.isDeterministic then max e.searchCalls (searchCallsOfAll es) else e.searchCalls

/-- The same for the body of a function: its nodes are listed, one call for each level, and then the
calls among them are searched. -/
def bodyCalls : Definition (Expr α) → Nat
  | ⟨_, _, body, _⟩ => max body.height body.searchCalls + 1

end

mutual

/-- How many more calls are pending at most while the dependence of a tree and of all its parts is
found: two for each level, and those that the search of a called function takes. -/
def analysisCalls : Expr α → Nat
  | var _ => 1
  | const .. => 2
  | binary _ l r => max l.analysisCalls r.analysisCalls + 2
  | unary _ x => x.analysisCalls + 2
  | builtin _ args => analysisCallsOfAll args + 2
  | apply d args =>
    max (analysisCallsOfAll args + 2) (if allDeterministic args then bodyCalls d + 1 else 0)

/-- The most calls that any of several trees takes. -/
def analysisCallsOfAll : List (Expr α) → Nat
  | [] => 0
  | e :: es => max e.analysisCalls (analysisCallsOfAll es)

end

/-- The tree has one value, whatever is bound and drawn. -/
def isFoldable (e : Expr α) : Bool :=
  let d := e.dependence
  d.names.isEmpty && d.deterministic

/-- What a call of a series lacks, if it has no loop variable or no term. -/
def seriesFault? (f : Builtin) (args : List (Expr α)) : Option (EvalError α) :=
  match f.isSeries, args with
  | false, _ => .none
  | true, var _ :: rest => if rest.length < 3 then some (.missingArgument f.name) else .none
  | true, _ :: _ => some (.noLoopVariable f.name)
  | true, [] => some (.missingArgument f.name)

mutual

/-- What the first series without a loop variable or a term lacks, found from the leaves upward. No
formula that can be read has one. -/
def malformedSeries? : Expr α → Option (EvalError α)
  | const .. | var _ => .none
  | binary _ l r => l.malformedSeries?.or r.malformedSeries?
  | unary _ x => x.malformedSeries?
  | builtin f args => (malformedSeriesAmong? args).or (seriesFault? f args)
  | apply _ args => malformedSeriesAmong? args

/-- The same for several trees, from left to right. -/
def malformedSeriesAmong? : List (Expr α) → Option (EvalError α)
  | [] => .none
  | e :: es => e.malformedSeries?.or (malformedSeriesAmong? es)

end

end Expr

/-- What became of a tree: the tree as folded so far, the number of subtrees that were replaced, and
the failure that ended the folding, if one did. -/
structure Folding (α : Type) where
  tree : Expr α
  count : Nat := 0
  failure : Option (EvalError α) := none

/-- The same for the arguments of a call. -/
structure ArgsFolding (α : Type) where
  trees : List (Expr α)
  count : Nat := 0
  failure : Option (EvalError α) := none

namespace Folding

variable {α : Type}

/-- What trying to replace one subtree as a whole comes to. -/
inductive Attempt (α : Type) where
  | replaced (value : Value α)
  | failed (error : EvalError α)
  | kept

/-- May a failure of this kind be left for an evaluation to report? -/
def isCalculation (e : EvalError α) : Bool :=
  match e.kind with
  | .zeroDivisor | .missingArgument | .noLoopVariable => false
  | _ => true

variable [Scalar α]

/-- Evaluates a foldable subtree. Constants are left alone, so that folding twice replaces nothing
the second time. -/
def attempt (ev : Evaluator α) (depth : Nat) (conditional : Bool) (e : Expr α) :
    StateM Nat (Attempt α) := do
  if e.isConst || !e.isFoldable then return .kept
  else
    match ← (ev.evalAt .empty (depth + 2) e).run with
    | .ok v => return if v.isFinite then .replaced v else .kept
    | .error err => return if conditional && isCalculation err then .kept else .failed err

/-- Is the argument with this index of a builtin function evaluated only depending on the values of
others? -/
def isConditional (f : Builtin) (index : Nat) : Bool :=
  match f with
  | .cond => 1 ≤ index
  | .sum | .prod => index == 3
  | _ => false

mutual

/-- A tree folded; `conditional` if it may never be evaluated. -/
def ofExpr (ev : Evaluator α) (depth : Nat) (conditional : Bool) (e : Expr α) :
    StateM Nat (Folding α) := do
  match ← attempt ev depth conditional e with
  | .replaced v => return { tree := .const v, count := 1 }
  | .failed err => return { tree := e, failure := some err }
  | .kept =>
    match e with
    | .const v origin => return { tree := .const v origin }
    | .var name => return { tree := .var name }
    | .binary op l r => do
      let a ← ofExpr ev (depth + 1) conditional l
      if a.failure.isSome then return { a with tree := .binary op a.tree r }
      else
        let b ← ofExpr ev (depth + 1) conditional r
        return ⟨.binary op a.tree b.tree, a.count + b.count, b.failure⟩
    | .unary f x => do
      let a ← ofExpr ev (depth + 1) conditional x
      return { a with tree := .unary f a.tree }
    | .builtin f args => do
      let a ← ofArgs ev (depth + 1) (fun index => conditional || isConditional f index) 0 args
      return ⟨.builtin f a.trees, a.count, a.failure⟩
    | .apply d args => do
      let a ← ofArgs ev (depth + 1) (fun _ => conditional) 0 args
      return ⟨.apply d a.trees, a.count, a.failure⟩

/-- Arguments folded, from the one with index `index` on. -/
def ofArgs (ev : Evaluator α) (depth : Nat) (conditional : Nat → Bool) (index : Nat) :
    List (Expr α) → StateM Nat (ArgsFolding α)
  | [] => return { trees := [] }
  | e :: es => do
    let a ← ofExpr ev depth (conditional index) e
    if a.failure.isSome then return ⟨a.tree :: es, a.count, a.failure⟩
    else
      let b ← ofArgs ev depth conditional (index + 1) es
      return ⟨a.tree :: b.trees, a.count + b.count, b.failure⟩

end

/-- A whole tree folded, as it is asked for from outside. -/
def run (ev : Evaluator α) (e : Expr α) : StateM Nat (Folding α) := ofExpr ev 3 false e

end Folding

end Formulary
