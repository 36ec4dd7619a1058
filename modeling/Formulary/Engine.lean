import Formulary.Expr.Folding
import Formulary.Expr.Render
import Formulary.Failure
import Formulary.Syntax.Definition

/-!
# The formula engine

An engine reads formulas in its language, which grows with every function that is defined on it, and
evaluates, folds, renders, derives and integrates them. Functions that are defined on one engine are
unknown to every other one.

Random draws are taken in turn: an engine knows how many have been taken, and an operation that
fails keeps what it has taken.

Whatever goes through a tree needs room for its pending calls. Where there is not enough, an
evaluation reports an error of the formula. Rendering, the analysis that comes before folding, and
the rules for derivatives and antiderivatives report none: they end with `Failure.exhausted`.
-/

namespace Formulary

/-- A language, the surroundings of evaluations, and the number of draws that have been taken. -/
structure Engine where
  language : Language := {}
  evaluator : Evaluator Float
  drawn : Nat := 0

/-- What became of a tree that was to be optimized: the tree as far as it was folded, the number of
subtrees that were replaced, and the failure that ended this, if one did. -/
structure Optimization where
  tree : Expr Float
  count : Nat := 0
  failure : Option Failure := none

/-- Was the root replaced? -/
def Optimization.replacedRoot (o : Optimization) (e : Expr Float) : Bool :=
  o.tree.isConst && !e.isConst

/-- An operation on an engine. -/
abbrev EngineM (β : Type) := ExceptT Failure (StateM Engine) β

namespace Engine

/-- An operation that may take random draws. -/
def drawing {ε β : Type} (wrap : ε → Failure) (x : ExceptT ε (StateM Nat) β) : EngineM β :=
  ExceptT.mk fun engine =>
    let (r, drawn) := (x.run).run engine.drawn
    (r.mapError wrap, { engine with drawn })

/-- An operation that depends on the engine and leaves it as it is. -/
def reading {ε β : Type} (wrap : ε → Failure) (f : Engine → Except ε β) : EngineM β :=
  ExceptT.mk fun engine => ((f engine).mapError wrap, engine)

/-- Is there too little room for so many pending calls? -/
def isExhausted (engine : Engine) (calls : Nat) : Bool := engine.evaluator.isTooDeep calls

/-- A step that makes so many calls pending, if there is room for them. -/
def within {β : Type} (calls : Nat) (x : EngineM β) : EngineM β := do
  if (← get).isExhausted calls then throw .exhausted else x

/-- The tree of a formula. -/
def parse (text : String) : EngineM (Expr Float) :=
  reading .parse fun engine => engine.language.parse text

/-- The value of a tree with some variables bound. -/
def evaluate [Scalar Float] (e : Expr Float) (bindings : Bindings Float) :
    EngineM (Value Float) := do
  let engine ← get
  drawing .evaluation (engine.evaluator.evaluate (.ofBindings bindings) e)

/-- A value in the engine's number format. -/
def describe (v : Value Float) : EngineM String := do
  match v.describeWith? (← get).language.format with
  | some text => return text
  | none => throw .tooManyDigits

/-- A tree as formula text. -/
def render (e : Expr Float) : EngineM String :=
  within (1 + e.renderCalls) do return e.render (← get).language.format

/-- A tree with its constant subtrees folded, as far as that goes. -/
def fold [Scalar Float] (e : Expr Float) : StateM Engine (Folding Float) := fun engine =>
  let (folding, drawn) := (Folding.run engine.evaluator e).run engine.drawn
  (folding, { engine with drawn })

/-- A tree optimized. There has to be room to analyse it, and every series in it needs a loop
variable and a term, or nothing is folded at all. -/
def optimize [Scalar Float] (e : Expr Float) : StateM Engine Optimization := do
  if (← get).isExhausted (3 + e.analysisCalls) then return { tree := e, failure := some .exhausted }
  else
    match e.malformedSeries? with
    | some err => return { tree := e, failure := some (.evaluation err) }
    | none =>
      let folding ← fold e
      return ⟨folding.tree, folding.count, folding.failure.map .evaluation⟩

/-- The derivative of a tree by a variable. -/
def derive [Scalar Float] (e : Expr Float) (x : String) : EngineM (Expr Float) := do
  let engine ← get
  drawing .derivative (e.derive engine.evaluator x 2)

/-- An antiderivative of a tree by a variable. -/
def integrate [Scalar Float] (e : Expr Float) (x : String) : EngineM (Expr Float) :=
  reading .derivative fun engine => e.integrate engine.evaluator.maxPending x 2

/-- The definition that a text writes, without registering it. -/
def parseDefinition (text : String) : EngineM (Definition (Expr Float)) :=
  reading .parse fun engine => engine.language.parseDefinition text

/-- A definition made known to the formulas that are read from now on. -/
def register (d : Definition (Expr Float)) : EngineM Unit := do
  let language ← reading .parse fun engine => engine.language.register d
  modify fun engine => { engine with language }

/-- A definition read and registered. -/
def define (text : String) : EngineM (Definition (Expr Float)) := do
  let d ← parseDefinition text
  register d
  return d

end Engine

/-- The passes that an optimization can run, by name. -/
def optimizationPasses : List String := ["constant_folding"]

/-- Those of the named passes that there are, in the given order. -/
def enabledPasses (names : List String) : List String := names.filter (· ∈ optimizationPasses)

end Formulary
