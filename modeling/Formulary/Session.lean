import Formulary.Engine
import Formulary.Expr.Equality

/-!
# Sessions

A session is a sequence of steps on one engine. Its trees are kept under names. What a name stands
for is an object: two names may share one, and a step that works in place, such as folding, changes
the object for all its names.

A step has an answer or fails; a failure is the step's answer, and the session goes on from there.
What a failing step has done to an object in place, it has done.

## Constants and their copies

The constants of a stored tree have an origin each, which goes along wherever they are copied to: by
a copy of the tree, by the derivative of a tree around them, into the place of another tree's child.
-/

namespace Formulary

/-- Trees by number, names for them, and the first origin that no constant of theirs has. -/
structure Store where
  objects : Array (Expr Float) := #[]
  names : List (String × Nat) := []
  nextOrigin : Nat := 0

namespace Store

/-- The number of the object with this name. -/
def find? (s : Store) (name : String) : Option Nat := s.names.lookup name

/-- A name given to an object, and taken from the one that had it. -/
def bind (s : Store) (name : String) (id : Nat) : Store := { s with names := (name, id) :: s.names }

/-- A new object. -/
def insert (s : Store) (tree : Expr Float) : Nat × Store :=
  let (tree, nextOrigin) := tree.identify s.nextOrigin
  (s.objects.size, { s with objects := s.objects.push tree, nextOrigin })

/-- An object changed in place. -/
def modify (s : Store) (id : Nat) (tree : Expr Float) : Store :=
  { s with objects := s.objects.modify id fun _ => tree }

end Store

/-- An engine with stored trees and definitions. -/
structure Session where
  engine : Engine
  store : Store := {}
  definitions : List (String × Definition (Expr Float)) := []

/-- A tree to be put together by hand. -/
inductive Blueprint where
  | const (datum : Datum)
  | var (name : String)
  | binary (symbol : String) (left right : Blueprint)
  | unary (name : String) (operand : Blueprint)
  /-- A call; `user` asks for the registered function of that name. -/
  | call (name : String) (user : Bool) (args : List Blueprint)

/-- Where a step gets its tree from. -/
inductive Source where
  | text (formula : String)
  | stored (name : String)

/-- Variables for an evaluation. -/
abbrev Variables := List (String × Datum)

/-- What can be asked of a session. `as` is a name for the resulting tree. -/
inductive Step where
  | parse (text : String) (as : Option String)
  | build (blueprint : Blueprint) (as : Option String)
  | eval (source : Source) (vars : Variables)
  | format (source : Source) (vars : Variables)
  | render (source : Source)
  | show (name : String)
  | optimize (source : Source) (as : Option String) (passes : Option (List String))
  | fold (source : Source) (as : Option String)
  | derive (source : Source) (x : String) (as : Option String)
  | integrate (source : Source) (x : String) (as : Option String)
  | free (source : Source)
  | walk (source : Source)
  | copy (source : Source) (as : Option String)
  | replace (name : String) (path : List Nat) (child : Option Nat) (replacement : String)
  | equal (left right : String)
  | define (text : String)
  | parseDefinition (text : String) (as : Option String)
  | register (name : String)
  | describe (name separator : String)
  | functions
  | lookup (text : String)
  | get (name : String)

/-- What a step answers. -/
inductive Answer where
  | tree (e : Expr Float)
  | value (v : Value Float)
  | text (s : String)
  /-- A tree with its text; `same` if it is the object that was given. -/
  | optimized (e : Expr Float) (text : String) (same : Bool) (passes : Option Nat)
  | folded (foldable : Bool) (e : Expr Float) (count : Nat)
  | transformed (e : Expr Float) (text : String)
  | names (names : List String)
  | nodes (nodes : List (Expr Float))
  | copied (e : Expr Float)
  | equal (answer : Bool)
  | definition (d : Definition (Expr Float))
  | count (n : Nat)
  | functions (definitions : List (Definition (Expr Float)))
  | name (name : Option String)

/-- A step at work. -/
abbrev SessionM (β : Type) := ExceptT Failure (StateM Session) β

namespace Session

/-- An operation on the session's engine. -/
def onEngine {β : Type} (x : EngineM β) : SessionM β :=
  ExceptT.mk fun session =>
    let (r, engine) := (x.run).run session.engine
    (r, { session with engine })

/-- The number of the object with a name. -/
def objectOf (name : String) : SessionM Nat := do
  match (← get).store.find? name with
  | some id => return id
  | none => throw (.unknownName name)

/-- The tree of the object with a number. -/
def objectAt (name : String) (id : Nat) : SessionM (Expr Float) := do
  match (← get).store.objects[id]? with
  | some tree => return tree
  | none => throw (.unknownName name)

/-- The tree of a source, with the number of its object if it is stored. -/
def resolve : Source → SessionM (Expr Float × Option Nat)
  | .text formula => return (← onEngine (Engine.parse formula), none)
  | .stored name => do
    let id ← objectOf name
    return (← objectAt name id, some id)

/-- The tree of a source. -/
def treeOf (source : Source) : SessionM (Expr Float) := return (← resolve source).1

/-- A tree stored as a new object, if there is a name for it. -/
def keep (as : Option String) (tree : Expr Float) : SessionM Unit :=
  match as with
  | none => pure ()
  | some name => modify fun session =>
    let (id, store) := session.store.insert tree
    { session with store := store.bind name id }

/-- The definition that is stored under a name. -/
def definitionOf (name : String) : SessionM (Definition (Expr Float)) := do
  match (← get).definitions.lookup name with
  | some d => return d
  | none => throw (.unknownName name)

/-- The constant that stands for data. -/
def constant (datum : Datum) : Except Failure (Expr Float) := do
  match ← datum.toValue.mapError .datum with
  | .real x => return .const (.real x) (some .data)
  | v => return .const v

mutual

/-- The tree of a blueprint. -/
def build (registry : Registry) : Blueprint → Except Failure (Expr Float)
  | .const datum => constant datum
  | .var name => return .var name
  | .binary symbol l r =>
    match BinaryOp.ofSymbol? symbol with
    | some op => return .binary op (← build registry l) (← build registry r)
    | none => .error (.unknownName symbol)
  | .unary name x =>
    match UnaryOp.ofName? name with
    | some f => return .unary f (← build registry x)
    | none => .error (.unknownName name)
  | .call name user args => do
    let trees ← buildAll registry args
    match if user then registry.get? name else none with
    | some d => return .apply d trees
    | none => return .builtin (.ofName name) trees

/-- The trees of several blueprints. -/
def buildAll (registry : Registry) : List Blueprint → Except Failure (List (Expr Float))
  | [] => .ok []
  | b :: bs => return (← build registry b) :: (← buildAll registry bs)

end

/-- A tree optimized in place, `times` times over: the tree, whether it is still the given object,
and the number of subtrees replaced by the last time. -/
def optimizeInPlace (id : Option Nat) :
    (times : Nat) → (tree : Expr Float) → (same : Bool) → (count : Nat) →
    SessionM (Expr Float × Bool × Nat)
  | 0, tree, same, count => return (tree, same, count)
  | times + 1, tree, same, _ => do
    let session ← get
    let (optimized, engine) := (Engine.optimize tree).run session.engine
    let same' := same && !optimized.replacedRoot tree
    let store := match id with
      | some id => if same' then session.store.modify id optimized.tree else session.store
      | none => session.store
    set { session with engine, store }
    match optimized.failure with
    | some e => throw e
    | none => optimizeInPlace id times optimized.tree same' optimized.count

/-- The result of an operation that may have worked in place: the object itself gets the name if the
result is still that object. -/
def keepSame (as : Option String) (id : Option Nat) (same : Bool) (tree : Expr Float) :
    SessionM Unit :=
  match as, id with
  | some name, some id =>
    if same then modify fun session => { session with store := session.store.bind name id }
    else keep as tree
  | _, _ => keep as tree

/-- The bindings for an evaluation. -/
def bindings (vars : Variables) : SessionM (Bindings Float) :=
  ExceptT.mk (pure ((Scope.bindingsOfData vars).mapError .datum))

/-- The value of a source. -/
def valueOf (source : Source) (vars : Variables) : SessionM (Value Float) := do
  let tree ← treeOf source
  onEngine (Engine.evaluate tree (← bindings vars))

/-- The step `step`, with its answer. -/
def run : Step → SessionM Answer
  | .parse text as => do
    let tree ← onEngine (Engine.parse text)
    keep as tree
    return .tree tree
  | .build blueprint as => do
    let registry := (← get).engine.language.registry
    let tree ← ExceptT.mk (pure (build registry blueprint))
    keep as tree
    return .tree tree
  | .eval source vars => return .value (← valueOf source vars)
  | .format source vars => do
    let v ← valueOf source vars
    return .text (← onEngine (Engine.describe v))
  | .render source => do
    let tree ← treeOf source
    return .text (← onEngine (Engine.render tree))
  | .show name => return .tree (← treeOf (.stored name))
  | .optimize source as passes => do
    let (tree, id) ← resolve source
    let times := match passes with
      | some names => (enabledPasses names).length
      | none => 1
    let (tree, same, _) ← optimizeInPlace id times tree true 0
    keepSame as id same tree
    return .optimized tree (← onEngine (Engine.render tree)) same (passes.map fun _ => times)
  | .fold source as => do
    let (tree, id) ← resolve source
    let foldable := tree.isFoldable
    let (tree, same, count) ← optimizeInPlace id 1 tree true 0
    keepSame as id same tree
    return .folded foldable tree count
  | .derive source x as => do
    let tree ← treeOf source
    let tree ← onEngine (Engine.derive tree x)
    keep as tree
    return .transformed tree (← onEngine (Engine.render tree))
  | .integrate source x as => do
    let tree ← treeOf source
    let tree ← onEngine (Engine.integrate tree x)
    keep as tree
    return .transformed tree (← onEngine (Engine.render tree))
  | .free source => do
    let tree ← treeOf source
    return .names (← onEngine (Engine.within tree.height (return tree.freeNames)))
  | .walk source => do
    let tree ← treeOf source
    return .nodes (← onEngine (Engine.within tree.height (return tree.nodes)))
  | .copy source as => do
    let tree ← treeOf source
    let tree ← onEngine (Engine.within tree.copyCalls (return tree))
    keep as tree
    return .copied tree
  | .replace name path child replacement => do
    let id ← objectOf name
    let tree ← objectAt name id
    let new ← treeOf (.stored replacement)
    let replaceIn (e : Expr Float) : Except Failure (Expr Float) :=
      match child.bind fun index => e.replaceChild? index new with
      | some e' => .ok e'
      | none => .error (.noChild e.sortName)
    let tree ← ExceptT.mk (pure (tree.modifyAt (.unknownName name) replaceIn path))
    modify fun session => { session with store := session.store.modify id tree }
    return .tree tree
  | .equal left right => do
    let a ← treeOf (.stored left)
    let b ← treeOf (.stored right)
    return .equal (a.equal b)
  | .define text => return .definition (← onEngine (Engine.define text))
  | .parseDefinition text as => do
    let d ← onEngine (Engine.parseDefinition text)
    match as with
    | some name => modify fun s => { s with definitions := (name, d) :: s.definitions }
    | none => pure ()
    return .definition d
  | .register name => do
    let d ← definitionOf name
    onEngine (Engine.register d)
    return .count (← get).engine.language.registry.definitions.length
  | .describe name separator => return .text ((← definitionOf name).describe separator)
  | .functions => return .functions (← get).engine.language.registry.definitions
  | .lookup text => do
    let registry := (← get).engine.language.registry
    return .name ((registry.lookup? text.toList).map (·.name))
  | .get name => return .name (((← get).engine.language.registry.get? name).map (·.name))

/-- A step's outcome, and the session after it. -/
def step (session : Session) (s : Step) : Except Failure Answer × Session :=
  ((run s).run).run session

/-- The outcomes of several steps, one after the other. -/
def runAll (session : Session) : List Step → List (Except Failure Answer)
  | [] => []
  | s :: steps =>
    let (outcome, session) := session.step s
    outcome :: runAll session steps

end Session

end Formulary
