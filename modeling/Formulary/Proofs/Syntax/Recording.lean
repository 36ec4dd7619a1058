import Mathlib.Logic.Relation
import Formulary.Proofs.Syntax.Names
import Formulary.Proofs.Syntax.Passes

/-!
# What happens while a formula is read

`Recorded.parse` reads a formula as `Language.parse` does and keeps a record of it: which pass is
given which segment, and what each search for the partner of a bracket finds.

`Hands lang s s'` says that one step from the segment `s` may lead to `s'`, and `Raises lang s e`
that the error `e` may arise at `s`. `records_formula` ties the three together by one induction over
the reading of a formula: the record does not change what is read, every segment in it is reached by
such steps, and so is the segment that an error arises at. What every step preserves therefore holds
of all segments of every reading.
-/

namespace Formulary

open Syntax

/-! ## Records -/

/-- The parts of the reader that are given segments. -/
inductive Pass where
  | logic
  | negation
  | sum
  | product
  | power
  | atom
  | arguments
deriving DecidableEq, Repr

/-- What is recorded of a reading. -/
inductive Event where
  /-- A pass is given a segment. -/
  | given (pass : Pass) (s : Segment)
  /-- The partner of the bracket that a text begins with is searched for, and found at an index. -/
  | searched (text : List Char) (index : Option Nat)
deriving DecidableEq, Repr

/-- A reading that keeps a record. -/
abbrev Recorder := ExceptT ParseError (StateM (List Event))

/-- One more event for the record. -/
def record (event : Event) : Recorder Unit := modify (· ++ [event])

/-- The reading `x` comes to `r`, the events that it records have the property `P`, and an error
that it ends with has the property `Q`. -/
structure Records {α : Type} (P : Event → Prop) (Q : ParseError → Prop) (x : Recorder α)
    (r : Except ParseError α) : Prop where
  run : ∀ log, ∃ events, x.run.run log = (r, log ++ events) ∧ ∀ event ∈ events, P event
  fails : FailsOnly Q r

namespace Records

variable {α β : Type} {P : Event → Prop} {Q : ParseError → Prop}

/-- A reading that only returns. -/
theorem pure (a : α) : Records P Q (Pure.pure a) (.ok a) :=
  ⟨fun log => ⟨[], by rw [List.append_nil]; rfl, by simp⟩, .ok a⟩

/-- A reading that only fails. -/
theorem throw {e : ParseError} (he : Q e) : Records P Q (MonadExcept.throw e : Recorder α) (.error e) :=
  ⟨fun log => ⟨[], by rw [List.append_nil]; rfl, by simp⟩, .error he⟩

/-- A step that records nothing. -/
theorem ofExcept {r : Except ParseError α} (h : FailsOnly Q r) :
    Records P Q (MonadExcept.ofExcept r) r := by
  cases r with
  | ok a => exact pure a
  | error e => exact throw (h e rfl)

/-- A step that only records. -/
theorem record {event : Event} (h : P event) : Records P Q (record event) (.ok ()) :=
  ⟨fun _ => ⟨[event], rfl, by simpa using h⟩, .ok ()⟩

/-- A reading that goes on with the result of another one. -/
theorem bind {x : Recorder α} {r : Except ParseError α} {f : α → Recorder β}
    {g : α → Except ParseError β} (hx : Records P Q x r)
    (hf : ∀ a, r = .ok a → Records P Q (f a) (g a)) : Records P Q (x >>= f) (r >>= g) := by
  cases r with
  | error e =>
    refine ⟨fun log => ?_, .error (hx.fails e rfl)⟩
    obtain ⟨events, hevents, hP⟩ := hx.run log
    refine ⟨events, ?_, hP⟩
    rw [ExceptT.run_bind, StateT.run_bind, hevents]
    rfl
  | ok a =>
    refine ⟨fun log => ?_, (hf a rfl).fails⟩
    obtain ⟨events, hevents, hP⟩ := hx.run log
    obtain ⟨events', hevents', hP'⟩ := (hf a rfl).run (log ++ events)
    refine ⟨events ++ events', ?_, List.forall_mem_append.2 ⟨hP, hP'⟩⟩
    rw [ExceptT.run_bind, StateT.run_bind, hevents]
    change (f a).run.run (log ++ events) = _
    rw [hevents', List.append_assoc]
    rfl

/-- After a step that has a result. -/
theorem bind_ok {x : Recorder α} {a : α} {f : α → Recorder β} {r : Except ParseError β}
    (hx : Records P Q x (.ok a)) (hf : Records P Q (f a) r) : Records P Q (x >>= f) r :=
  bind (g := fun _ => r) hx fun a' h => by
    obtain rfl : a = a' := Except.ok.inj h
    exact hf

/-- A reading whose result is put into a tree. -/
theorem map {x : Recorder α} {r : Except ParseError α} (hx : Records P Q x r) (f : α → β) :
    Records P Q (do return f (← x)) (do return f (← r)) :=
  hx.bind fun a _ => pure (f a)

/-- Both ways out of a check. -/
theorem ite {c : Prop} [Decidable c] {x y : Recorder α} {r r' : Except ParseError α}
    (hx : c → Records P Q x r) (hy : ¬ c → Records P Q y r') :
    Records P Q (if c then x else y) (if c then r else r') := by
  by_cases hc : c
  · rw [if_pos hc, if_pos hc]
    exact hx hc
  · rw [if_neg hc, if_neg hc]
    exact hy hc

/-- The elements of a list, read one after another. -/
theorem mapM {f : α → Recorder β} {g : α → Except ParseError β} {xs : List α}
    (h : ∀ x ∈ xs, Records P Q (f x) (g x)) : Records P Q (xs.mapM f) (xs.mapM g) := by
  induction xs with
  | nil => exact pure []
  | cons x xs ih =>
    rw [List.mapM_cons, List.mapM_cons]
    refine (h x (by simp)).bind fun y _ => ?_
    exact (ih fun z hz => h z (by simp [hz])).map (y :: ·)

end Records

/-! ## Reading with a record -/

namespace Recorded

/-- `Syntax.foldLeft`, with a record. -/
def foldLeft (read : Segment → Recorder (Expr Float)) (first : Expr Float)
    (rest : List (Delimiter BinaryOp × Segment)) : Recorder (Expr Float) :=
  rest.foldlM (fun left (d, part) => return .binary d.tag left (← read part)) first

/-- `Syntax.readSplit`, with a record of the pass that splits. -/
def readSplit (pass : Pass) (delimiters : List (Delimiter BinaryOp)) (lone : List Char)
    (read : Segment → Recorder (Expr Float)) (s : Segment) : Recorder (Expr Float) := do
  record (.given pass s)
  let parts ← MonadExcept.ofExcept (s.split delimiters lone)
  foldLeft read (← read parts.first) parts.rest

/-- The partner is searched for if the text begins with an opening bracket. -/
def isWrapped (text : List Char) : Recorder Bool :=
  match text with
  | c :: _ =>
    if (Bracket.opened? c).isSome then do
      let index := closingIndex? 0 text
      record (.searched text index)
      return index == some (text.length - 1)
    else return false
  | [] => return false

/-- `Syntax.arguments`, with a record. -/
def arguments (lang : Language) (inner : Segment → Recorder (Expr Float)) (name : String)
    (s : Segment) : Recorder (List (Expr Float)) := do
  let list := s.drop name.length
  let wrapped ← if list.text.head? = some '(' then isWrapped list.text else pure false
  if wrapped then
    if list.inner.text.isEmpty then return []
    else
      record (.given .arguments list.inner)
      let parts ← MonadExcept.ofExcept (list.inner.split [⟨lang.format.argument, ()⟩] [])
      parts.parts.mapM inner
  else throw (.noArgumentList name list.offset s.shown lang.format.argumentText)

/-- `Syntax.builtinCall`, with a record. -/
def builtinCall (lang : Language) (inner : Segment → Recorder (Expr Float)) (f : Builtin)
    (s : Segment) : Recorder (Expr Float) := do
  let args ← arguments lang inner f.name s
  if args.length < f.minArgs ∨ f.maxArgs < args.length then
    throw (.builtinArity f args.length s.offset s.shown)
  else if f.isSeries && !(args.head?.any isVar) then throw (.loopVariable f s.offset s.shown)
  else return .builtin f args

/-- `Syntax.userCall`, with a record. -/
def userCall (lang : Language) (inner : Segment → Recorder (Expr Float))
    (d : Definition (Expr Float)) (s : Segment) : Recorder (Expr Float) := do
  let args ← arguments lang inner d.name s
  if args.length ≠ d.arity then
    throw (.arity d.name d.arity args.length s.offset s.shown
      (d.describe lang.format.argumentText))
  else return .apply d args

/-- `Syntax.atom`, with a record. -/
def atom (lang : Language) (inner : Nat → Segment → Recorder (Expr Float)) (pending : Nat)
    (s : Segment) : Recorder (Expr Float) := do
  record (.given .atom s)
  if s.text.isEmpty then throw .emptyAtom
  else if ← isWrapped s.text then inner (pending + 1) s.inner
  else
    match UnaryOp.match? s.text with
    | some (f, rest) =>
      if rest.isEmpty then throw (.missingArgument f s.offset s.shown)
      else return .unary f (← inner (pending + 1) (s.drop f.name.length))
    | none =>
      match Builtin.match? s.text with
      | some f => builtinCall lang (inner (pending + 4)) f s
      | none =>
        match lang.registry.lookup? s.text with
        | some d => userCall lang (inner (pending + 4)) d s
        | none =>
          match constant? s.text with
          | some v => return .const v
          | none =>
            if isName s.text then return .var s.shown
            else MonadExcept.ofExcept (number lang s)

/-- `Syntax.power`, with a record. -/
def power (lang : Language) (inner : Nat → Segment → Recorder (Expr Float)) (pending : Nat) :
    Segment → Recorder (Expr Float) :=
  readSplit .power powerOperators [] (atom lang inner (pending + 3))

/-- `Syntax.product`, with a record. -/
def product (lang : Language) (inner : Nat → Segment → Recorder (Expr Float)) (pending : Nat) :
    Segment → Recorder (Expr Float) :=
  readSplit .product productOperators [] (power lang inner (pending + 3))

/-- `Syntax.sum`, with a record. -/
def sum (lang : Language) (inner : Nat → Segment → Recorder (Expr Float)) (pending : Nat)
    (s : Segment) : Recorder (Expr Float) := do
  record (.given .sum s)
  let parts ← MonadExcept.ofExcept (s.split sumOperators [])
  match parts.first.text, parts.rest with
  | [], (_, part) :: rest =>
    let first := .unary .neg (← product lang inner (pending + 1) part)
    foldLeft (product lang inner (pending + 3)) first rest
  | _, rest =>
    foldLeft (product lang inner (pending + 3)) (← product lang inner (pending + 3) parts.first) rest

/-- `Syntax.operand`, with a record. -/
def operand (lang : Language) (inner : Nat → Segment → Recorder (Expr Float)) :
    (pending offset : Nat) → List Char → Recorder (Expr Float)
  | pending, offset, c :: cs => do
    record (.given .negation ⟨c :: cs, offset⟩)
    if c = '!' then
      if isExhausted lang pending then throw .exhausted
      else return .unary .not (← operand lang inner (pending + 1) (offset + 1) cs)
    else sum lang inner (pending + 1) ⟨c :: cs, offset⟩
  | pending, offset, [] => do
    record (.given .negation ⟨[], offset⟩)
    sum lang inner (pending + 1) ⟨[], offset⟩

/-- `Syntax.formula`, with a record. -/
def formula (lang : Language) : (levels pending : Nat) → Segment → Recorder (Expr Float)
  | 0, _, s => do
    record (.given .logic s)
    throw (.tooDeep lang.maxDepth s.offset)
  | levels + 1, pending, s =>
    if isExhausted lang pending then throw .exhausted
    else
      readSplit .logic logicOperators lone
        (fun part => operand lang (formula lang levels) (pending + 3) part.offset part.text) s

/-- The tree of a formula, with a record of the reading. -/
def parse (lang : Language) (text : String) : Recorder (Expr Float) :=
  match Text.compact text.toList with
  | [] => throw .empty
  | compact => formula lang lang.levels 0 ⟨compact, 0⟩

end Recorded

/-! ## Steps from segment to segment -/

variable {lang : Language} {root s s' : Segment}

/-- A part of the reader may go on from the first segment to the second one. -/
inductive Hands (lang : Language) : Segment → Segment → Prop where
  /-- A part of a split at operators. -/
  | part {s part : Segment} {level : Level} {parts : Split BinaryOp}
      (hsplit : s.split level.delimiters level.lone = .ok parts) (h : part ∈ parts.parts) :
      Hands lang s part
  /-- What is behind a `!`. -/
  | negated (cs : List Char) (offset : Nat) : Hands lang ⟨'!' :: cs, offset⟩ ⟨cs, offset + 1⟩
  /-- The inside of a pair of brackets. -/
  | inner {s : Segment} (h : isWrapped s.text = true) : Hands lang s s.inner
  /-- What is behind the name of a function of one argument. -/
  | operand {s : Segment} {f : UnaryOp} (h : f.name.toList <+: s.text) :
      Hands lang s (s.drop f.name.length)
  /-- The inside of an argument list, behind the name of a function. -/
  | arguments {s : Segment} {name : String} (hname : name.toList <+: s.text)
      (hopen : (s.drop name.length).text.head? = some '(')
      (h : isWrapped (s.drop name.length).text = true) : Hands lang s (s.drop name.length).inner
  /-- One argument of a list. -/
  | argument {s part : Segment} {parts : Split Unit}
      (hsplit : s.split [⟨lang.format.argument, ()⟩] [] = .ok parts) (h : part ∈ parts.parts) :
      Hands lang s part

/-- Steps lead from the first segment to the second one. -/
abbrev Reaches (lang : Language) : Segment → Segment → Prop := Relation.ReflTransGen (Hands lang)

/-- The error may arise at the segment itself. -/
inductive Raises (lang : Language) (s : Segment) : ParseError → Prop where
  | empty (h : s.text = []) : Raises lang s .empty
  | tooDeep : Raises lang s (.tooDeep lang.maxDepth s.offset)
  | exhausted : Raises lang s .exhausted
  | split {level : Level} {e : ParseError} (h : s.split level.delimiters level.lone = .error e) :
      Raises lang s e
  | arguments {e : ParseError} (h : s.split [⟨lang.format.argument, ()⟩] [] = .error e) :
      Raises lang s e
  | emptyAtom : Raises lang s .emptyAtom
  | missingArgument {f : UnaryOp} (h : f.name.toList <+: s.text) :
      Raises lang s (.missingArgument f s.offset s.shown)
  | noArgumentList {name : String} (h : name.toList <+: s.text) :
      Raises lang s (.noArgumentList name (s.offset + name.length) s.shown lang.format.argumentText)
  | builtinArity {f : Builtin} (h : f.name.toList <+: s.text) (given : Nat) :
      Raises lang s (.builtinArity f given s.offset s.shown)
  | loopVariable {f : Builtin} (h : f.name.toList <+: s.text) :
      Raises lang s (.loopVariable f s.offset s.shown)
  | arity {d : Definition (Expr Float)} (h : d.name.toList <+: s.text) (given : Nat) :
      Raises lang s (.arity d.name d.arity given s.offset s.shown
        (d.describe lang.format.argumentText))
  | unknownToken (similar : List String) :
      Raises lang s (.unknownToken s.shown s.offset lang.format.decimal similar)
  | number (e : NumberError) : Raises lang s (.number e)

/-- The event is about a segment that is reached, or about the end of one. -/
inductive Event.Reached (lang : Language) (root : Segment) : Event → Prop where
  | given (pass : Pass) {s : Segment} (h : Reaches lang root s) : Reached lang root (.given pass s)
  | searched {s : Segment} (h : Reaches lang root s) (n : Nat) {b : Bracket}
      (hopen : (s.drop n).text.head? = some b.opening) :
      Reached lang root (.searched (s.drop n).text (closingIndex? 0 (s.drop n).text))

/-- The error arises at a segment that is reached. -/
def ParseError.ArisesWithin (lang : Language) (root : Segment) (e : ParseError) : Prop :=
  ∃ s, Reaches lang root s ∧ Raises lang s e

/-! ## Every segment is reached -/

/-- The recorded reading of a text comes to what the reading comes to, by steps from `root`. -/
abbrev Follows {α : Type} (lang : Language) (root : Segment) (x : Recorder α)
    (r : Except ParseError α) : Prop :=
  Records (Event.Reached lang root) (ParseError.ArisesWithin lang root) x r

/-- An error arises where a segment that raises it is reached. -/
theorem Raises.arisesWithin {e : ParseError} (h : Raises lang s e) (hs : Reaches lang root s) :
    e.ArisesWithin lang root := ⟨s, hs, h⟩

/-- A segment that is reached may be recorded. -/
theorem follows_given (pass : Pass) (hs : Reaches lang root s) :
    Follows lang root (record (.given pass s)) (.ok ()) :=
  .record (.given pass hs)

/-- The search for a partner is recorded at the end of a segment that is reached. -/
theorem follows_isWrapped (hs : Reaches lang root s) (n : Nat) :
    Follows lang root (Recorded.isWrapped (s.drop n).text) (.ok (isWrapped (s.drop n).text)) := by
  cases htext : (s.drop n).text with
  | nil => exact .pure false
  | cons c cs =>
    cases hc : Bracket.opened? c with
    | none =>
      simpa [Recorded.isWrapped, isWrapped, hc] using Records.pure false
    | some b =>
      have hopen : (s.drop n).text.head? = some b.opening := by
        rw [htext, Bracket.opening_of_opened? hc]
        rfl
      have hsearched := Event.Reached.searched hs n hopen
      rw [htext] at hsearched
      simpa [Recorded.isWrapped, isWrapped, hc] using (Records.record hsearched).map _

section Calls

variable {inner : Segment → Parsed} {inner' : Segment → Recorder (Expr Float)}
  (hinner : ∀ s, Reaches lang root s → Follows lang root (inner' s) (inner s))
include hinner

/-- An argument list is recorded when its arguments are. -/
theorem follows_arguments {name : String} (hs : Reaches lang root s)
    (hname : name.toList <+: s.text) :
    Follows lang root (Recorded.arguments lang inner' name s) (arguments lang inner name s) := by
  unfold Recorded.arguments arguments
  dsimp only
  have hmissing : Follows lang root (throw (.noArgumentList name (s.drop name.length).offset s.shown
      lang.format.argumentText) : Recorder (List (Expr Float))) _ :=
    .throw ((Raises.noArgumentList hname).arisesWithin hs)
  by_cases hopen : (s.drop name.length).text.head? = some '('
  · simp only [hopen, true_and, if_true]
    refine (follows_isWrapped hs name.length).bind_ok (.ite (fun hwrapped => ?_) fun _ => hmissing)
    have hlist := hs.tail (.arguments hname hopen hwrapped)
    refine .ite (fun _ => .pure []) fun _ => ?_
    refine (follows_given .arguments hlist).bind_ok (.bind (.ofExcept fun e he => ?_) ?_)
    · exact (Raises.arguments he).arisesWithin hlist
    · intro parts hparts
      exact .mapM fun part hpart => hinner part (hlist.tail (.argument hparts hpart))
  · simp only [hopen, false_and, if_false]
    exact (Records.pure false).bind_ok hmissing

/-- A call of a builtin function is recorded when its arguments are. -/
theorem follows_builtinCall {f : Builtin} (hs : Reaches lang root s)
    (hname : f.name.toList <+: s.text) :
    Follows lang root (Recorded.builtinCall lang inner' f s) (builtinCall lang inner f s) := by
  refine (follows_arguments hinner hs hname).bind fun args _ => .ite (fun _ => ?_) fun _ => ?_
  · exact .throw ((Raises.builtinArity hname _).arisesWithin hs)
  · refine .ite (fun _ => ?_) fun _ => .pure _
    exact .throw ((Raises.loopVariable hname).arisesWithin hs)

/-- A call of a user-defined function is recorded when its arguments are. -/
theorem follows_userCall {d : Definition (Expr Float)} (hs : Reaches lang root s)
    (hname : d.name.toList <+: s.text) :
    Follows lang root (Recorded.userCall lang inner' d s) (userCall lang inner d s) := by
  refine (follows_arguments hinner hs hname).bind fun args _ => .ite (fun _ => ?_) fun _ => .pure _
  exact .throw ((Raises.arity hname _).arisesWithin hs)

end Calls

/-- An error of a number literal arises at the literal. -/
theorem follows_number (hs : Reaches lang root s) :
    Follows lang root (MonadExcept.ofExcept (number lang s)) (number lang s) := by
  refine .ofExcept fun e he => ?_
  unfold number at he
  dsimp only at he
  split at he
  · cases he
  · cases he
    exact (Raises.unknownToken _).arisesWithin hs
  · cases he
    exact (Raises.number _).arisesWithin hs

section Passes

variable {inner : Nat → Segment → Parsed} {inner' : Nat → Segment → Recorder (Expr Float)}
  (hinner : ∀ pending s, Reaches lang root s →
    Follows lang root (inner' pending s) (inner pending s))
include hinner

/-- An atom is recorded when the formulas inside it are. -/
theorem follows_atom {pending : Nat} (hs : Reaches lang root s) :
    Follows lang root (Recorded.atom lang inner' pending s) (atom lang inner pending s) := by
  refine (follows_given .atom hs).bind_ok ?_
  unfold atom
  refine .ite (fun _ => .throw (Raises.emptyAtom.arisesWithin hs)) fun _ => ?_
  refine (follows_isWrapped hs 0).bind_ok ?_
  refine .ite (c := isWrapped s.text = true) (fun h => hinner _ _ (hs.tail (.inner h))) fun _ => ?_
  cases hunary : UnaryOp.match? s.text with
  | some found =>
    obtain ⟨f, rest⟩ := found
    have hname : f.name.toList <+: s.text := (UnaryOp.longestName_of_match? hunary).1.starts
    refine .ite (fun _ => ?_) fun _ => (hinner _ _ (hs.tail (.operand hname))).map _
    exact .throw ((Raises.missingArgument hname).arisesWithin hs)
  | none =>
    cases hbuiltin : Builtin.match? s.text with
    | some f =>
      have hname : f.name.toList <+: s.text :=
        (List.prefix_append _ _).trans (Builtin.match?_eq_some.1 hbuiltin).2
      exact follows_builtinCall (hinner _) hs hname
    | none =>
      cases hlookup : lang.registry.lookup? s.text with
      | some d =>
        have hname : d.name.toList <+: s.text := by simpa using List.find?_some hlookup
        exact follows_userCall (hinner _) hs hname
      | none =>
        cases hconstant : constant? s.text with
        | some v => exact .pure _
        | none =>
          exact .ite (fun _ => .pure _) fun _ => follows_number hs

/-! ## The passes -/

omit hinner in
/-- Parts that follow are joined as they are. -/
theorem follows_foldLeft {read : Segment → Parsed} {read' : Segment → Recorder (Expr Float)}
    {first : Expr Float} {rest : List (Delimiter BinaryOp × Segment)}
    (hread : ∀ x ∈ rest, Follows lang root (read' x.2) (read x.2)) :
    Follows lang root (Recorded.foldLeft read' first rest) (foldLeft read first rest) := by
  induction rest generalizing first with
  | nil => exact .pure first
  | cons x rest ih =>
    unfold Recorded.foldLeft foldLeft
    rw [List.foldlM_cons, List.foldlM_cons]
    refine ((hread x (by simp)).map _).bind fun left _ => ?_
    exact ih fun y hy => hread y (by simp [hy])

omit hinner in
/-- An error of a split arises at the segment that is split. -/
theorem follows_split (level : Level) (hs : Reaches lang root s) :
    Follows lang root (MonadExcept.ofExcept (s.split level.delimiters level.lone))
      (s.split level.delimiters level.lone) :=
  .ofExcept fun _ he => (Raises.split he).arisesWithin hs

omit hinner in
/-- A pass follows when the reading of its parts does. -/
theorem follows_readSplit {read : Segment → Parsed} {read' : Segment → Recorder (Expr Float)}
    (pass : Pass) (level : Level)
    (hread : ∀ s, Reaches lang root s → Follows lang root (read' s) (read s))
    (hs : Reaches lang root s) :
    Follows lang root (Recorded.readSplit pass level.delimiters level.lone read' s)
      (readSplit level.delimiters level.lone read s) := by
  refine (follows_given pass hs).bind_ok ((follows_split level hs).bind fun parts hparts => ?_)
  have hpart (part : Segment) (h : part ∈ parts.parts) : Follows lang root (read' part) (read part) :=
    hread part (hs.tail (.part hparts h))
  obtain ⟨hfirst, hrest⟩ := List.forall_mem_cons.1 hpart
  exact hfirst.bind fun tree _ => follows_foldLeft (List.forall_mem_map.1 hrest)

/-- A product follows, and so do its powers and their atoms. -/
theorem follows_product {pending : Nat} (hs : Reaches lang root s) :
    Follows lang root (Recorded.product lang inner' pending s) (product lang inner pending s) :=
  follows_readSplit .product .product
    (fun _ hs => follows_readSplit .power .power (fun _ hs => follows_atom hinner hs) hs) hs

/-- A sum follows, whether or not a minus sign stands in front of it. -/
theorem follows_sum {pending : Nat} (hs : Reaches lang root s) :
    Follows lang root (Recorded.sum lang inner' pending s) (sum lang inner pending s) := by
  refine (follows_given .sum hs).bind_ok ((follows_split .sum hs).bind fun parts hparts => ?_)
  have hproduct (pending : Nat) (part : Segment) (h : part ∈ parts.parts) :
      Follows lang root (Recorded.product lang inner' pending part)
        (product lang inner pending part) :=
    follows_product hinner
      (hs.tail (.part (hparts : s.split Level.sum.delimiters Level.sum.lone = _) h))
  obtain ⟨first, rest⟩ := parts
  obtain ⟨hfirst, hrest⟩ := List.forall_mem_cons.1 (hproduct (pending + 3))
  have hrest := List.forall_mem_map.1 hrest
  rcases first with ⟨_ | ⟨c, cs⟩, offset⟩ <;> rcases rest with _ | ⟨⟨d, part⟩, rest⟩
  case nil.cons =>
    -- the minus sign in front of the first term
    have hpart := hproduct (pending + 1) part (by simp [Split.parts])
    exact hpart.bind fun tree _ => follows_foldLeft (List.forall_mem_cons.1 hrest).2
  all_goals exact hfirst.bind fun tree _ => follows_foldLeft hrest

/-- A part of a logic formula follows, behind any number of `!`. -/
theorem follows_operand {text : List Char} {pending offset : Nat}
    (hs : Reaches lang root ⟨text, offset⟩) :
    Follows lang root (Recorded.operand lang inner' pending offset text)
      (operand lang inner pending offset text) := by
  induction text generalizing pending offset with
  | nil => exact (follows_given .negation hs).bind_ok (follows_sum hinner hs)
  | cons c cs ih =>
    refine (follows_given .negation hs).bind_ok ?_
    rw [operand]
    refine .ite (fun hc => ?_) fun _ => follows_sum hinner hs
    subst hc
    refine .ite (fun _ => .throw (Raises.exhausted.arisesWithin hs)) fun _ => ?_
    exact (ih (hs.tail (.negated cs offset))).map _

end Passes

/-- The record does not change what is read, every recorded segment is reached from the formula, and
an error arises at such a segment. -/
theorem follows_formula (levels pending : Nat) (hs : Reaches lang root s) :
    Follows lang root (Recorded.formula lang levels pending s) (formula lang levels pending s) := by
  induction levels generalizing pending s with
  | zero => exact (follows_given .logic hs).bind_ok (.throw (Raises.tooDeep.arisesWithin hs))
  | succ levels ih =>
    rw [Recorded.formula, formula]
    refine .ite (fun _ => .throw (Raises.exhausted.arisesWithin hs)) fun _ => ?_
    exact follows_readSplit .logic .logic
      (fun _ hpart => follows_operand (fun pending _ hs => ih pending hs) hpart) hs

/-- The record of the reading of a text. -/
def Language.trace (lang : Language) (text : String) : List Event :=
  ((Recorded.parse lang text).run.run []).2

/-- The reading of a text follows, blanks aside. -/
theorem follows_parse (lang : Language) (text : String) :
    Follows lang ⟨Text.compact text.toList, 0⟩ (Recorded.parse lang text) (lang.parse text) := by
  unfold Recorded.parse Language.parse
  cases Text.compact text.toList with
  | nil => exact .throw ((Raises.empty rfl).arisesWithin .refl)
  | cons c cs => exact follows_formula _ _ .refl

/-- The record does not change what a text is read as, and it holds segments of the text only. -/
theorem Language.run_parse (lang : Language) (text : String) :
    (Recorded.parse lang text).run.run [] = (lang.parse text, lang.trace text) ∧
      ∀ event ∈ lang.trace text, event.Reached lang ⟨Text.compact text.toList, 0⟩ := by
  obtain ⟨events, hrun, hevents⟩ := (follows_parse lang text).run []
  have htrace : lang.trace text = events := by rw [trace, hrun, List.nil_append]
  rw [htrace]
  exact ⟨hrun, hevents⟩

end Formulary
