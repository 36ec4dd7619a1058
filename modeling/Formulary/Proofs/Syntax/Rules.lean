import Formulary.Proofs.Expr.WellFormed
import Formulary.Proofs.Number.Unsigned
import Formulary.Proofs.Syntax.Registry
import Formulary.Proofs.Syntax.Soundness

/-!
# The rules of formulas

Reading a text ends with a tree that follows the rules of the language, or with an error that says
what is wrong with the text (`Language.tree_or_parse_error`). This holds for all number formats,
also for those whose separators are letters, brackets or operators, and for all registries.

A call is read only if it has the shape that evaluation takes for granted, and a user-defined
function only if it is registered. The other rules are about the leaves. Here it matters what the
passes have left over when an atom is read: it has some text, and outside brackets this text has no
operator. So a number literal has no sign, which is why it can be converted.

The induction is on the levels of nesting. What is inside brackets, behind the name of a function or
between the separators of an argument list is read from the first pass on again, so nothing has to
be known about it.
-/

namespace Formulary

open Split Grammar Formulary.Expr

/-! ## Outcomes of reading -/

/-- The values of number literals and of named constants: truth values, numbers without a sign, and
imaginary numbers without one. -/
inductive Value.IsLiteral : Value Float → Prop where
  | boolean (b : Bool) : IsLiteral (.boolean b)
  | real {x : Float} (hx : Binary64.IsNonnegative x) : IsLiteral (.real x)
  | imaginary {x : Float} (hx : Binary64.IsNonnegative x) : IsLiteral (.complex ⟨0.0, x⟩)

namespace Language

/-- The names of variables: lowercase words that name no constant and begin with the name of no
function of one argument and of no registered function. -/
structure IsVariable (lang : Language) (name : String) : Prop where
  isName : Syntax.isName name.toList = true
  no_constant : Syntax.constant? name.toList = none
  no_function : NoFunction name.toList
  no_registered : ∀ d ∈ lang.registry.definitions, ¬ d.name.toList <+: name.toList

/-- What trees are made of: the functions that a formula calls are registered. -/
def rules (lang : Language) : Rules Float := { callee := fun d => d ∈ lang.registry.definitions }

/-- What the trees of formulas are made of: there, constants are literals and variables have names
of variables. -/
def literalRules (lang : Language) : Rules Float :=
  { lang.rules with const := Value.IsLiteral, var := lang.IsVariable }

/-- The errors that reading ends with. Only a limit of pending calls gives rise to another one. -/
def Reports (lang : Language) (e : ParseError) : Prop :=
  e.kind = .parse ∨ e = .exhausted ∧ lang.maxPending ≠ none

/-- Reading ends with a result that `P` holds of, or with an error that reading may end with. -/
def Ends {α : Type} (lang : Language) (P : α → Prop) (r : Except ParseError α) : Prop :=
  (∃ a, r = .ok a ∧ P a) ∨ ∃ e, r = .error e ∧ lang.Reports e

/-- Reading ends with a tree that follows the rules, or with an error that reading may end with. -/
abbrev Settles (lang : Language) (r : Parsed) : Prop := lang.Ends (·.Follows lang.literalRules) r

namespace Ends

variable {α β : Type} {lang : Language} {P : α → Prop} {Q : β → Prop}

/-- A result that `P` holds of. -/
theorem ok {a : α} (ha : P a) : lang.Ends P (.ok a) := .inl ⟨a, rfl, ha⟩

/-- An error of the kind that is raised by reading. -/
theorem error {e : ParseError} (he : e.kind = .parse) : lang.Ends P (.error e) :=
  .inr ⟨e, rfl, .inl he⟩

/-- What fails only with errors of that kind, and else has a result that `P` holds of. -/
theorem of_failsOnly {r : Except ParseError α} (hr : FailsOnly (·.kind = .parse) r)
    (hP : ∀ a, r = .ok a → P a) : lang.Ends P r := by
  cases r with
  | ok a => exact ok (hP a rfl)
  | error e => exact error (hr e rfl)

/-- A step and what follows it. -/
theorem bind {r : Except ParseError α} {f : α → Except ParseError β} (hr : lang.Ends P r)
    (hf : ∀ a, P a → lang.Ends Q (f a)) : lang.Ends Q (r >>= f) := by
  rcases hr with ⟨a, rfl, ha⟩ | ⟨e, rfl, he⟩
  · exact hf a ha
  · exact .inr ⟨e, rfl, he⟩

/-- A step for each element of a list. -/
theorem mapM {f : α → Except ParseError β} (hf : ∀ a, lang.Ends Q (f a)) (xs : List α) :
    lang.Ends (fun ys => ∀ y ∈ ys, Q y) (xs.mapM f) := by
  induction xs with
  | nil => exact ok (by simp)
  | cons x xs ih =>
    rw [List.mapM_cons]
    exact (hf x).bind fun y hy => ih.bind fun ys hys => ok (List.forall_mem_cons.2 ⟨hy, hys⟩)

end Ends

end Language

namespace Syntax

variable {lang : Language} {read : Segment → Parsed} {inner : Nat → Segment → Parsed} {pending : Nat}
  {level : Level} {s : Segment}

/-! ## Passes -/

/-- What the pass for a level hands on to the next one: parts without any operator of this level or
of a looser one outside brackets. None of them is empty but the first one, in front of a minus sign.
-/
structure IsCut (level : Level) (parts : Split BinaryOp) : Prop where
  first : Clear (level.before ++ level.marks) parts.first.text
  rest : ∀ x ∈ parts.rest, Clear (level.before ++ level.marks) x.2.text ∧ x.2.text ≠ []
  minus : parts.first.text = [] → ∃ d part rest, parts.rest = (d, part) :: rest ∧ level = .sum

/-- A minus sign is an operator of sums. -/
theorem level_of_minus {op : BinaryOp} (h : op.symbol.toList = ['-']) : op.level = .sum := by
  cases op <;> revert h <;> decide

/-- A segment is cut at the operators of a level, or is in error. -/
theorem ends_split (hs : Balanced s.text → Clear level.before s.text) :
    lang.Ends (IsCut level) (s.split level.delimiters level.lone) := by
  refine .of_failsOnly (Segment.failsOnly_split _ _ s) fun parts hsplit => ?_
  obtain ⟨htext, hfirst, hrest, hempty⟩ :=
    Segment.split_sound level.cuts (fun d hd => spelling_ne_nil hd) hsplit
  have hbalanced : Balanced s.text := by
    rw [htext]
    exact balanced_of_parts hfirst fun x hx => ⟨(hrest x hx).1, (hrest x hx).2.1⟩
  have hclear := hs hbalanced
  rw [htext] at hclear
  obtain ⟨hf, hr⟩ := clear_parts hclear hfirst fun x hx => ⟨(hrest x hx).1, (hrest x hx).2.1⟩
  have hmem : ∀ x ∈ parts.rest, (x.1, x.2.text) ∈ texts parts.rest :=
    fun x hx => List.mem_map_of_mem hx
  refine ⟨hf, fun x hx => ⟨hr _ (hmem x hx), (hrest _ (hmem x hx)).2.2⟩, fun hnil => ?_⟩
  -- an empty first part stands in front of a minus sign, which is cut at in one pass only
  have hallowed := hempty hnil
  cases hcons : parts.rest with
  | nil => simp [allowsEmptyFirst, hcons] at hallowed
  | cons x rest =>
    obtain ⟨d, part⟩ := x
    obtain ⟨hspelling, hlevel⟩ :=
      Level.mem_delimiters (hrest (d, part.text) (hmem (d, part) (by simp [hcons]))).1
    have hminus : d.spelling = ['-'] := by simpa [allowsEmptyFirst, hcons] using hallowed
    exact ⟨d, part, rest, rfl, hlevel.symm.trans (level_of_minus (hspelling.symm.trans hminus))⟩

/-- Parts that are read are joined to a tree. -/
theorem settles_foldLeft {first : Expr Float} {rest : List (Delimiter BinaryOp × Segment)}
    (hfirst : first.Follows lang.literalRules) (hrest : ∀ x ∈ rest, lang.Settles (read x.2)) :
    lang.Settles (foldLeft read first rest) := by
  induction rest generalizing first with
  | nil => exact .ok hfirst
  | cons x rest ih =>
    obtain ⟨hx, hrest⟩ := List.forall_mem_cons.1 hrest
    have hjoined : lang.Settles (do return .binary x.1.tag first (← read x.2)) :=
      hx.bind fun part hpart => .ok (.binary x.1.tag hfirst hpart)
    exact hjoined.bind fun joined hjoined => ih hjoined hrest

/-- A pass reads its text if the next pass reads the parts. -/
theorem settles_readSplit (level : Level) (hlevel : level ≠ .sum)
    (hs : Balanced s.text → Clear level.before s.text)
    (hread : ∀ part : Segment, Clear (level.before ++ level.marks) part.text → part.text ≠ [] →
      lang.Settles (read part)) :
    lang.Settles (readSplit level.delimiters level.lone read s) := by
  refine (ends_split hs).bind fun parts hparts => ?_
  have hne : parts.first.text ≠ [] := fun hnil => by
    obtain ⟨-, -, -, -, hsum⟩ := hparts.minus hnil
    exact hlevel hsum
  exact (hread _ hparts.first hne).bind fun first hfirst =>
    settles_foldLeft hfirst fun x hx => hread _ (hparts.rest x hx).1 (hparts.rest x hx).2

/-- A sum, where the first part may be empty in front of a minus sign. -/
theorem settles_sum (hs : Clear Level.sum.before s.text)
    (hproduct : ∀ part : Segment, Clear (Level.sum.before ++ Level.sum.marks) part.text →
      part.text ≠ [] → ∀ n, lang.Settles (product lang inner n part)) :
    lang.Settles (sum lang inner pending s) := by
  refine (ends_split fun _ => hs).bind fun parts hparts => ?_
  have hrest : ∀ x ∈ parts.rest, ∀ n, lang.Settles (product lang inner n x.2) := fun x hx =>
    hproduct _ (hparts.rest x hx).1 (hparts.rest x hx).2
  split
  · next d part rest hnil hcons =>
    rw [hcons, List.forall_mem_cons] at hrest
    exact (hrest.1 _).bind fun term hterm =>
      settles_foldLeft (.unary .neg hterm) fun x hx => hrest.2 x hx _
  · next hminus =>
    have hne : parts.first.text ≠ [] := fun hnil => by
      obtain ⟨d, part, rest, hcons, -⟩ := hparts.minus hnil
      exact hminus d part rest hnil hcons
    exact (hproduct _ hparts.first hne _).bind fun first hfirst =>
      settles_foldLeft hfirst fun x hx => hrest x hx _

/-! ## Atoms -/

/-- The values of named constants are literals. -/
theorem isLiteral_of_constant? {text : List Char} {v : Value Float} (h : constant? text = some v) :
    v.IsLiteral := by
  unfold constant? at h
  split at h
  case h_1 => cases h; exact .real (by decide)
  case h_2 => cases h; exact .real (by decide)
  case h_3 => cases h; exact .imaginary (by decide)
  case h_4 => cases h; exact .boolean true
  case h_5 => cases h; exact .boolean false
  case h_6 => cases h

/-- Without operators outside brackets, a number literal has no sign, so it can be converted. -/
theorem read_of_bare {text : List Char} (hbare : Bare text) :
    (∃ x, lang.format.read text = .ok x ∧ Binary64.IsNonnegative x) ∨
      lang.format.read text = .error (.notANumber (String.ofList text) lang.format.decimal) :=
  NumberFormat.read_of_no_sign (hbare.head?_ne (by decide) (by decide))
    (hbare.head?_ne (by decide) (by decide))

/-- A text that is none of the other atoms is read as a number, or is in error. -/
theorem settles_number (hbare : Bare s.text) : lang.Settles (number lang s) := by
  unfold number
  dsimp only
  by_cases hi : s.text.getLast? = some 'i'
  · obtain ⟨text, htext⟩ := List.getLast?_eq_some_iff.1 hi
    rw [if_pos hi]
    rw [htext] at hbare
    rw [htext, List.dropLast_concat]
    rcases @read_of_bare lang _ (hbare.init (by decide)) with ⟨x, hx, hpos⟩ | herror
    · rw [hx]
      exact .ok (.const (Value.IsLiteral.imaginary hpos) none)
    · rw [herror]
      exact .error rfl
  · rw [if_neg hi]
    rcases @read_of_bare lang _ hbare with ⟨x, hx, hpos⟩ | herror
    · rw [hx]
      exact .ok (.const (Value.IsLiteral.real hpos) none)
    · rw [herror]
      exact .error rfl

section Calls

variable {inner : Segment → Parsed} (hinner : ∀ s, lang.Settles (inner s))

include hinner

/-- Arguments are read, or their list is in error. -/
theorem ends_arguments (name : String) (s : Segment) :
    lang.Ends (fun args => ∀ e ∈ args, e.Follows lang.literalRules)
      (arguments lang inner name s) := by
  unfold arguments
  dsimp only
  split
  · split
    · exact .ok (by simp)
    · have hsplit : lang.Ends (fun _ => True)
          ((s.drop name.length).inner.split [⟨lang.format.argument, ()⟩] []) :=
        .of_failsOnly (Segment.failsOnly_split _ _ _) fun _ _ => trivial
      exact hsplit.bind fun parts _ => .mapM hinner _
  · exact .error rfl

/-- A call of a builtin function is read, or is in error. -/
theorem settles_builtinCall {f : Builtin} (hf : f ∈ Builtin.all) (s : Segment) :
    lang.Settles (builtinCall lang inner f s) := by
  refine (ends_arguments hinner f.name s).bind fun args hargs => ?_
  split
  · exact .error rfl
  · next harity =>
    split
    · exact .error rfl
    · next hloop =>
      -- the three checks of the parser are the three conditions
      refine .ok (.builtin hf ⟨by omega, by omega⟩ (fun hseries => ?_) hargs)
      exact exists_var_of_any (by simpa [hseries] using hloop)

/-- A call of a registered function is read, or is in error. -/
theorem settles_userCall {d : Definition (Expr Float)} (hd : d ∈ lang.registry.definitions)
    (s : Segment) : lang.Settles (userCall lang inner d s) := by
  refine (ends_arguments hinner d.name s).bind fun args hargs => ?_
  split
  · exact .error rfl
  · next harity => exact .ok (.apply hd (by simpa using harity) hargs)

end Calls

section Passes

variable (hinner : ∀ n s, lang.Settles (inner n s))

include hinner

/-- An atom that has some text, without operators outside brackets. -/
theorem settles_atom (hbare : Bare s.text) (hne : s.text ≠ []) :
    lang.Settles (atom lang inner pending s) := by
  unfold atom
  rw [if_neg (by simpa using hne)]
  split
  · exact hinner _ _
  · split
    · split
      · exact .error rfl
      · exact (hinner _ _).bind fun x hx => .ok (.unary _ hx)
    · next hfunction =>
      split
      · next f hf => exact settles_builtinCall (hinner _) (Builtin.match?_eq_some.1 hf).1 s
      · split
        · next d hd => exact settles_userCall (hinner _) (List.mem_of_find?_eq_some hd) s
        · next hregistered =>
          split
          · next v hv => exact .ok (.const (isLiteral_of_constant? hv) none)
          · next hconstant =>
            split
            · next hname =>
              have htext : s.shown.toList = s.text := String.toList_ofList
              refine .ok (.var ⟨?_, ?_, ?_, ?_⟩) <;> rw [htext]
              · exact hname
              · exact hconstant
              · exact UnaryOp.match?_eq_none.1 hfunction
              · simpa [Registry.lookup?] using hregistered
            · exact settles_number hbare

/-! ## Formulas -/

/-- A product is read, or is in error. -/
theorem settles_product (hs : Clear Level.product.before s.text) :
    lang.Settles (product lang inner pending s) :=
  settles_readSplit .product (by decide) (fun _ => hs) fun _ hpower _ =>
    settles_readSplit .power (by decide) (fun _ => hpower) fun _ hatom hne =>
      settles_atom hinner hatom hne

end Passes

/-- Room is exhausted only where it is limited. -/
theorem settles_exhausted {pending : Nat} (h : isExhausted lang pending = true) :
    lang.Settles (.error .exhausted) := by
  refine .inr ⟨.exhausted, rfl, .inr ⟨rfl, fun hnone => ?_⟩⟩
  rw [isExhausted_of_none hnone] at h
  cases h

/-- An operand of a logic formula is read, or is in error. -/
theorem settles_operand (hinner : ∀ n s, lang.Settles (inner n s)) {pending offset : Nat}
    {text : List Char} (htext : Clear Level.sum.before text) :
    lang.Settles (operand lang inner pending offset text) := by
  have hsum : ∀ {n : Nat} {s : Segment}, Clear Level.sum.before s.text →
      lang.Settles (sum lang inner n s) := fun hs =>
    settles_sum hs fun part hpart _ _ => settles_product hinner hpart
  induction text generalizing pending offset with
  | nil => exact hsum htext
  | cons c text ih =>
    unfold operand
    split
    · next hc =>
      subst hc
      split
      · next hexhausted => exact settles_exhausted hexhausted
      · exact (ih (htext.tail (by decide))).bind fun x hx => .ok (.unary .not hx)
    · exact hsum htext

/-- A formula is read, or is in error. -/
theorem settles_formula (levels pending : Nat) (s : Segment) :
    lang.Settles (formula lang levels pending s) := by
  induction levels generalizing pending s with
  | zero => exact .error rfl
  | succ levels ih =>
    unfold formula
    split
    · next hexhausted => exact settles_exhausted hexhausted
    · exact settles_readSplit .logic (by decide) id fun part hpart _ => settles_operand ih hpart

end Syntax

namespace Language

variable {lang : Language} {text : String} {t : Expr Float}

/-- Every text is read, or is in error. -/
theorem settles_parse (lang : Language) (text : String) : lang.Settles (lang.parse text) := by
  unfold parse
  split
  · exact .error rfl
  · exact Syntax.settles_formula _ _ _

/-- Every text is read as a tree that follows the rules of formulas, or there is an error that says
what is wrong with it. Only if the pending calls are limited, reading may also end because there are
too many of them. -/
theorem tree_or_parse_error (lang : Language) (text : String) :
    (∃ t, lang.parse text = .ok t ∧ t.Follows lang.literalRules) ∨
      ∃ e, lang.parse text = .error e ∧
        (e.kind = .parse ∨ e = .exhausted ∧ lang.maxPending ≠ none) := lang.settles_parse text

/-- A formula follows the rules of its language. -/
theorem follows_of_parse (h : lang.parse text = .ok t) : t.Follows lang.rules := by
  rcases lang.settles_parse text with ⟨t', ht', hfollows⟩ | ⟨e, he, -⟩
  · rw [h] at ht'
    cases ht'
    exact hfollows.mono (fun _ _ => trivial) (fun _ _ => trivial) fun _ => id
  · rw [h] at he
    cases he

/-- A formula that is read is well-formed if the bodies of the registered functions are. -/
theorem wellFormed_of_parse (hregistry : ∀ d ∈ lang.registry.definitions, d.body.WellFormed)
    (h : lang.parse text = .ok t) : t.WellFormed := (follows_of_parse h).wellFormed hregistry

end Language

/-- The functions of a defined registry have well-formed bodies. -/
theorem Registry.Defined.wellFormed {r : Registry} (h : Defined r) :
    ∀ d ∈ r.definitions, d.body.WellFormed := by
  refine h.forall_mem fun lang text d hregistry hd => ?_
  obtain ⟨-, -, -, hbody⟩ := Language.parseDefinition_eq_ok hd
  exact Language.wellFormed_of_parse hregistry hbody

end Formulary
