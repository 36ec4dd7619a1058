import Formulary.Proofs.Engine
import Formulary.Proofs.Number.Signed
import Formulary.Proofs.Syntax.Readings

/-!
# More functions in a language

A text that is read as a tree is read as the same tree in a language with one more function, if the
name of the function begins no variable of the tree and no named constant
(`Engine.parse_of_define`).

Only atoms depend on the registry. The functions that were registered before are found before the
new one, and all that is looked for after them is a named constant, a variable or a number; a number
begins with no letter. The passes above the atoms cut a text in the same places, so the claim passes
through them, and through the levels of nesting by induction. What it asks of a tree it asks of the
parts of the tree as well, since these have no other variables (`Spares`).
-/

open Formulary.Expr Formulary.Grammar

namespace Formulary

/-! ## How numbers begin -/

namespace NumberFormat

/-- The part in front of a decimal separator begins with a digit. -/
theorem head?_of_isWhole {f : NumberFormat} {s : List Char} (h : f.isWhole s = true) :
    ∃ c, s.head? = some c ∧ Text.isDecimalDigit c = true := by
  cases s with
  | nil => simp [isWhole, isGrouped] at h
  | cons c rest =>
    refine ⟨c, rfl, ?_⟩
    by_contra hnot
    simp [isWhole, isGrouped, hnot] at h

/-- The first character of a number is a digit, the decimal separator or a sign. -/
theorem head?_of_read {f : NumberFormat} {s : List Char} {x : Float} (h : f.read s = .ok x) :
    ∃ c, s.head? = some c ∧ (Text.isDecimalDigit c = true ∨ c = f.decimal ∨ c = '+' ∨ c = '-') := by
  have hunsigned : ∀ {s : List Char}, f.isUnsigned s = true →
      ∃ c, s.head? = some c ∧ (Text.isDecimalDigit c = true ∨ c = f.decimal) := by
    intro s hs
    rcases parts_of_isUnsigned hs with hwhole | ⟨whole, fraction, rfl, hwhole | ⟨rfl, -⟩, -⟩
    · obtain ⟨c, hc, hdigit⟩ := head?_of_isWhole hwhole
      exact ⟨c, hc, .inl hdigit⟩
    · obtain ⟨c, hc, hdigit⟩ := head?_of_isWhole hwhole
      exact ⟨c, by rw [List.head?_append, hc, Option.some_or], .inl hdigit⟩
    · exact ⟨f.decimal, rfl, .inr rfl⟩
  have hnumber := isNumber_of_read h
  unfold isNumber at hnumber
  rw [Bool.or_eq_true] at hnumber
  rcases hnumber with hs | hs
  · obtain ⟨c, hc, hkind⟩ := hunsigned hs
    exact ⟨c, hc, hkind.imp id .inl⟩
  · cases s with
    | nil => cases hs
    | cons c rest =>
      rw [Bool.and_eq_true, Bool.or_eq_true, beq_iff_eq, beq_iff_eq] at hs
      exact ⟨c, rfl, .inr (.inr hs.1)⟩

end NumberFormat

/-! ## Trees that are kept -/

/-- The language with one more function. -/
def Language.push (lang : Language) (d : Definition (Expr Float)) : Language :=
  { lang with registry := lang.registry.push d }

/-- The function is found under no name of a variable in the tree, loop variables included. -/
def Spares (d : Definition (Expr Float)) (t : Expr Float) : Prop :=
  ∀ name, .var name ∈ t.nodes → ¬ d.name.toList <+: name.toList

/-- A tree that spares the function is read the second way if it is read the first way. -/
def Keeps (d : Definition (Expr Float)) (r r' : Parsed) : Prop :=
  ∀ t, r = .ok t → Spares d t → r' = .ok t

variable {d : Definition (Expr Float)} {t : Expr Float}

/-- What a tree spares its children spare. -/
theorem Spares.of_mem_children {a : Expr Float} (h : Spares d t) (ha : a ∈ t.children) :
    Spares d a := fun name hname => h name (mem_nodes_of_mem_children ha hname)

namespace Keeps

variable {r r' : Parsed}

/-- Only trees are kept, no errors. -/
theorem error (e : ParseError) (r' : Parsed) : Keeps d (.error e) r' := by
  rintro t ⟨⟩

/-- A function with an operand that is kept. -/
theorem unary (f : UnaryOp) (h : Keeps d r r') :
    Keeps d (do return .unary f (← r)) (do return .unary f (← r')) := by
  intro t ht hspares
  obtain ⟨x, hx, ht⟩ := bind_eq_ok.1 ht
  cases ht
  rw [h x hx (hspares.of_mem_children (List.mem_singleton.2 rfl))]
  rfl

/-- Several texts are read one after the other. -/
theorem mapM {read read' : Segment → Parsed} (h : ∀ s, Keeps d (read s) (read' s))
    {parts : List Segment} {ts : List (Expr Float)} (hts : parts.mapM read = .ok ts)
    (hspares : ∀ t ∈ ts, Spares d t) :
    parts.mapM read' = .ok ts := by
  rw [mapM_eq_ok] at hts ⊢
  induction hts with
  | nil => exact .nil
  | @cons s t _ _ hfirst _ ih =>
    obtain ⟨hfirst', hrest⟩ := List.forall_mem_cons.1 hspares
    exact .cons (h s t hfirst hfirst') (ih hrest)

end Keeps

namespace Syntax

variable {lang : Language} {read read' : Segment → Parsed} {s : Segment}

/-! ## Passes -/

/-- If operands are joined to a tree that spares the function, so does the first operand. -/
theorem keeps_foldLeft {first : Expr Float} {rest : List (Delimiter BinaryOp × Segment)}
    (hread : ∀ s, Keeps d (read s) (read' s)) (ht : foldLeft read first rest = .ok t)
    (hspares : Spares d t) : Spares d first ∧ foldLeft read' first rest = .ok t := by
  induction rest generalizing first with
  | nil =>
    cases ht
    exact ⟨hspares, rfl⟩
  | cons x rest ih =>
    obtain ⟨joined, hjoined, ht⟩ := bind_eq_ok.1 ht
    obtain ⟨part, hpart, hjoined⟩ := bind_eq_ok.1 hjoined
    cases hjoined
    obtain ⟨hspares, ht⟩ := ih ht
    have hpart' := hread x.2 part hpart (hspares.of_mem_children (by simp [children]))
    exact ⟨hspares.of_mem_children (by simp [children]),
      bind_eq_ok.2 ⟨_, bind_eq_ok.2 ⟨part, hpart', rfl⟩, ht⟩⟩

/-- A pass keeps trees if the next pass does. -/
theorem keeps_readSplit (delimiters : List (Delimiter BinaryOp)) (lone : List Char)
    (hread : ∀ s, Keeps d (read s) (read' s)) (s : Segment) :
    Keeps d (readSplit delimiters lone read s) (readSplit delimiters lone read' s) := by
  intro t ht hspares
  obtain ⟨parts, hparts, ht⟩ := bind_eq_ok.1 ht
  obtain ⟨first, hfirst, ht⟩ := bind_eq_ok.1 ht
  obtain ⟨hspares, ht⟩ := keeps_foldLeft hread ht hspares
  exact bind_eq_ok.2 ⟨parts, hparts, bind_eq_ok.2 ⟨first, hread _ _ hfirst hspares, ht⟩⟩

/-! ## Atoms -/

section Calls

variable {inner inner' : Segment → Parsed} (hinner : ∀ s, Keeps d (inner s) (inner' s))

include hinner

/-- Arguments are kept with one more definition. -/
theorem arguments_push (name : String) (s : Segment) {args : List (Expr Float)}
    (hargs : arguments lang inner name s = .ok args) (hspares : ∀ a ∈ args, Spares d a) :
    arguments (lang.push d) inner' name s = .ok args := by
  obtain ⟨hlist, hread⟩ := arguments_eq_ok_iff.1 hargs
  refine arguments_eq_ok_iff.2 ⟨hlist, hread.imp_right ?_⟩
  rintro ⟨hne, parts, hparts, hread⟩
  exact ⟨hne, parts, hparts, Keeps.mapM hinner hread hspares⟩

/-- A call of a builtin function is kept when its arguments are. -/
theorem keeps_builtinCall (f : Builtin) (s : Segment) :
    Keeps d (builtinCall lang inner f s) (builtinCall (lang.push d) inner' f s) := by
  intro t ht hspares
  obtain ⟨args, hargs, harity, hloop, rfl⟩ := builtinCall_eq_ok_iff.1 ht
  have hargs' := arguments_push hinner f.name s hargs fun a ha => hspares.of_mem_children ha
  exact builtinCall_eq_ok_iff.2 ⟨args, hargs', harity, hloop, rfl⟩

/-- A call of a user-defined function is kept when its arguments are. -/
theorem keeps_userCall (callee : Definition (Expr Float)) (s : Segment) :
    Keeps d (userCall lang inner callee s) (userCall (lang.push d) inner' callee s) := by
  intro t ht hspares
  obtain ⟨args, hargs, harity, rfl⟩ := userCall_eq_ok_iff.1 ht
  have hargs' := arguments_push hinner callee.name s hargs fun a ha => hspares.of_mem_children ha
  exact userCall_eq_ok_iff.2 ⟨args, hargs', harity, rfl⟩

end Calls

/-- What is found in the registry stays the first that is found, and the new function is found at
the beginning of no other text than those that begin with its name. -/
theorem lookup?_push {registry : Registry} {text : List Char}
    (h : registry.lookup? text = none → ¬ d.name.toList <+: text) :
    (registry.push d).lookup? text = registry.lookup? text := by
  rw [Registry.lookup?, Registry.push, List.find?_append, ← Registry.lookup?]
  cases hlookup : registry.lookup? text with
  | some callee => rfl
  | none => simpa using h hlookup

/-- The named constants are these words. -/
theorem exists_word_of_constant? {text : List Char} {v : Value Float} (h : constant? text = some v) :
    ∃ word ∈ ["e", "pi", "i", "true", "false"], text = word.toList := by
  unfold constant? at h
  split at h
  case h_6 => cases h
  all_goals
    rename_i hword
    exact ⟨String.ofList text, by simp [hword], String.toList_ofList.symm⟩

variable (hname : isName d.name.toList = true)
  (hwords : ∀ word ∈ ["e", "pi", "i", "true", "false"], ¬ d.name.toList <+: word.toList)
  (hdecimal : isLowercase lang.format.decimal = false)

omit hname hwords hdecimal in
/-- A number literal begins as a number does, also in front of an `i`. -/
theorem head?_of_number (ht : number lang s = .ok t) :
    ∃ c, s.text.head? = some c ∧
      (Text.isDecimalDigit c = true ∨ c = lang.format.decimal ∨ c = '+' ∨ c = '-') := by
  rcases number_eq_ok ht with ⟨text, x, htext, hx, -⟩ | ⟨x, hx, -⟩
  · obtain ⟨c, hc, hkind⟩ := NumberFormat.head?_of_read hx
    exact ⟨c, by rw [htext, List.head?_append, hc, Option.some_or], hkind⟩
  · exact NumberFormat.head?_of_read hx

omit hwords in
include hname hdecimal in
/-- No number begins with the name of a function. -/
theorem not_prefix_of_number (ht : number lang s = .ok t) : ¬ d.name.toList <+: s.text := by
  intro hprefix
  obtain ⟨c, hc, hkind⟩ := head?_of_number ht
  obtain ⟨letter, rest, hletters, hlower⟩ := exists_cons_of_isName hname
  obtain ⟨behind, htext⟩ := hprefix
  rw [← htext, hletters] at hc
  cases hc
  rcases hkind with hdigit | rfl | rfl | rfl
  · rw [not_isDecimalDigit_of_isLowercase hlower] at hdigit
    cases hdigit
  · rw [hdecimal] at hlower
    cases hlower
  · exact absurd hlower (by decide)
  · exact absurd hlower (by decide)

omit hname hwords hdecimal in
/-- A number literal does not depend on the functions. -/
theorem keeps_number (s : Segment) : Keeps d (number lang s) (number (lang.push d) s) := by
  intro t ht _
  unfold number at ht ⊢
  dsimp only [Language.push] at ht ⊢
  split at ht
  · exact ht
  · cases ht
  · cases ht

section Passes

variable {inner inner' : Nat → Segment → Parsed}
  (hinner : ∀ pending s, Keeps d (inner pending s) (inner' pending s))

include hname hwords hdecimal hinner

/-- The new function is not found at the beginning of an atom that was read without it. -/
theorem keeps_atom (pending : Nat) (s : Segment) :
    Keeps d (atom lang inner pending s) (atom (lang.push d) inner' pending s) := by
  intro t ht hspares
  rw [atom_eq_ok_iff] at ht ⊢
  obtain ⟨hne, ht⟩ := ht
  refine ⟨hne, ?_⟩
  -- the new function is not found where none was
  have hpush (hregistered : lang.registry.lookup? s.text = none) (h : ¬ d.name.toList <+: s.text) :
      (lang.push d).registry.lookup? s.text = none :=
    (lookup?_push fun _ => h).trans hregistered
  cases ht with
  | wrapped h ht => exact .wrapped h (hinner _ _ t ht hspares)
  | function hwrapped h hrest hv =>
    exact .function hwrapped h hrest
      (hinner _ _ _ hv (hspares.of_mem_children (List.mem_singleton.2 rfl)))
  | @builtin f t hwrapped hfunction h ht =>
    exact .builtin hwrapped hfunction h (keeps_builtinCall (hinner _) f s t ht hspares)
  | @apply callee t hwrapped hfunction hbuiltin h ht =>
    have hlookup : (lang.push d).registry.lookup? s.text = some callee :=
      (lookup?_push fun hnone => by rw [hnone] at h; cases h).trans h
    exact .apply hwrapped hfunction hbuiltin hlookup
      (keeps_userCall (hinner _) callee s t ht hspares)
  | constant hwrapped hfunction hbuiltin hregistered h =>
    obtain ⟨word, hword, htext⟩ := exists_word_of_constant? h
    exact .constant hwrapped hfunction hbuiltin (hpush hregistered (htext ▸ hwords word hword)) h
  | «variable» hwrapped hfunction hbuiltin hregistered hconstant h =>
    have hvar := hspares s.shown (mem_nodes_self _)
    rw [Segment.shown, String.toList_ofList] at hvar
    exact .variable hwrapped hfunction hbuiltin (hpush hregistered hvar) hconstant h
  | number hwrapped hfunction hbuiltin hregistered hconstant hname' ht =>
    exact .number hwrapped hfunction hbuiltin
      (hpush hregistered (not_prefix_of_number hname hdecimal ht)) hconstant hname'
      (keeps_number s _ ht hspares)

/-- A product is kept when its atoms are. -/
theorem keeps_product (pending : Nat) (s : Segment) :
    Keeps d (product lang inner pending s) (product (lang.push d) inner' pending s) :=
  keeps_readSplit _ _ (keeps_readSplit _ _ (keeps_atom hname hwords hdecimal hinner _)) s

/-- A sum is kept when its terms are. -/
theorem keeps_sum (pending : Nat) (s : Segment) :
    Keeps d (sum lang inner pending s) (sum (lang.push d) inner' pending s) := by
  have hproduct := keeps_product hname hwords hdecimal hinner
  intro t ht hspares
  obtain ⟨parts, hparts, ht⟩ := sum_eq_ok_iff.1 ht
  refine sum_eq_ok_iff.2 ⟨parts, hparts, ?_⟩
  rcases ht with ⟨hnil, e, part, rest, v, hcons, hv, ht⟩ | ⟨hfirst, v, hv, ht⟩
  · obtain ⟨hspares, ht⟩ := keeps_foldLeft (hproduct _) ht hspares
    have hv' := hproduct _ part v hv (hspares.of_mem_children (List.mem_singleton.2 rfl))
    exact .inl ⟨hnil, e, part, rest, v, hcons, hv', ht⟩
  · obtain ⟨hspares, ht⟩ := keeps_foldLeft (hproduct _) ht hspares
    exact .inr ⟨hfirst, v, hproduct _ _ v hv hspares, ht⟩

/-- A part of a logic formula is kept, with the `!` in front of it. -/
theorem keeps_operand (pending offset : Nat) (text : List Char) :
    Keeps d (operand lang inner pending offset text)
      (operand (lang.push d) inner' pending offset text) := by
  induction text generalizing pending offset with
  | nil => exact keeps_sum hname hwords hdecimal hinner _ _
  | cons c text ih =>
    unfold operand
    split
    · next hc =>
      split
      · next hexhausted => exact .error _ _
      · next hexhausted =>
        have hroom : ¬ isExhausted (lang.push d) pending = true := hexhausted
        rw [if_neg hroom]
        exact (ih (pending + 1) (offset + 1)).unary .not
    · exact keeps_sum hname hwords hdecimal hinner _ _

end Passes

include hname hwords hdecimal

/-- A formula is kept: it is read as the same tree with the new function. -/
theorem keeps_formula (levels pending : Nat) (s : Segment) :
    Keeps d (formula lang levels pending s) (formula (lang.push d) levels pending s) := by
  induction levels generalizing pending s with
  | zero => exact .error _ _
  | succ levels ih =>
    unfold formula
    split
    · exact .error _ _
    · next hexhausted =>
      have hroom : ¬ isExhausted (lang.push d) pending = true := hexhausted
      rw [if_neg hroom]
      exact keeps_readSplit _ _
        (fun part => keeps_operand hname hwords hdecimal ih _ _ _) s

end Syntax

/-! ## Formulas after a definition -/

/-- A text is read as the same tree with a new function whose name begins no variable of it. -/
theorem Language.parse_push {lang : Language} {text : String}
    (hname : Syntax.isName d.name.toList = true)
    (hwords : ∀ word ∈ ["e", "pi", "i", "true", "false"], ¬ d.name.toList <+: word.toList)
    (hdecimal : Syntax.isLowercase lang.format.decimal = false)
    (hparse : lang.parse text = .ok t) (hspares : Spares d t) :
    (lang.push d).parse text = .ok t := by
  unfold Language.parse at hparse ⊢
  split at hparse
  · cases hparse
  · exact Syntax.keeps_formula hname hwords hdecimal _ _ _ t hparse hspares

namespace Engine

/-- Defining a function does not disturb other formulas: what was read as a tree is read as the same
tree afterwards, with the same functions in its calls, if the name of the function begins no
variable of the tree and no named constant. -/
theorem parse_of_define {engine engine' : Engine} {text definition : String}
    (hdecimal : Syntax.isLowercase engine.language.format.decimal = false)
    (hparse : (parse text).run.run engine = (.ok t, engine))
    (hdefine : (define definition).run.run engine = (.ok d, engine'))
    (hvariables : ∀ name, .var name ∈ t.nodes → ¬ d.name.toList <+: name.toList)
    (hwords : ∀ word ∈ ["e", "pi", "i", "true", "false"], ¬ d.name.toList <+: word.toList) :
    (parse text).run.run engine' = (.ok t, engine') := by
  obtain ⟨language, hread, hregister, rfl⟩ := run_define_eq_ok hdefine
  obtain ⟨hname, -⟩ := Language.parseDefinition_eq_ok hread
  obtain ⟨-, rfl⟩ := Language.register_eq_ok hregister
  exact run_parse_eq_ok.2
    (Language.parse_push hname hwords hdecimal (run_parse_eq_ok.1 hparse) hvariables)

/-- `f(y)` is read again after `g(y) = f(y)` was defined. -/
theorem parse_of_define_call :
    let f : Definition (Expr Float) := ⟨"f", ["x"], .binary .pow (.var "x") (.var "x"), "x^x"⟩
    let g : Definition (Expr Float) := ⟨"g", ["y"], .apply f [.var "y"], "f(y)"⟩
    let engine (definitions : List (Definition (Expr Float))) : Engine :=
      { language := { registry := ⟨definitions⟩, maxPending := none },
        evaluator := { draw := fun _ => 0.5 } }
    (parse "f(y)").run.run (engine [f]) = (.ok g.body, engine [f]) ∧
      (define "g(y) = f(y)").run.run (engine [f]) = (.ok g, engine [f, g]) ∧
      (∀ name, .var name ∈ g.body.nodes → ¬ g.name.toList <+: name.toList) ∧
      (∀ word ∈ ["e", "pi", "i", "true", "false"], ¬ g.name.toList <+: word.toList) ∧
      (parse "f(y)").run.run (engine [f, g]) = (.ok g.body, engine [f, g]) := by
  intro f g engine
  have hparse : (parse "f(y)").run.run (engine [f]) = (.ok g.body, engine [f]) :=
    run_parse_eq_ok.2 (Language.parse_call "x" f.body f.bodyText)
  have hdefine : (define "g(y) = f(y)").run.run (engine [f]) = (.ok g, engine [f, g]) := by
    rw [run_define, Language.parseDefinition_call]
    rfl
  have hvariables : ∀ name, .var name ∈ g.body.nodes → ¬ g.name.toList <+: name.toList := by
    intro name hname
    obtain rfl : name = "y" := by simpa [g, nodes, nodesOfAll] using hname
    decide
  have hwords : ∀ word ∈ ["e", "pi", "i", "true", "false"], ¬ g.name.toList <+: word.toList := by
    decide
  exact ⟨hparse, hdefine, hvariables, hwords,
    parse_of_define (by decide) hparse hdefine hvariables hwords⟩

end Engine

end Formulary
