import Formulary.Expr.Render
import Formulary.Proofs.Expr.Respelling
import Formulary.Proofs.Expr.Rules
import Formulary.Proofs.Number.ReadBack
import Formulary.Proofs.Syntax.Spelling

/-!
# Writing trees

`Expr.Follows.spells`: the text of a tree spells the tree that it is read as (`Expr.respelled`),
with as many levels of nesting as were counted (`Expr.nesting`). The proof goes by induction over
the tree: the text of every subtree spells at its own level of operators, and one rule of `Spells`
puts it in its place.

The rules that the tree has to follow are those of `Language.writable`: its names are read as what
they are, and its numbers are finite. Everything else there is to a tree is written in brackets, and
a number with all its digits.
-/

namespace Formulary

open Grammar

/-- The names are those that are read as what they are: a variable as this variable, and a call as
one of this function. -/
def Language.named (lang : Language) (const : Value Float → Prop) : Rules Float where
  const := const
  var name := Unprefixed lang name.toList ∧ Syntax.constant? name.toList = none ∧
    Syntax.isName name.toList = true
  callee d := NoFunction (d.name.toList ++ ['(']) ∧ NoBuiltin (d.name.toList ++ ['(']) ∧
    lang.registry.lookup? (d.name.toList ++ ['(']) = some d

/-- What can be written: names and truth values are read as what they are, and numbers are finite.
-/
def Language.writable (lang : Language) : Rules Float :=
  lang.named fun v => (∀ x ∈ v.numbers, Binary64.isFinite x = true) ∧
    ∀ b, v = .boolean b → Unprefixed lang (Value.booleanText b).toList

namespace Expr

theorem toList_bracketed (p : Prop) [Decidable p] (text : String) :
    (bracketed p text).toList = if p then '(' :: text.toList ++ [')'] else text.toList := by
  by_cases hp : p <;> simp [bracketed, hp]

theorem renderAll_eq (f : NumberFormat) (es : List (Expr Float)) :
    renderAll f es = es.map (render f) := by
  induction es with
  | nil => rfl
  | cons e es ih => rw [renderAll, ih, List.map_cons]

/-- All functions of one argument but the two prefix operators are rendered by name. -/
theorem renderUnary_of_ne {f : UnaryOp} (hneg : f ≠ .neg) (hnot : f ≠ .not) (operand : String)
    (level : Level) :
    renderUnary f operand level = f.name ++ "(" ++ operand ++ ")" ∧ f.level = .atom ∧
      unaryLevels f level = 2 := by
  cases f <;> first
    | exact ⟨rfl, rfl, rfl⟩
    | exact absurd rfl hneg
    | exact absurd rfl hnot

/-- A rendered call is its name and the list of its rendered arguments. -/
theorem toList_call (lang : Language) (name : String) (args : List (Expr Float)) :
    (name ++ "(" ++ lang.format.argumentText.intercalate (renderAll lang.format args) ++
      ")").toList =
      argumentList lang name (args.map fun a => (a.render lang.format).toList) := by
  simp [argumentList, renderAll_eq, NumberFormat.argumentText, Function.comp_def]

end Expr

namespace Grammar

variable {lang : Language} {t : Expr Float}

/-! ## Constants -/

/-- The exact text of a finite number, which has a sign of its own if the number is negative. -/
theorem startsWith_exact (f : NumberFormat) {x : Float} (hx : Binary64.isFinite x = true) :
    (f.exact x).startsWith "-" = Binary64.isNegative x := by
  obtain ⟨c, rest, hc, hs⟩ := ((Binary64.shortest x).trimmed.isDigitText_plain f.decimal).begins
  have hexact := f.exact_toList hx
  rw [hs, Binary64.signText] at hexact
  cases hsign : Binary64.isNegative x with
  | true =>
    rw [hsign] at hexact
    rw [String.startsWith_string_iff, hexact]
    exact ⟨_, rfl⟩
  | false =>
    rw [hsign] at hexact
    rw [String.startsWith_string_eq_false_iff, hexact]
    intro hstarts
    exact (not_sign_of_mem hc).1 (List.cons_prefix_cons.1 hstarts).1.symm

section Constants

variable {x : Float} (hmarks : lang.format.HasPlainMarks)
  (hnames : ∀ d ∈ lang.registry.definitions, Syntax.isName d.name.toList = true)

include hmarks hnames

/-- The digits of a number, and its sign in front of them. -/
theorem spells_signedNumber (hx : Binary64.isFinite x = true) :
    Spells lang 1 (signedNumber x).level (lang.format.exact x).toList (signedNumber x) := by
  have hdigits := (Binary64.shortest x).trimmed.isDigitText_plain lang.format.decimal
  have hread := lang.format.read_shortest hx
  rw [lang.format.exact_toList hx, Binary64.signText, signedNumber]
  cases hsign : Binary64.isNegative x with
  | true => exact (Spells.number hmarks hnames hdigits hread).neg hmarks
  | false =>
    rw [Binary64.unsigned_of_not_isNegative hsign] at hread
    exact .number hmarks hnames hdigits hread

theorem spells_real (hx : Binary64.isFinite x = true) :
    Spells lang ((Value.real x).nesting + 1) .atom ((Value.real x).rendered lang.format).toList
      (signedNumber x) := by
  have h := spells_signedNumber hmarks hnames hx
  rw [Value.rendered, startsWith_exact lang.format hx, Value.nesting]
  cases hsign : Binary64.isNegative x with
  | true => simpa using h.bracketed
  | false =>
    have hlevel : (signedNumber x).level = .atom := by rw [signedNumber, hsign]; rfl
    rw [hlevel] at h
    simpa using h

/-- The sum of a real and an imaginary number, or the difference if the latter is negative. -/
theorem spells_complex {z : Cartesian Float} (hre : Binary64.isFinite z.re = true)
    (him : Binary64.isFinite z.im = true) :
    Spells lang 2 .atom ((Value.complex z).rendered lang.format).toList
      (Value.complex z).respelled := by
  have hdigits := (Binary64.shortest z.im).trimmed.isDigitText_plain lang.format.decimal
  have hread := lang.format.read_shortest him
  have himaginary : Spells lang 1 .atom _ _ := .imaginary hmarks hnames hdigits hread
  have hlevel : ¬ (signedNumber z.re).level.rank < Level.sum.rank := by
    unfold signedNumber
    split
    · exact Nat.lt_irrefl _
    · exact Nat.not_lt_of_ge (show Level.sum.rank ≤ Level.atom.rank by decide)
  have hsum : ∀ op : BinaryOp, op.level = .sum → Spells lang 1 .sum
      ((lang.format.exact z.re).toList ++ op.symbol.toList ++
        ((Binary64.shortest z.im).trimmed.plain lang.format.decimal ++ ['i']))
      (.binary op (signedNumber z.re) (.const (.complex ⟨0.0, Binary64.unsigned z.im⟩))) := by
    intro op hop
    have h := (spells_signedNumber hmarks hnames hre).binary hmarks op himaginary
    rw [hop, if_neg hlevel, if_neg hlevel, if_neg (by decide), if_neg (by decide)] at h
    exact h
  have htext : ((Value.complex z).rendered lang.format).toList =
      '(' :: ((lang.format.exact z.re).toList ++
        (if Binary64.isNegative z.im then BinaryOp.sub else BinaryOp.add).symbol.toList ++
        ((Binary64.shortest z.im).trimmed.plain lang.format.decimal ++ ['i'])) ++ [')'] := by
    rw [Value.rendered, Value.signed, startsWith_exact lang.format him]
    cases hsign : Binary64.isNegative z.im <;>
      simp [lang.format.exact_toList him, Binary64.signText, hsign, BinaryOp.symbol]
  rw [htext, Value.respelled]
  exact (hsum _ (by split <;> rfl)).bracketed

/-- The text of a value that can be written is an atom. -/
theorem spells_value {v : Value Float} (hv : lang.writable.const v) :
    Spells lang (v.nesting + 1) .atom (v.rendered lang.format).toList v.respelled := by
  cases v with
  | boolean b =>
    have hword : Syntax.isName (Value.booleanText b).toList = true ∧
        Syntax.constant? (Value.booleanText b).toList = some (.boolean b) := by
      cases b <;> exact ⟨by decide, rfl⟩
    exact .word hmarks hword.1 (AtomOver.constant (hv.2 b rfl) hword.2)
  | real x => exact spells_real hmarks hnames (hv.1 x (by simp [Value.numbers]))
  | complex z =>
    exact spells_complex hmarks hnames (hv.1 z.re (by simp [Value.numbers]))
      (hv.1 z.im (by simp [Value.numbers]))

end Constants

/-! ## Functions of one argument -/

/-- The two prefix operators have levels of their own, and the other functions are calls. -/
theorem Spells.renderUnary (hmarks : lang.format.HasPlainMarks) (f : UnaryOp) {levels : ℕ}
    {level : Level} {operand : String} (h : Spells lang (levels + 1) level operand.toList t) :
    Spells lang (levels + Expr.unaryLevels f level + 1) f.level
      (Expr.renderUnary f operand level).toList (.unary f t) := by
  by_cases hneg : f = .neg
  · subst hneg
    have := h.neg hmarks
    rw [Expr.renderUnary, String.toList_append, Expr.toList_bracketed]
    exact this
  · by_cases hnot : f = .not
    · subst hnot
      have := h.not hmarks
      rw [Expr.renderUnary, String.toList_append, Expr.toList_bracketed]
      exact this
    · obtain ⟨hrender, hlevel, hlevels⟩ := Expr.renderUnary_of_ne hneg hnot operand level
      rw [hrender, hlevels, hlevel]
      have := h.function hmarks hnot
      simpa using this

/-! ## Calls -/

/-- The texts of arguments that spell them are formulas and handy. -/
theorem arguments_spell {args : List (Expr Float)}
    (h : ∀ a ∈ args,
      Spells lang (a.nesting + 1) a.level (a.render lang.format).toList a.respelled) :
    (∀ u ∈ args.map fun a => (a.render lang.format).toList, Handy lang u) ∧
      List.Forall₂ (Logic (AtomWithin lang (Expr.nestingAll args)))
        (args.map fun a => (a.render lang.format).toList) (args.map Expr.respelled) := by
  constructor
  · intro u hu
    obtain ⟨a, ha, rfl⟩ := List.mem_map.1 hu
    exact (h a ha).toHandy
  · rw [List.forall₂_map_left_iff, List.forall₂_map_right_iff]
    exact List.forall₂_same.2 fun a ha => ((h a ha).mono (Expr.nesting_lt_nestingAll ha)).logic

/-- A call is recognised by its name, whatever its arguments are. -/
theorem call_of_name {name : String} {d : Definition (Expr Float)}
    (hnames : ∀ d ∈ lang.registry.definitions, Syntax.isName d.name.toList = true)
    (h : NoFunction (name.toList ++ ['(']) ∧ NoBuiltin (name.toList ++ ['(']) ∧
      lang.registry.lookup? (name.toList ++ ['(']) = some d) (texts : List (List Char)) :
    NoFunction (argumentList lang name texts) ∧ NoBuiltin (argumentList lang name texts) ∧
      lang.registry.lookup? (argumentList lang name texts) = some d := by
  rw [argumentList, List.append_assoc]
  exact ⟨noFunction_call h.1, noBuiltin_call h.2.1, (lookup?_call hnames).trans h.2.2⟩

end Grammar

/-- The text of a tree that can be written spells the tree that it is read as. -/
theorem Expr.Follows.spells {lang : Language} {t : Expr Float}
    (hmarks : lang.format.HasPlainMarks)
    (hnames : ∀ d ∈ lang.registry.definitions, Syntax.isName d.name.toList = true)
    (h : t.Follows lang.writable) :
    Spells lang (t.nesting + 1) t.level (t.render lang.format).toList t.respelled := by
  induction h with
  | const hv origin =>
    rw [Expr.render, Expr.respelled, Expr.nesting]
    exact spells_value hmarks hnames hv
  | @var name hname =>
    obtain ⟨hs, hconstant, hname⟩ := hname
    have hvariable : AtomOver lang (AtomWithin lang 0) name.toList (.var name) := by
      have := AtomOver.variable (A := AtomWithin lang 0) hs hconstant hname
      rwa [String.ofList_toList] at this
    exact .word hmarks hname hvariable
  | binary op _ _ ihl ihr =>
    rw [Expr.render, Expr.respelled, Expr.nesting, String.toList_append, String.toList_append,
      Expr.toList_bracketed, Expr.toList_bracketed]
    exact ihl.binary hmarks op ihr
  | unary f _ ih =>
    rw [Expr.render, Expr.respelled, Expr.nesting]
    exact ih.renderUnary hmarks f
  | @builtin f args hf harity hloop _ ih =>
    obtain ⟨hhandy, hformulas⟩ := arguments_spell ih
    rw [Expr.render, Expr.respelled, Expr.nesting, Expr.respelledAll_eq, Expr.toList_call]
    refine .builtin hmarks hhandy hf hformulas (by simpa using harity) fun hseries => ?_
    -- a loop variable is no constant, so it stays what it is
    obtain ⟨k, rest, rfl⟩ := hloop hseries
    exact ⟨k, rest.map Expr.respelled, rfl⟩
  | @apply d args hd harity _ ih =>
    obtain ⟨hhandy, hformulas⟩ := arguments_spell ih
    obtain ⟨hfunction, hbuiltin, hlookup⟩ :=
      call_of_name hnames hd (args.map fun a => (a.render lang.format).toList)
    have hname := hnames d (List.mem_of_find?_eq_some hlookup)
    rw [Expr.render, Expr.respelled, Expr.nesting, Expr.respelledAll_eq, Expr.toList_call]
    exact .apply hmarks hhandy hname hfunction hbuiltin hlookup hformulas (by simpa using harity)

/-- The text of a tree that can be written is read within as many levels of nesting as it has. -/
theorem Expr.Follows.parse_rendered {lang : Language} {t : Expr Float} (h : t.Follows lang.writable)
    (hmarks : lang.format.HasPlainMarks) (hpending : lang.maxPending = none)
    (hregistry : lang.registry.Defined) (hdepth : (t.nesting : Int) ≤ lang.maxDepth) :
    lang.parse (t.render lang.format) = .ok t.respelled := by
  have hspells := h.spells hmarks hregistry.isName
  refine Language.parse_of_within hmarks hpending ?_
  rw [hspells.compact_eq]
  exact (hspells.mono (by rw [Language.levels]; omega)).logic

end Formulary
