import Mathlib.Data.List.Find
import Formulary.Proofs.Number.Exact
import Formulary.Proofs.Syntax.Registry
import Formulary.Proofs.Syntax.Readable

/-!
# Spelling trees

`Spells lang levels level s t` says that the text `s` is a formula for `t` that has so many levels
of nesting and is at home at a level of operators, and that it can be put anywhere: it holds no
blank and, outside brackets, no argument separator, and it does not begin with a `!` that a tighter
operator would leave to it.

A text that binds too loosely for its place is put in brackets, which makes an atom of it, one level
further up. That is all there is to brackets: `Spells.left` and `Spells.part` are the two places
that an operand can take, and the rules of the grammar do the rest.

## Names

A text that begins with a name and an opening bracket is told apart by the name alone. So what a
call was recognised by does not depend on the arguments, which may be written anew.
-/

namespace Formulary

open Text

namespace Grammar

variable {lang : Language} {A : List Char → Expr Float → Prop} {levels levels' : ℕ}
  {level loose : Level} {s s' : List Char} {t : Expr Float}

/-! ## Levels of formulas -/

/-- The texts between the operators of a level. -/
def Part (A : List Char → Expr Float → Prop) : Level → List Char → Expr Float → Prop
  | .logic => Operand A
  | .sum => Product A
  | .product => Power A
  | .power | .atom => A

/-- The texts of a level. -/
def Derives (A : List Char → Expr Float → Prop) : Level → List Char → Expr Float → Prop
  | .atom => A
  | level => Joined level (Part A level)

/-- A text of a level is one of any looser level, but `!` is left to the loosest. -/
theorem Derives.loosen (h : Derives A level s t) (hhead : level ≠ .logic → s.head? ≠ some '!')
    (hle : loose.rank ≤ level.rank) : Derives A loose s t := by
  have hpower : 4 ≤ level.rank → Power A s t := by
    intro hrank
    cases level with
    | atom => exact .part h
    | power => exact h
    | _ => exact absurd hrank (by decide)
  have hproduct : 3 ≤ level.rank → Product A s t := by
    intro hrank
    cases level with
    | atom | power => exact .part (hpower (by decide))
    | product => exact h
    | _ => exact absurd hrank (by decide)
  have hsum : 2 ≤ level.rank → Sum A s t := by
    intro hrank
    cases level with
    | atom | power | product => exact .part (hproduct (by decide))
    | sum => exact h
    | logic => exact absurd hrank (by decide)
  cases loose with
  | atom =>
    cases level with
    | atom => exact h
    | _ => exact absurd hle (by decide)
  | power => exact hpower hle
  | product => exact hproduct hle
  | sum => exact hsum hle
  | logic =>
    cases level with
    | logic => exact h
    | _ => exact .part (.part (hhead (by decide)) (hsum (by decide)))

/-- A text of a tighter level stands between the operators of a level. -/
theorem Derives.part (h : Derives A level s t) (hhead : s.head? ≠ some '!')
    (hlt : loose.rank < level.rank) : Part A loose s t := by
  cases loose with
  | logic => exact .part hhead (h.loosen (fun _ => hhead) (show Level.sum.rank ≤ _ from hlt))
  | sum => exact h.loosen (fun _ => hhead) (show Level.product.rank ≤ _ from hlt)
  | product => exact h.loosen (fun _ => hhead) (show Level.power.rank ≤ _ from hlt)
  | power => exact h.loosen (fun _ => hhead) (show Level.atom.rank ≤ _ from hlt)
  | atom => cases level <;> exact absurd hlt (by decide)

/-- Two operands and the operator between them. -/
theorem Derives.join {l r : List Char} {a b : Expr Float} (op : BinaryOp)
    (hl : Derives A op.level l a) (hr : Part A op.level r b) :
    Derives A op.level (l ++ op.symbol.toList ++ r) (.binary op a b) := by
  cases op <;> exact Joined.join _ rfl hl hr

/-- The atoms of a text can be taken for others. -/
theorem Derives.imp {B : List Char → Expr Float → Prop} (h : Derives A level s t)
    (hA : ∀ u v, A u v → B u v) : Derives B level s t := by
  have hpower : ∀ {u v}, Power A u v → Power B u v := fun h => Joined.imp h fun u v _ => hA u v
  have hproduct : ∀ {u v}, Product A u v → Product B u v :=
    fun h => Joined.imp h fun _ _ _ => hpower
  cases level with
  | atom => exact hA _ _ h
  | power => exact hpower h
  | product => exact hproduct h
  | sum => exact Joined.imp h fun _ _ _ => hproduct
  | logic => exact Logic.imp h fun u v _ => hA u v

/-! ## Texts that can be put anywhere -/

/-- A text without blanks, argument separators outside brackets or a `!` in front. -/
structure Handy (lang : Language) (s : List Char) : Prop where
  separated : Clear lang.format.argument s
  no_blank : ∀ c ∈ s, isBlank c = false
  ne_nil : s ≠ []

/-- The text is a formula for the tree, at a level of operators and with some levels of nesting. -/
structure Spells (lang : Language) (levels : ℕ) (level : Level) (s : List Char) (t : Expr Float) :
    Prop extends Handy lang s where
  derives : Derives (AtomWithin lang levels) level s t
  head : level ≠ .logic → s.head? ≠ some '!'

/-- Two texts that can be put anywhere make one. -/
theorem Handy.append (h : Handy lang s) (h' : Handy lang s') : Handy lang (s ++ s') where
  separated := h.separated.append h'.separated
  no_blank := by
    intro c hc
    rcases List.mem_append.1 hc with hc | hc
    · exact h.no_blank c hc
    · exact h'.no_blank c hc
  ne_nil := by simp [h.ne_nil]

/-- In brackets, argument separators do not matter. -/
theorem Handy.bracketed (hs : Balanced s) (hblank : ∀ c ∈ s, isBlank c = false) :
    Handy lang ('(' :: s ++ [')']) where
  separated := hs.bracketed .round
  no_blank := by
    intro c hc
    rcases List.mem_append.1 hc with hc | hc
    · rcases List.mem_cons.1 hc with rfl | hc
      · decide
      · exact hblank c hc
    · rw [List.mem_singleton.1 hc]
      decide
  ne_nil := by simp

/-- A text of plain characters can be put anywhere. -/
theorem handy_of_forall (hne : s ≠ []) (h : ∀ c ∈ s, Bracket.isBracket c = false ∧
    c ∉ lang.format.argument ∧ isBlank c = false) : Handy lang s where
  separated := .of_forall fun c hc => ⟨(h c hc).1, (h c hc).2.1⟩
  no_blank c hc := (h c hc).2.2
  ne_nil := hne

/-- Letters, digits and operators are no argument separators. -/
theorem notMem_argument (hmarks : lang.format.HasPlainMarks) {c : Char}
    (hc : c.isAlpha = true ∨ isDigit c = true ∨ c ∈ operatorCharacters) :
    c ∉ lang.format.argument := by
  obtain ⟨m, hm, hplain⟩ := hmarks.argument
  rw [hm, List.mem_singleton]
  rintro rfl
  rcases hc with hletter | hdigit | hoperator
  · simp [hplain.not_letter] at hletter
  · simp [hplain.not_digit] at hdigit
  · exact hplain.not_operator hoperator

/-- Characters of operators are handy. -/
theorem handy_of_operator (hmarks : lang.format.HasPlainMarks) (hne : s ≠ [])
    (h : ∀ c ∈ s, c ∈ operatorCharacters) : Handy lang s := by
  have hoperator : ∀ c ∈ operatorCharacters, Bracket.isBracket c = false ∧ isBlank c = false := by
    decide
  exact handy_of_forall hne fun c hc => ⟨(hoperator c (h c hc)).1,
    notMem_argument hmarks (.inr (.inr (h c hc))), (hoperator c (h c hc)).2⟩

/-- Lowercase words are handy. -/
theorem handy_of_isName (hmarks : lang.format.HasPlainMarks) (h : Syntax.isName s = true) :
    Handy lang s := by
  simp only [Syntax.isName, Bool.and_eq_true, Bool.not_eq_true', List.isEmpty_eq_false_iff] at h
  refine handy_of_forall h.1 fun c hc => ?_
  have hlow := List.all_eq_true.1 h.2 c hc
  exact ⟨Syntax.not_isBracket_of_isLowercase hlow,
    notMem_argument hmarks (.inl (Syntax.isAlpha_of_isLowercase hlow)),
    Syntax.not_isBlank_of_isLowercase hlow⟩

/-- Names of functions of one argument may hold digits. -/
theorem handy_function_name (hmarks : lang.format.HasPlainMarks) {f : UnaryOp} (hf : f ≠ .not) :
    Handy lang f.name.toList := by
  have hname : ∀ f ∈ UnaryOp.all, f ≠ .not → f.name.toList ≠ [] ∧ ∀ c ∈ f.name.toList,
      Bracket.isBracket c = false ∧ (c.isAlpha = true ∨ isDigit c = true) ∧ isBlank c = false := by
    decide
  obtain ⟨hne, hchars⟩ := hname f (UnaryOp.mem_all f) hf
  refine handy_of_forall hne fun c hc => ?_
  obtain ⟨hbracket, hletter | hdigit, hblank⟩ := hchars c hc
  · exact ⟨hbracket, notMem_argument hmarks (.inl hletter), hblank⟩
  · exact ⟨hbracket, notMem_argument hmarks (.inr (.inl hdigit)), hblank⟩

/-- Digits with a decimal separator are handy. -/
theorem handy_of_isDigitText (hmarks : lang.format.HasPlainMarks)
    (h : IsDigitText lang.format.decimal s) : Handy lang s := by
  obtain ⟨c, rest, -, hs⟩ := h.begins
  have hdigit : ∀ c ∈ digitCharacters, Bracket.isBracket c = false ∧ isDigit c = true ∧
      isBlank c = false := by decide
  refine handy_of_forall (by simp [hs]) fun c hc => ?_
  rcases h.chars c hc with hc | rfl
  · obtain ⟨hbracket, hdigit, hblank⟩ := hdigit c hc
    exact ⟨hbracket, notMem_argument hmarks (.inr (.inl hdigit)), hblank⟩
  · obtain ⟨m, hm, -⟩ := hmarks.argument
    refine ⟨hmarks.decimal.not_bracket, ?_, hmarks.decimal.not_blank⟩
    rw [hm, List.mem_singleton]
    intro heq
    exact lang.format.argument_ne_decimal (by rw [hm, heq])

namespace Spells

/-- There may be more levels of nesting than the text has. -/
theorem mono (h : Spells lang levels level s t) (hle : levels ≤ levels') :
    Spells lang levels' level s t where
  toHandy := h.toHandy
  derives := h.derives.imp fun _ _ hA => hA.mono hle
  head := h.head

/-- A formula of a level is one of every looser level. -/
theorem loosen (h : Spells lang levels level s t) (hle : loose.rank ≤ level.rank) :
    Spells lang levels loose s t where
  toHandy := h.toHandy
  derives := h.derives.loosen h.head hle
  head hloose := by
    refine h.head ?_
    rintro rfl
    cases loose <;> first | exact hloose rfl | exact absurd hle (by decide)

/-- A spelled text is a formula. -/
theorem logic (h : Spells lang levels level s t) : Logic (AtomWithin lang levels) s t :=
  (h.loosen (show Level.logic.rank ≤ level.rank by cases level <;> decide)).derives

/-- A spelled text has no blanks to leave out. -/
theorem compact_eq (h : Spells lang levels level s t) : compact s = s :=
  List.filter_eq_self.2 fun c hc => by simp [h.no_blank c hc]

/-- An atom that does not begin with `!`. -/
theorem of_atom (hs : Handy lang s) (h : AtomWithin lang levels s t) (hhead : s.head? ≠ some '!') :
    Spells lang levels .atom s t :=
  ⟨hs, h, fun _ => hhead⟩

/-- Brackets make an atom of any text. -/
theorem bracketed (h : Spells lang levels level s t) :
    Spells lang (levels + 1) .atom ('(' :: s ++ [')']) t :=
  .of_atom (.bracketed h.separated.balanced h.no_blank) (AtomOver.wrapped .round h.logic) (by simp)

/-- An operand in front of an operator is put in brackets if it binds more loosely. -/
theorem left (h : Spells lang levels level s t) :
    Spells lang (levels + if level.rank < loose.rank then 1 else 0) loose
      (if level.rank < loose.rank then '(' :: s ++ [')'] else s) t := by
  by_cases hlt : level.rank < loose.rank
  · rw [if_pos hlt, if_pos hlt]
    exact h.bracketed.loosen (by cases loose <;> decide)
  · rw [if_neg hlt, if_neg hlt]
    exact h.loosen (Nat.le_of_not_lt hlt)

/-- An operand behind an operator, prefix or not, is put in brackets if it binds no tighter. -/
theorem part (h : Spells lang levels level s t) (hloose : loose ≠ .atom)
    (hlevels : levels + (if level.rank ≤ loose.rank then 1 else 0) ≤ levels') :
    Handy lang (if level.rank ≤ loose.rank then '(' :: s ++ [')'] else s) ∧
      Part (AtomWithin lang levels') loose
        (if level.rank ≤ loose.rank then '(' :: s ++ [')'] else s) t := by
  by_cases hle : level.rank ≤ loose.rank
  · -- in brackets it is an atom, which is tighter than any operator
    rw [if_pos hle] at hlevels ⊢
    have h := h.bracketed.mono hlevels
    refine ⟨h.toHandy, h.derives.part (by simp) ?_⟩
    cases loose <;> first | exact absurd rfl hloose | decide
  · rw [if_neg hle] at hlevels ⊢
    have h := h.mono hlevels
    refine ⟨h.toHandy, h.derives.part (h.head ?_) (Nat.lt_of_not_le hle)⟩
    rintro rfl
    exact hle (by cases loose <;> decide)

/-! ## Operators -/

/-- An operator with its operands, in brackets where their levels ask for it. -/
theorem binary (hmarks : lang.format.HasPlainMarks) (op : BinaryOp)
    {leftLevel rightLevel : Level} {l r : List Char} {a b : Expr Float}
    (hl : Spells lang (levels + 1) leftLevel l a) (hr : Spells lang (levels' + 1) rightLevel r b) :
    Spells lang (max (levels + if leftLevel.rank < op.level.rank then 1 else 0)
        (levels' + if rightLevel.rank ≤ op.level.rank then 1 else 0) + 1) op.level
      ((if leftLevel.rank < op.level.rank then '(' :: l ++ [')'] else l) ++ op.symbol.toList ++
        (if rightLevel.rank ≤ op.level.rank then '(' :: r ++ [')'] else r)) (.binary op a b) := by
  have hlevel : op.level ≠ .atom := by cases op <;> decide
  have hsymbol : Handy lang op.symbol.toList :=
    handy_of_operator hmarks (by cases op <;> decide) (by cases op <;> decide)
  have hleft : Spells lang _ op.level _ a := hl.left
  have hleft := hleft.mono (show _ ≤ max (levels + if leftLevel.rank < op.level.rank then 1 else 0)
    (levels' + if rightLevel.rank ≤ op.level.rank then 1 else 0) + 1 by omega)
  obtain ⟨hhandy, hpart⟩ := hr.part hlevel
    (show _ ≤ max (levels + if leftLevel.rank < op.level.rank then 1 else 0)
      (levels' + if rightLevel.rank ≤ op.level.rank then 1 else 0) + 1 by omega)
  refine ⟨(hleft.toHandy.append hsymbol).append hhandy, hleft.derives.join op hpart, ?_⟩
  intro hlogic
  rw [List.append_assoc, List.head?_append_of_ne_nil _ hleft.ne_nil]
  exact hleft.head hlogic

/-- A minus sign with its operand, in brackets where its level asks for it. -/
theorem neg (hmarks : lang.format.HasPlainMarks) (h : Spells lang (levels + 1) level s t) :
    Spells lang (levels + (if level.rank ≤ Level.sum.rank then 1 else 0) + 1) .sum
      ('-' :: (if level.rank ≤ Level.sum.rank then '(' :: s ++ [')'] else s)) (.unary .neg t) := by
  obtain ⟨hhandy, hpart⟩ := h.part (show Level.sum ≠ .atom by decide)
    (show _ ≤ levels + (if level.rank ≤ Level.sum.rank then 1 else 0) + 1 by omega)
  have hsign : Handy lang ['-'] := handy_of_operator hmarks (by decide) (by decide)
  exact ⟨hsign.append hhandy, .minus rfl hpart, by simp⟩

/-- A `!` with its operand, in brackets where its level asks for it. -/
theorem not (hmarks : lang.format.HasPlainMarks) (h : Spells lang (levels + 1) level s t) :
    Spells lang (levels + (if level.rank ≤ Level.logic.rank then 1 else 0) + 1) .logic
      ('!' :: (if level.rank ≤ Level.logic.rank then '(' :: s ++ [')'] else s)) (.unary .not t) := by
  obtain ⟨hhandy, hpart⟩ := h.part (show Level.logic ≠ .atom by decide)
    (show _ ≤ levels + (if level.rank ≤ Level.logic.rank then 1 else 0) + 1 by omega)
  have hbang : Handy lang ['!'] := handy_of_operator hmarks (by decide) (by decide)
  exact ⟨hbang.append hhandy, Joined.part (Negated.not hpart), by simp⟩

end Spells

/-! ## Names in front of brackets -/

/-- What a text with a name and a bracket begins with does not depend on what is in the brackets. -/
theorem prefix_call {p : List Char} {rest : List Char} (hp : '(' ∉ p.dropLast) :
    p <+: s ++ '(' :: rest ↔ p <+: s ++ ['('] := by
  have hcall : s ++ ['('] <+: s ++ '(' :: rest := ⟨rest, by simp⟩
  refine ⟨fun h => ?_, fun h => h.trans hcall⟩
  rcases List.prefix_or_prefix_of_prefix h hcall with hshort | ⟨u, rfl⟩
  · exact hshort
  -- a longer one would hold the bracket, and not as its last character
  · rcases List.eq_nil_or_concat u with rfl | ⟨u, c, rfl⟩
    · simp
    · simp [← List.append_assoc] at hp

/-- No name of a function contains a bracket. -/
theorem function_name_no_bracket (f : UnaryOp) : '(' ∉ f.name.toList.dropLast := by
  cases f <;> decide

/-- No name of a builtin function contains a bracket. -/
theorem builtin_name_no_bracket {f : Builtin} (hf : f ∈ Builtin.all) :
    '(' ∉ (f.name.toList ++ ['(']).dropLast := by
  revert f
  decide

/-- A name contains no bracket. -/
theorem not_bracket_of_isName (h : Syntax.isName s = true) : '(' ∉ s := by
  simp only [Syntax.isName, Bool.and_eq_true] at h
  exact fun hmem => absurd (List.all_eq_true.1 h.2 _ hmem) (by decide)

section Call

variable {name rest rest' : List Char}

/-- Whether a call begins with the name of a function does not depend on its arguments. -/
theorem noFunction_call (h : NoFunction (name ++ '(' :: rest)) :
    NoFunction (name ++ '(' :: rest') := by
  intro f hf hstarts
  have hname := function_name_no_bracket f
  exact h f hf ((prefix_call hname).2 ((prefix_call hname).1 hstarts))

/-- Whether a call begins with the name of a builtin function does not depend on its arguments. -/
theorem noBuiltin_call (h : NoBuiltin (name ++ '(' :: rest)) :
    NoBuiltin (name ++ '(' :: rest') := by
  intro f hf hstarts
  have hname := builtin_name_no_bracket hf
  exact h f hf ((prefix_call hname).2 ((prefix_call hname).1 hstarts))

/-- Which registered function a call begins with does not depend on its arguments. -/
theorem lookup?_call
    (hnames : ∀ d ∈ lang.registry.definitions, Syntax.isName d.name.toList = true) :
    lang.registry.lookup? (name ++ '(' :: rest) = lang.registry.lookup? (name ++ '(' :: rest') := by
  refine List.find?_congr fun d hd => ?_
  have hname : '(' ∉ d.name.toList.dropLast := fun hmem =>
    not_bracket_of_isName (hnames d hd) ((List.dropLast_sublist _).subset hmem)
  rw [Bool.eq_iff_iff, List.isPrefixOf_iff_prefix, List.isPrefixOf_iff_prefix]
  exact (prefix_call hname).trans (prefix_call hname).symm

end Call

/-- The longest name in front of a bracket is the whole name. -/
theorem longestName_call {f : UnaryOp} (hf : f ≠ .not) (rest : List Char) :
    LongestName f (f.name.toList ++ '(' :: rest) := by
  refine ⟨hf, List.prefix_append _ _, fun g hg hstarts => ?_⟩
  have hstarts := (prefix_call (function_name_no_bracket g)).1 hstarts
  have hshorter : ∀ f ∈ UnaryOp.all, ∀ g ∈ UnaryOp.all, g.name.toList <+: f.name.toList ++ ['('] →
      g.name.length ≤ f.name.length := by decide
  exact hshorter f (UnaryOp.mem_all f) g (UnaryOp.mem_all g) hstarts

/-- A call of the only function that there is. -/
theorem AtomOver.apply_only {d : Definition (Expr Float)} (hregistry : lang.registry = ⟨[d]⟩)
    (hname : d.name = "f") (harity : d.arity = 1) (hs : Clear lang.format.argument s)
    (ht : Logic A s t) : AtomOver lang A ("f(".toList ++ s ++ [')']) (.apply d [t]) := by
  have htext : argumentList lang d.name [s] = "f(".toList ++ s ++ [')'] := by
    simp [argumentList, hname]
  have hfound : lang.registry.lookup? ("f(".toList ++ s ++ [')']) = some d := by
    rw [hregistry]
    exact List.find?_cons_of_pos (by rw [hname]; rfl)
  have hbare : Bare ("f(".toList ++ s ++ [')']) :=
    .outside (by decide) (by decide) (hs.balanced.bracketed .round)
  have hseparated : Separated lang [s] := fun u hu => List.mem_singleton.1 hu ▸ hs
  rw [← htext] at hfound hbare ⊢
  refine .apply d ?_ ?_ ?_ hfound hbare hseparated (.cons ht .nil) harity.symm
  · exact htext ▸ not_wrapped_of_head (by decide)
  · exact htext ▸ @noFunction_call ['f'] [] _ (by decide)
  · exact htext ▸ @noBuiltin_call ['f'] [] _ (by decide)

/-! ## Atoms -/

/-- A lowercase word is not empty. -/
theorem exists_cons_of_isName (h : Syntax.isName s = true) :
    ∃ c rest, s = c :: rest ∧ Syntax.isLowercase c = true := by
  simp only [Syntax.isName, Bool.and_eq_true, Bool.not_eq_true', List.isEmpty_eq_false_iff] at h
  obtain ⟨c, rest, rfl⟩ := List.exists_cons_of_ne_nil h.1
  exact ⟨c, rest, rfl, List.all_eq_true.1 h.2 c (by simp)⟩

/-- A text begins with what its beginning begins with. -/
theorem head?_of_starts {p rest : List Char} {c : Char} (hne : p ≠ []) (h : p <+: c :: rest) :
    p.head? = some c := by
  obtain ⟨d, p, rfl⟩ := List.exists_cons_of_ne_nil hne
  rw [List.cons_prefix_cons] at h
  rw [h.1]
  rfl

/-- A text that begins with a digit begins with no name. -/
theorem unprefixed_of_digit
    (hnames : ∀ d ∈ lang.registry.definitions, Syntax.isName d.name.toList = true) {c : Char}
    (hc : c ∈ digitCharacters) (rest : List Char) : Unprefixed lang (c :: rest) := by
  have hbracket : ∀ c ∈ digitCharacters, Bracket.isBracket c = false := by decide
  have hfunction : ∀ f ∈ UnaryOp.all, f ≠ .not → ∀ c ∈ digitCharacters,
      f.name.toList ≠ [] ∧ f.name.toList.head? ≠ some c := by decide
  have hbuiltin : ∀ f ∈ Builtin.all, ∀ c ∈ digitCharacters,
      (f.name.toList ++ ['(']).head? ≠ some c := by decide
  refine ⟨not_wrapped_of_head (hbracket c hc), fun f hf hstarts => ?_, fun f hf hstarts => ?_, ?_⟩
  · obtain ⟨hne, hhead⟩ := hfunction f (UnaryOp.mem_all f) hf c hc
    exact hhead (head?_of_starts hne hstarts)
  · exact hbuiltin f hf c hc (head?_of_starts (by simp) hstarts)
  · refine List.find?_eq_none.2 fun d hd hstarts => ?_
    obtain ⟨e, name, hname, hlow⟩ := exists_cons_of_isName (hnames d hd)
    rw [hname, List.isPrefixOf_iff_prefix, List.cons_prefix_cons] at hstarts
    obtain ⟨rfl, -⟩ := hstarts
    -- registered names are lowercase words
    have hdigit : ∀ c ∈ digitCharacters, Syntax.isLowercase c = false := by decide
    simp [hdigit e hc] at hlow

/-- The digits of a number are neither in brackets nor the name of a function. -/
theorem bare_of_isDigitText (hmarks : lang.format.HasPlainMarks)
    (hs : IsDigitText lang.format.decimal s) : Bare s := by
  have hdigit : ∀ c ∈ digitCharacters, c ∉ operatorCharacters ∧ Bracket.isBracket c = false := by
    decide
  refine Closes.of_forall fun c hc => ?_
  rcases hs.chars c hc with hc | rfl
  · exact ⟨(hdigit c hc).2,
      fun hm => (hdigit c hc).1 (Level.mem_operatorCharacters_of_mem_before hm)⟩
  · exact ⟨hmarks.decimal.not_bracket,
      fun hm => hmarks.decimal.not_operator (Level.mem_operatorCharacters_of_mem_before hm)⟩

section Literals

variable (hmarks : lang.format.HasPlainMarks)
  (hnames : ∀ d ∈ lang.registry.definitions, Syntax.isName d.name.toList = true)
  (hs : IsDigitText lang.format.decimal s) {x : Float} (hx : lang.format.read s = .ok x)

include hmarks hnames hs hx

/-- Digits spell a real number. -/
theorem Spells.number : Spells lang (levels + 1) .atom s (.const (.real x)) := by
  have hbare := bare_of_isDigitText hmarks hs
  have hhandy := handy_of_isDigitText hmarks hs
  obtain ⟨c, rest, hc, rfl⟩ := hs.begins
  refine .of_atom hhandy (AtomOver.number (unprefixed_of_digit hnames hc rest) hbare hx) ?_
  rintro ⟨⟩
  exact absurd hc (by decide)

/-- Digits in front of an `i` spell an imaginary number. -/
theorem Spells.imaginary :
    Spells lang (levels + 1) .atom (s ++ ['i']) (.const (.complex ⟨0.0, x⟩)) := by
  have hbare := bare_of_isDigitText hmarks hs
  have hhandy := (handy_of_isDigitText hmarks hs).append
    (handy_of_isName hmarks (s := ['i']) (by decide))
  obtain ⟨c, rest, hc, rfl⟩ := hs.begins
  refine .of_atom hhandy (AtomOver.imaginary (unprefixed_of_digit hnames hc _) hbare hx) ?_
  rintro ⟨⟩
  exact absurd hc (by decide)

end Literals

/-- An atom that begins with a lowercase word. -/
theorem Spells.of_isName {rest : List Char} (hname : Syntax.isName s = true)
    (hs : Handy lang (s ++ rest)) (h : AtomWithin lang levels (s ++ rest) t) :
    Spells lang levels .atom (s ++ rest) t := by
  obtain ⟨c, s, rfl, hc⟩ := exists_cons_of_isName hname
  refine .of_atom hs h ?_
  rintro ⟨⟩
  exact absurd hc (by decide)

/-- A word that is read as a constant or a variable. -/
theorem Spells.word (hmarks : lang.format.HasPlainMarks) (hname : Syntax.isName s = true)
    (h : AtomWithin lang levels s t) : Spells lang levels .atom s t := by
  have := handy_of_isName hmarks hname
  rw [← List.append_nil s] at h this ⊢
  exact .of_isName hname this h

/-! ## Calls -/

/-- A name in front of brackets. -/
theorem handy_call {name : List Char} (hname : Handy lang name) (hs : Balanced s)
    (hblank : ∀ c ∈ s, isBlank c = false) : Handy lang (name ++ '(' :: s ++ [')']) := by
  rw [List.append_assoc]
  exact hname.append (.bracketed hs hblank)

/-- The name of a function in front of its bracketed argument. -/
theorem Spells.function (hmarks : lang.format.HasPlainMarks) {f : UnaryOp} (hf : f ≠ .not)
    (h : Spells lang levels level s t) :
    Spells lang (levels + 2) .atom (f.name.toList ++ '(' :: s ++ [')']) (.unary f t) := by
  have hhandy := handy_call (handy_function_name hmarks hf) h.separated.balanced h.no_blank
  have hname := longestName_call hf (s ++ [')'])
  refine .of_atom hhandy ?_ ?_
  · rw [List.append_assoc]
    exact AtomOver.function f hname (.part (by simp) h.bracketed.derives)
  · have hhead : ∀ f ∈ UnaryOp.all, f ≠ .not → f.name.toList.head? ≠ some '!' := by decide
    rw [List.append_assoc, List.head?_append_of_ne_nil _ (handy_function_name hmarks hf).ne_nil]
    exact hhead f (UnaryOp.mem_all f) hf

section ArgumentLists

variable {texts : List (List Char)} {args : List (Expr Float)}
  (hmarks : lang.format.HasPlainMarks) (hhandy : ∀ u ∈ texts, Handy lang u)

include hmarks hhandy

/-- Arguments are joined without blanks. -/
theorem no_blank_intercalate :
    ∀ c ∈ lang.format.argument.intercalate texts, isBlank c = false := by
  obtain ⟨m, hm, hplain⟩ := hmarks.argument
  induction texts with
  | nil => simp
  | cons u texts ih =>
    have hu := (hhandy u (by simp)).no_blank
    by_cases htexts : texts = []
    · simpa [htexts] using hu
    · rw [List.intercalate_cons_of_ne_nil htexts, hm]
      intro c hc
      rcases List.mem_append.1 hc with hc | hc
      · rcases List.mem_append.1 hc with hc | hc
        · exact hu c hc
        · rw [List.mem_singleton.1 hc]
          exact hplain.not_blank
      · exact ih (fun u hu => hhandy u (by simp [hu])) c (hm ▸ hc)

/-- A name with its arguments can be put anywhere. -/
theorem handy_argumentList {name : String} (hname : Syntax.isName name.toList = true) :
    Handy lang (argumentList lang name texts) := by
  have hseparated : Separated lang texts := fun u hu => (hhandy u hu).separated
  exact handy_call (handy_of_isName hmarks hname) (hseparated.balanced hmarks.argument)
    (no_blank_intercalate hmarks hhandy)

/-- A call of a builtin function spells that call. -/
theorem Spells.builtin {f : Builtin} (hf : f ∈ Builtin.all)
    (hargs : List.Forall₂ (Logic (AtomWithin lang levels)) texts args)
    (harity : f.minArgs ≤ args.length ∧ args.length ≤ f.maxArgs)
    (hloop : f.isSeries = true → ∃ k rest, args = .var k :: rest) :
    Spells lang (levels + 1) .atom (argumentList lang f.name texts) (.builtin f args) := by
  have hnames : ∀ f ∈ Builtin.all, Syntax.isName f.name.toList = true := by decide
  have hseparated : Separated lang texts := fun u hu => (hhandy u hu).separated
  have hlist := handy_argumentList hmarks hhandy (hnames f hf)
  have hatom : AtomWithin lang (levels + 1) (argumentList lang f.name texts) (.builtin f args) :=
    AtomOver.builtin f hf hseparated hargs harity hloop
  rw [argumentList, List.append_assoc] at hlist hatom ⊢
  exact .of_isName (hnames f hf) hlist hatom

/-- A call of a registered function spells that call. -/
theorem Spells.apply {d : Definition (Expr Float)} (hname : Syntax.isName d.name.toList = true)
    (hfunction : NoFunction (argumentList lang d.name texts))
    (hbuiltin : NoBuiltin (argumentList lang d.name texts))
    (hd : lang.registry.lookup? (argumentList lang d.name texts) = some d)
    (hargs : List.Forall₂ (Logic (AtomWithin lang levels)) texts args)
    (harity : args.length = d.arity) :
    Spells lang (levels + 1) .atom (argumentList lang d.name texts) (.apply d args) := by
  have hseparated : Separated lang texts := fun u hu => (hhandy u hu).separated
  have hlist := handy_argumentList hmarks hhandy hname
  have hwrapped : ¬ Wrapped (argumentList lang d.name texts) := by
    obtain ⟨c, rest, hcons, hc⟩ := exists_cons_of_isName hname
    rw [argumentList, hcons]
    exact not_wrapped_of_head (Syntax.not_isBracket_of_isLowercase hc)
  have hbare : Bare (argumentList lang d.name texts) := by
    rw [argumentList_eq]
    exact (isToken_of_isName hname).clear.append
      ((hseparated.balanced hmarks.argument).bracketed .round)
  have hatom : AtomWithin lang (levels + 1) (argumentList lang d.name texts) (.apply d args) :=
    AtomOver.apply d hwrapped hfunction hbuiltin hd hbare hseparated hargs harity
  rw [argumentList, List.append_assoc] at hlist hatom ⊢
  exact .of_isName hname hlist hatom

end ArgumentLists

end Grammar

end Formulary
