import Mathlib.Data.List.Forall2
import Formulary.Proofs.Syntax.Passes

/-!
# The grammar of formulas

The texts that formulas are written as, by derivations instead of passes. A text without blanks
derives a tree as a `Formula`:

* a formula is an operand, or a formula, an operator of logic or comparison and an operand;
* an operand is `!` and an operand, or a sum;
* a sum is a product, `-` and a product, or a sum, `+` or `-` and a product;
* a product is a power, or a product, `*` or `/` and a power;
* a power is an atom, or a power, `^` and an atom.

The four rules with operators are one relation, `Joined`, for the four levels of operators.

## Atoms

The sorts of `Atom` exclude each other: brackets come first, then the names of functions of one
argument, of builtin functions with an argument list and of registered functions, each at the start
of the text; `Unprefixed` is what is left for constants, variables and numbers. A text that begins
like one sort is never read as a later one.

Marks of a number format and names of registered functions may be made of any characters, so an atom
that holds such text has to be clear of the operators of all levels.
-/

namespace Formulary

open Split

namespace Grammar

variable {lang : Language} {level : Level} {A B : List Char → Expr Float → Prop}

/-! ## Operators -/

/-- Parts joined from left to right by the operators of a level. Only sums may begin with a minus
sign, which negates their first part. -/
inductive Joined (level : Level) (Part : List Char → Expr Float → Prop) :
    List Char → Expr Float → Prop where
  | part {s : List Char} {t : Expr Float} (h : Part s t) : Joined level Part s t
  | minus {s : List Char} {t : Expr Float} (hlevel : level = .sum) (h : Part s t) :
      Joined level Part ('-' :: s) (.unary .neg t)
  | join {l r : List Char} {a b : Expr Float} (op : BinaryOp) (hop : op.level = level)
      (hl : Joined level Part l a) (hr : Part r b) :
      Joined level Part (l ++ op.symbol.toList ++ r) (.binary op a b)

/-- A part with any number of `!` in front. The part itself begins with none. -/
inductive Negated (Part : List Char → Expr Float → Prop) : List Char → Expr Float → Prop where
  | part {s : List Char} {t : Expr Float} (hs : s.head? ≠ some '!') (h : Part s t) :
      Negated Part s t
  | not {s : List Char} {t : Expr Float} (h : Negated Part s t) :
      Negated Part ('!' :: s) (.unary .not t)

/-- Atoms joined by powers. -/
abbrev Power (A : List Char → Expr Float → Prop) := Joined .power A

/-- Powers joined by products and quotients. -/
abbrev Product (A : List Char → Expr Float → Prop) := Joined .product (Power A)

/-- Products joined by sums and differences. -/
abbrev Sum (A : List Char → Expr Float → Prop) := Joined .sum (Product A)

/-- Operands of logic and comparison. -/
abbrev Operand (A : List Char → Expr Float → Prop) := Negated (Sum A)

/-- Operands joined by logic and comparison. -/
abbrev Logic (A : List Char → Expr Float → Prop) := Joined .logic (Operand A)

/-! ## Atoms -/

/-- The text is in one pair of brackets. -/
def Wrapped (s : List Char) : Prop :=
  ∃ (b : Bracket) (inner : List Char), Balanced inner ∧ s = b.opening :: inner ++ [b.closing]

/-- The text begins with the name of a function of one argument, and with no longer one. -/
structure LongestName (f : UnaryOp) (s : List Char) : Prop where
  ne_not : f ≠ .not
  starts : f.name.toList <+: s
  longest : ∀ g : UnaryOp, g ≠ .not → g.name.toList <+: s → g.name.length ≤ f.name.length

/-- The text begins with no name of a function of one argument. -/
def NoFunction (s : List Char) : Prop := ∀ f : UnaryOp, f ≠ .not → ¬ f.name.toList <+: s

/-- The text begins with no call of a builtin function. -/
def NoBuiltin (s : List Char) : Prop := ∀ f ∈ Builtin.all, ¬ f.name.toList ++ ['('] <+: s

/-- The text has no operator outside brackets, and its brackets match. -/
abbrev Bare (s : List Char) : Prop := Clear Level.atom.before s

/-- The text begins like nothing that comes before constants, variables and numbers. -/
structure Unprefixed (lang : Language) (s : List Char) : Prop where
  not_wrapped : ¬ Wrapped s
  no_function : NoFunction s
  no_builtin : NoBuiltin s
  no_registered : lang.registry.lookup? s = none

/-- A list of arguments in brackets: the texts between the separators of the format, each without a
separator outside brackets. -/
def argumentList (lang : Language) (name : String) (texts : List (List Char)) : List Char :=
  name.toList ++ '(' :: lang.format.argument.intercalate texts ++ [')']

/-- No argument has a separator outside brackets. -/
def Separated (lang : Language) (texts : List (List Char)) : Prop :=
  ∀ s ∈ texts, Clear lang.format.argument s

mutual

/-- The texts of formulas, with their trees. -/
inductive Formula (lang : Language) : List Char → Expr Float → Prop where
  | mk {s : List Char} {t : Expr Float}
      (h : Joined .logic (Negated (Joined .sum (Joined .product (Joined .power (Atom lang))))) s t) :
      Formula lang s t

/-- The texts of atoms, with their trees. -/
inductive Atom (lang : Language) : List Char → Expr Float → Prop where
  | wrapped {s : List Char} {t : Expr Float} (b : Bracket) (h : Formula lang s t) :
      Atom lang (b.opening :: s ++ [b.closing]) t
  | function {s : List Char} {t : Expr Float} (f : UnaryOp)
      (hname : LongestName f (f.name.toList ++ s)) (h : Negated (Atom lang) s t) :
      Atom lang (f.name.toList ++ s) (.unary f t)
  | builtin {texts : List (List Char)} {args : List (Expr Float)} (f : Builtin)
      (hf : f ∈ Builtin.all) (hseparated : Separated lang texts)
      (hargs : List.Forall₂ (Formula lang) texts args)
      (harity : f.minArgs ≤ args.length ∧ args.length ≤ f.maxArgs)
      (hloop : f.isSeries = true → ∃ k rest, args = .var k :: rest) :
      Atom lang (argumentList lang f.name texts) (.builtin f args)
  | apply {texts : List (List Char)} {args : List (Expr Float)} (d : Definition (Expr Float))
      (hwrapped : ¬ Wrapped (argumentList lang d.name texts))
      (hfunction : NoFunction (argumentList lang d.name texts))
      (hbuiltin : NoBuiltin (argumentList lang d.name texts))
      (hd : lang.registry.lookup? (argumentList lang d.name texts) = some d)
      (hbare : Bare (argumentList lang d.name texts)) (hseparated : Separated lang texts)
      (hargs : List.Forall₂ (Formula lang) texts args) (harity : args.length = d.arity) :
      Atom lang (argumentList lang d.name texts) (.apply d args)
  | constant {s : List Char} {v : Value Float} (hs : Unprefixed lang s)
      (hv : Syntax.constant? s = some v) : Atom lang s (.const v)
  | variable {s : List Char} (hs : Unprefixed lang s) (hconstant : Syntax.constant? s = none)
      (hname : Syntax.isName s = true) : Atom lang s (.var (String.ofList s))
  | number {s : List Char} {x : Float} (hs : Unprefixed lang s)
      (hbare : Bare s) (hx : lang.format.read s = .ok x) :
      Atom lang s (.const (.real x))
  | imaginary {s : List Char} {x : Float} (hs : Unprefixed lang (s ++ ['i']))
      (hbare : Bare s) (hx : lang.format.read s = .ok x) :
      Atom lang (s ++ ['i']) (.const (.complex ⟨0.0, x⟩))

end

theorem formula_iff {s : List Char} {t : Expr Float} :
    Formula lang s t ↔ Logic (Atom lang) s t :=
  ⟨fun ⟨h⟩ => h, .mk⟩

/-- An atom is a formula of one part at every level. -/
theorem Formula.of_atom {s : List Char} {t : Expr Float} (hbang : s.head? ≠ some '!')
    (h : Atom lang s t) : Formula lang s t :=
  .mk (.part (.part hbang (.part (.part (.part h)))))

end Grammar

end Formulary
