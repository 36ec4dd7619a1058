import Formulary.Proofs.Syntax.Derivation

/-!
# Levels of nesting

The parser counts how deeply brackets, functions and argument lists are nested. `AtomOver` is one
such level: an atom around formulas that are made of atoms of another kind. The atoms of the grammar
are the atoms over themselves (`atom_iff`), and `AtomWithin lang levels` are those that a limit of
nesting leaves: with no level there are none, and each level is one over the levels that are left.

Every atom is one within as many levels as its text has characters (`Atom.within`), and more levels
do no harm (`AtomWithin.mono`).
-/

namespace Formulary

open Split

namespace Grammar

variable {lang : Language} {level : Level} {A B Part : List Char → Expr Float → Prop}
  {s : List Char} {t : Expr Float}

/-! ## Other parts -/

/-- The parts of a joined text can be taken for others. They are not longer than the text. -/
theorem Joined.imp {P Q : List Char → Expr Float → Prop} (h : Joined level P s t)
    (hpart : ∀ u v, u.length ≤ s.length → P u v → Q u v) : Joined level Q s t := by
  induction h with
  | part h => exact .part (hpart _ _ (Nat.le_refl _) h)
  | minus hlevel h => exact .minus hlevel (hpart _ _ (by simp) h)
  | join op hop hl hr ih =>
    exact .join op hop (ih fun u v hu => hpart u v (by simp; omega)) (hpart _ _ (by simp; omega) hr)

theorem Negated.imp {P Q : List Char → Expr Float → Prop} (h : Negated P s t)
    (hpart : ∀ u v, u.length ≤ s.length → P u v → Q u v) : Negated Q s t := by
  induction h with
  | part hbang h => exact .part hbang (hpart _ _ (Nat.le_refl _) h)
  | not _ ih => exact .not (ih fun u v hu => hpart u v (by simp; omega))

/-- The atoms of a formula can be taken for others. -/
theorem Logic.imp (h : Logic A s t) (hA : ∀ u v, u.length ≤ s.length → A u v → B u v) :
    Logic B s t :=
  Joined.imp h fun _ _ ho h => Negated.imp h fun _ _ hs h => Joined.imp h fun _ _ hp h =>
    Joined.imp h fun _ _ hw h => Joined.imp h fun u v hu h => hA u v (by omega) h

/-- A formula holds an atom. -/
theorem Logic.exists_atom (h : Logic A s t) : ∃ u v, A u v := by
  have hjoined : ∀ {level P s t}, Joined level P s t → ∃ u v, P u v := by
    intro level P s t h
    cases h with
    | part h => exact ⟨_, _, h⟩
    | minus _ h => exact ⟨_, _, h⟩
    | join _ _ _ h => exact ⟨_, _, h⟩
  obtain ⟨u, v, hoperand⟩ := hjoined h
  clear h
  induction hoperand with
  | part _ h =>
    obtain ⟨u, v, h⟩ := hjoined h
    obtain ⟨u, v, h⟩ := hjoined h
    exact hjoined h
  | not _ ih => exact ih

/-! ## One level -/

/-- The texts of atoms around formulas that are made of atoms `A`, with their trees. -/
inductive AtomOver (lang : Language) (A : List Char → Expr Float → Prop) :
    List Char → Expr Float → Prop where
  | wrapped {s : List Char} {t : Expr Float} (b : Bracket) (h : Logic A s t) :
      AtomOver lang A (b.opening :: s ++ [b.closing]) t
  | function {s : List Char} {t : Expr Float} (f : UnaryOp)
      (hname : LongestName f (f.name.toList ++ s)) (h : Negated A s t) :
      AtomOver lang A (f.name.toList ++ s) (.unary f t)
  | builtin {texts : List (List Char)} {args : List (Expr Float)} (f : Builtin)
      (hf : f ∈ Builtin.all) (hseparated : Separated lang texts)
      (hargs : List.Forall₂ (Logic A) texts args)
      (harity : f.minArgs ≤ args.length ∧ args.length ≤ f.maxArgs)
      (hloop : f.isSeries = true → ∃ k rest, args = .var k :: rest) :
      AtomOver lang A (argumentList lang f.name texts) (.builtin f args)
  | apply {texts : List (List Char)} {args : List (Expr Float)} (d : Definition (Expr Float))
      (hwrapped : ¬ Wrapped (argumentList lang d.name texts))
      (hfunction : NoFunction (argumentList lang d.name texts))
      (hbuiltin : NoBuiltin (argumentList lang d.name texts))
      (hd : lang.registry.lookup? (argumentList lang d.name texts) = some d)
      (hbare : Bare (argumentList lang d.name texts)) (hseparated : Separated lang texts)
      (hargs : List.Forall₂ (Logic A) texts args) (harity : args.length = d.arity) :
      AtomOver lang A (argumentList lang d.name texts) (.apply d args)
  | constant {s : List Char} {v : Value Float} (hs : Unprefixed lang s)
      (hv : Syntax.constant? s = some v) : AtomOver lang A s (.const v)
  | variable {s : List Char} (hs : Unprefixed lang s) (hconstant : Syntax.constant? s = none)
      (hname : Syntax.isName s = true) : AtomOver lang A s (.var (String.ofList s))
  | number {s : List Char} {x : Float} (hs : Unprefixed lang s)
      (hbare : Bare s) (hx : lang.format.read s = .ok x) :
      AtomOver lang A s (.const (.real x))
  | imaginary {s : List Char} {x : Float} (hs : Unprefixed lang (s ++ ['i']))
      (hbare : Bare s) (hx : lang.format.read s = .ok x) :
      AtomOver lang A (s ++ ['i']) (.const (.complex ⟨0.0, x⟩))

/-- An argument is shorter than the call. -/
theorem length_lt_argumentList (name : String) {texts : List (List Char)} {u : List Char}
    (hu : u ∈ texts) : u.length < (argumentList lang name texts).length := by
  have hinner : u.length ≤ (lang.format.argument.intercalate texts).length := by
    induction texts with
    | nil => simp at hu
    | cons w texts ih =>
      by_cases htexts : texts = []
      · obtain rfl : u = w := by simpa [htexts] using hu
        simp [htexts]
      · rw [List.intercalate_cons_of_ne_nil htexts, List.length_append, List.length_append]
        rcases List.mem_cons.1 hu with rfl | hu
        · omega
        · have := ih hu
          omega
  rw [argumentList, List.length_append, List.length_append, List.length_cons]
  omega

/-- The formulas inside an atom are shorter than the atom. -/
theorem AtomOver.imp (h : AtomOver lang A s t)
    (hA : ∀ u v, u.length < s.length → A u v → B u v) : AtomOver lang B s t := by
  have hlogic : ∀ u, u.length < s.length → ∀ v, Logic A u v → Logic B u v :=
    fun u hu v h => h.imp fun u' v' hu' => hA u' v' (Nat.lt_of_le_of_lt hu' hu)
  have hall : ∀ (name : String) (texts : List (List Char)) (args : List (Expr Float)),
      s = argumentList lang name texts → List.Forall₂ (Logic A) texts args →
        List.Forall₂ (Logic B) texts args := by
    rintro name texts args rfl hargs
    have hmem : List.Forall₂ (fun u v => u ∈ texts ∧ Logic A u v) texts args :=
      (List.forall₂_and_left _ _).2 ⟨fun _ hu => hu, hargs⟩
    exact hmem.imp fun u v h => hlogic u (length_lt_argumentList name h.1) v h.2
  cases h with
  | wrapped b h => exact .wrapped b (hlogic _ (Bracket.length_lt_bracketed b _) _ h)
  | function f hname h =>
    have hlength := function_name_length_pos f
    exact .function f hname (h.imp fun u v hu => hA u v (by rw [List.length_append]; omega))
  | builtin f hf hseparated hargs harity hloop =>
    exact .builtin f hf hseparated (hall _ _ _ rfl hargs) harity hloop
  | apply d hwrapped hfunction hbuiltin hd hbare hseparated hargs harity =>
    exact .apply d hwrapped hfunction hbuiltin hd hbare hseparated (hall _ _ _ rfl hargs) harity
  | constant hs hv => exact .constant hs hv
  | «variable» hs hconstant hname => exact .variable hs hconstant hname
  | number hs hbare hx => exact .number hs hbare hx
  | imaginary hs hbare hx => exact .imaginary hs hbare hx

/-- The atoms of the grammar are atoms over themselves. -/
theorem atom_iff : Atom lang s t ↔ AtomOver lang (Atom lang) s t := by
  have hlogic : ∀ texts args, List.Forall₂ (Formula lang) texts args ↔
      List.Forall₂ (Logic (Atom lang)) texts args :=
    fun texts args => ⟨.imp fun _ _ => formula_iff.1, .imp fun _ _ => formula_iff.2⟩
  constructor
  · intro h
    cases h with
    | wrapped b h => exact .wrapped b (formula_iff.1 h)
    | function f hname h => exact .function f hname h
    | builtin f hf hseparated hargs harity hloop =>
      exact .builtin f hf hseparated ((hlogic _ _).1 hargs) harity hloop
    | apply d hwrapped hfunction hbuiltin hd hbare hseparated hargs harity =>
      exact .apply d hwrapped hfunction hbuiltin hd hbare hseparated ((hlogic _ _).1 hargs) harity
    | constant hs hv => exact .constant hs hv
    | «variable» hs hconstant hname => exact .variable hs hconstant hname
    | number hs hbare hx => exact .number hs hbare hx
    | imaginary hs hbare hx => exact .imaginary hs hbare hx
  · intro h
    cases h with
    | wrapped b h => exact .wrapped b (formula_iff.2 h)
    | function f hname h => exact .function f hname h
    | builtin f hf hseparated hargs harity hloop =>
      exact .builtin f hf hseparated ((hlogic _ _).2 hargs) harity hloop
    | apply d hwrapped hfunction hbuiltin hd hbare hseparated hargs harity =>
      exact .apply d hwrapped hfunction hbuiltin hd hbare hseparated ((hlogic _ _).2 hargs) harity
    | constant hs hv => exact .constant hs hv
    | «variable» hs hconstant hname => exact .variable hs hconstant hname
    | number hs hbare hx => exact .number hs hbare hx
    | imaginary hs hbare hx => exact .imaginary hs hbare hx

/-! ## Several levels -/

/-- The atoms that are left by a limit of nesting. -/
def AtomWithin (lang : Language) : (levels : ℕ) → List Char → Expr Float → Prop
  | 0 => fun _ _ => False
  | levels + 1 => AtomOver lang (AtomWithin lang levels)

variable {levels levels' : ℕ}

/-- With more levels there are more atoms. -/
theorem AtomWithin.mono (h : AtomWithin lang levels s t) (hle : levels ≤ levels') :
    AtomWithin lang levels' s t := by
  induction levels generalizing levels' s t with
  | zero => cases h
  | succ levels ih =>
    cases levels' with
    | zero => omega
    | succ levels' => exact AtomOver.imp h fun u v _ hA => ih hA (Nat.le_of_succ_le_succ hle)

/-- What a limit leaves are atoms. -/
theorem AtomWithin.atom (h : AtomWithin lang levels s t) : Atom lang s t := by
  induction levels generalizing s t with
  | zero => cases h
  | succ levels ih => exact atom_iff.2 (AtomOver.imp h fun u v _ hA => ih hA)

/-- As many levels as the text has characters are enough. -/
theorem Atom.within (h : Atom lang s t) (hlevels : s.length < levels) :
    AtomWithin lang levels s t := by
  induction levels generalizing s t with
  | zero => cases hlevels
  | succ levels ih => exact (atom_iff.1 h).imp fun u v hu hA => ih hA (by omega)

end Grammar

end Formulary
