import Formulary.Proofs.Number.Unsigned
import Formulary.Proofs.Syntax.Completeness
import Formulary.Value.Display

/-!
# The trees that formulas have

A tree that is read is `Readable`: its constants are truth values, real numbers that are not
negative, and imaginary ones; its variables and calls are such that their names are read as what
they are. A number literal has no sign of its own, because a sign in front of it is an operator.

What is forgotten is the text. So a tree is readable no matter how its formula was bracketed and
spaced, and writing it anew needs no more than this.
-/

namespace Formulary

open Text

namespace Grammar

variable {lang lang' : Language} {level : Level} {Part : List Char → Expr Float → Prop}
  {s : List Char} {t : Expr Float}

/-- A literal without operators outside brackets has no sign. -/
theorem isNegative_of_read {x : Float} (hbare : Bare s) (hx : lang.format.read s = .ok x) :
    Binary64.isNegative x = false := by
  have hread := NumberFormat.read_of_no_sign (f := lang.format)
    (hbare.head?_ne (by decide) (by decide)) (hbare.head?_ne (by decide) (by decide))
  rw [hx] at hread
  rcases hread with ⟨x', hx', hnonnegative⟩ | herror
  · cases hx'
    exact hnonnegative.isNegative_eq_false
  · cases herror

/-! ## Readable trees -/

/-- The trees that formulas of a language have. -/
inductive Readable (lang : Language) : Expr Float → Prop where
  | boolean {b : Bool} (hs : Unprefixed lang (Value.booleanText b).toList) :
      Readable lang (.const (.boolean b))
  | real {x : Float} (hx : Binary64.isNegative x = false) : Readable lang (.const (.real x))
  | imaginary {x : Float} (hx : Binary64.isNegative x = false) :
      Readable lang (.const (.complex ⟨0.0, x⟩))
  | variable {s : List Char} (hs : Unprefixed lang s) (hconstant : Syntax.constant? s = none)
      (hname : Syntax.isName s = true) : Readable lang (.var (String.ofList s))
  | binary {l r : Expr Float} (op : BinaryOp) (hl : Readable lang l) (hr : Readable lang r) :
      Readable lang (.binary op l r)
  | unary {x : Expr Float} (f : UnaryOp) (hx : Readable lang x) : Readable lang (.unary f x)
  | builtin {args : List (Expr Float)} (f : Builtin) (hf : f ∈ Builtin.all)
      (harity : f.minArgs ≤ args.length ∧ args.length ≤ f.maxArgs)
      (hloop : f.isSeries = true → ∃ k rest, args = .var k :: rest)
      (hargs : ∀ a ∈ args, Readable lang a) : Readable lang (.builtin f args)
  | apply {args : List (Expr Float)} {rest : List Char} (d : Definition (Expr Float))
      (hfunction : NoFunction (d.name.toList ++ '(' :: rest))
      (hbuiltin : NoBuiltin (d.name.toList ++ '(' :: rest))
      (hd : lang.registry.lookup? (d.name.toList ++ '(' :: rest) = some d)
      (harity : args.length = d.arity) (hargs : ∀ a ∈ args, Readable lang a) :
      Readable lang (.apply d args)

/-- Only the registered functions matter. -/
theorem Unprefixed.of_registry (h : Unprefixed lang s) (hregistry : lang.registry = lang'.registry) :
    Unprefixed lang' s :=
  ⟨h.not_wrapped, h.no_function, h.no_builtin, hregistry ▸ h.no_registered⟩

theorem Readable.of_registry (h : Readable lang t) (hregistry : lang.registry = lang'.registry) :
    Readable lang' t := by
  have hs : ∀ {s}, Unprefixed lang s → Unprefixed lang' s := fun hs => hs.of_registry hregistry
  induction h with
  | boolean h => exact .boolean (hs h)
  | real hx => exact .real hx
  | imaginary hx => exact .imaginary hx
  | «variable» h hconstant hname => exact .variable (hs h) hconstant hname
  | binary op _ _ ihl ihr => exact .binary op ihl ihr
  | unary f _ ih => exact .unary f ih
  | builtin f hf harity hloop _ ih => exact .builtin f hf harity hloop ih
  | apply d hfunction hbuiltin hd harity _ ih =>
    exact .apply d hfunction hbuiltin (hregistry ▸ hd) harity ih

/-! ## What formulas derive -/

theorem Joined.readable (h : Joined level Part s t)
    (hpart : ∀ u v, u.length ≤ s.length → Part u v → Readable lang v) : Readable lang t := by
  induction h with
  | part h => exact hpart _ _ (Nat.le_refl _) h
  | minus hlevel h => exact .unary .neg (hpart _ _ (by simp) h)
  | join op hop hl hr ih =>
    refine .binary op (ih fun u v hu => hpart u v ?_) (hpart _ _ ?_ hr)
    · simp only [List.length_append]
      omega
    · simp only [List.length_append]
      omega

theorem Negated.readable (h : Negated Part s t)
    (hpart : ∀ u v, u.length ≤ s.length → Part u v → Readable lang v) : Readable lang t := by
  induction h with
  | part _ h => exact hpart _ _ (Nat.le_refl _) h
  | not _ ih =>
    exact .unary .not (ih fun u v hu => hpart u v (Nat.le_trans hu (Nat.le_succ _)))

/-- Operators keep trees readable, from atoms up to formulas. -/
theorem Logic.readable {A : List Char → Expr Float → Prop} (h : Logic A s t)
    (hA : ∀ u v, u.length ≤ s.length → A u v → Readable lang v) : Readable lang t :=
  Joined.readable h fun _ _ hoperand h => Negated.readable h fun _ _ hsum h =>
    Joined.readable h fun _ _ hproduct h => Joined.readable h fun _ _ hpower h =>
      Joined.readable h fun u v hatom h => hA u v (by omega) h

/-- What a named constant stands for can be written again. -/
theorem readable_of_constant? {v : Value Float} (hs : Unprefixed lang s)
    (hv : Syntax.constant? s = some v) : Readable lang (.const v) := by
  unfold Syntax.constant? at hv
  split at hv
  case h_1 => cases hv; exact .real (by decide)
  case h_2 => cases hv; exact .real (by decide)
  case h_3 => cases hv; exact .imaginary (by decide)
  case h_4 htext =>
    cases hv
    obtain rfl : s = "true".toList := by rw [← htext, String.toList_ofList]
    exact .boolean hs
  case h_5 htext =>
    cases hv
    obtain rfl : s = "false".toList := by rw [← htext, String.toList_ofList]
    exact .boolean hs
  case h_6 => cases hv

theorem Atom.readable (h : Atom lang s t) : Readable lang t := by
  induction hn : s.length using Nat.strong_induction_on generalizing s t with
  | _ n ih =>
    subst hn
    have hformula : ∀ u, u.length < s.length → ∀ v, Formula lang u v → Readable lang v :=
      fun u hu v hf => Logic.readable (formula_iff.1 hf) fun u' v' hu' hA =>
        ih u'.length (Nat.lt_of_le_of_lt hu' hu) hA rfl
    cases h with
    | @wrapped s t b h => exact hformula s (Bracket.length_lt_bracketed b s) t h
    | @function s t f hname h =>
      have hlength := function_name_length_pos f
      refine .unary f (hformula s ?_ t (formula_iff.2 (.of_negated h)))
      rw [List.length_append]
      omega
    | @builtin texts args f hf hseparated hargs harity hloop =>
      exact .builtin f hf harity hloop <| forall_mem_of_forall₂ hargs fun u hu =>
        hformula u (length_lt_argumentList _ hu)
    | @apply texts args d hwrapped hfunction hbuiltin hd hbare hseparated hargs harity =>
      rw [argumentList, List.append_assoc, List.cons_append] at hfunction hbuiltin hd
      exact .apply d hfunction hbuiltin hd harity <| forall_mem_of_forall₂ hargs fun u hu =>
        hformula u (length_lt_argumentList _ hu)
    | constant hs hv => exact readable_of_constant? hs hv
    | «variable» hs hconstant hname => exact .variable hs hconstant hname
    | number hs hbare hx => exact .real (isNegative_of_read hbare hx)
    | imaginary hs hbare hx => exact .imaginary (isNegative_of_read hbare hx)

/-- The tree of a formula is readable. -/
theorem Formula.readable (h : Formula lang s t) : Readable lang t :=
  Logic.readable (formula_iff.1 h) fun _ _ _ hA => hA.readable

end Grammar

end Formulary
