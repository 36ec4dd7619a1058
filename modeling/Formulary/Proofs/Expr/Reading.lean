import Formulary.Proofs.Evaluation.Closure
import Formulary.Proofs.Evaluation.Foldable
import Formulary.Proofs.Expr.FreeVars
import Formulary.Proofs.Number.Nearest

/-!
# Readings

The constants of a formula are binary64 numbers. A reading takes them for numbers of another type,
and a formula for the tree with these numbers in the places of its constants. A complex constant is
read as a single number, as it is one in a field that has the imaginary unit.

Nothing else of a tree changes: it has the same variables, and takes draws in the same places.

Real constants have a reading that is exact (`Binary64.toRat`).
-/

namespace Formulary

namespace Binary64

/-- The rational number that a finite binary64 number is. -/
def toRat (x : Float) : ℚ := if isNegative x then -magnitude x else magnitude x

/-- The value of a number without a sign, by its mantissa and its place. -/
theorem toRat_eq {x : Float} {m : ℕ} {e : ℤ} (hsign : isNegative x = false) (hm : mantissa x = m)
    (he : exponent x = e) : toRat x = m * 2 ^ e := by
  rw [toRat, hsign, if_neg Bool.false_ne_true, magnitude, hm, he]

theorem toRat_one : toRat 1.0 = 1 := by
  have h : toRat 1.0 = (2 ^ 52 : ℕ) * 2 ^ (-52 : ℤ) :=
    toRat_eq (by decide) (by decide) (by decide)
  rw [h]
  norm_num

theorem toRat_two : toRat 2.0 = 2 := by
  have h : toRat 2.0 = (2 ^ 52 : ℕ) * 2 ^ (-51 : ℤ) :=
    toRat_eq (by decide) (by decide) (by decide)
  rw [h]
  norm_num

end Binary64

/-- What binary64 numbers stand for among other numbers. -/
structure Reading (β : Type) where
  real : Float → β
  complex : Cartesian Float → β

variable {β : Type} (ρ : Reading β)

/-- The value that a constant stands for. -/
def Reading.value : Value Float → Value β
  | .boolean b => .boolean b
  | .real x => .real (ρ.real x)
  | .complex z => .real (ρ.complex z)

namespace Expr

mutual

/-- The tree with the numbers that its constants stand for, also in the functions that it calls. -/
def read (e : Expr Float) : Expr β :=
  match e with
  | const v origin => const (ρ.value v) origin
  | var name => var name
  | binary op l r => binary op (read l) (read r)
  | unary f x => unary f (read x)
  | builtin f args => builtin f (readAll args)
  | apply d args => apply (readDefinition d) (readAll args)

/-- The same for a list of trees. -/
def readAll (es : List (Expr Float)) : List (Expr β) :=
  match es with
  | [] => []
  | e :: es => read e :: readAll es

/-- The same for the body of a function. -/
def readDefinition (d : Definition (Expr Float)) : Definition (Expr β) :=
  match d with
  | ⟨name, params, body, text⟩ => ⟨name, params, read body, text⟩

end

/-- Trees are read one by one. -/
theorem readAll_eq (es : List (Expr Float)) : readAll ρ es = es.map (read ρ) := by
  induction es with
  | nil => rw [readAll, List.map_nil]
  | cons e es ih => rw [readAll, ih, List.map_cons]

/-- The body of a function is read as a tree. -/
theorem body_readDefinition (d : Definition (Expr Float)) :
    (readDefinition ρ d).body = d.body.read ρ := by
  cases d
  rw [readDefinition]

variable {ρ}

/-- Only a variable is read as one. -/
theorem read_eq_var {e : Expr Float} {name : String} (h : e.read ρ = var name) : e = var name := by
  cases e with
  | var => simpa [read] using h
  | _ => simp [read] at h

/-- A reading leaves the variables free that were free. -/
theorem freeVars_read (e : Expr Float) : (e.read ρ).freeVars = e.freeVars := by
  induction e using induction_children with
  | step e ih =>
    have hall : ∀ args : List (Expr Float), (∀ a ∈ args, a ∈ e.children) →
        freeVarsOfAll (readAll ρ args) = freeVarsOfAll args := by
      intro args hargs
      induction args with
      | nil => rw [readAll, freeVarsOfAll, freeVarsOfAll]
      | cons a args ihargs =>
        obtain ⟨ha, hargs⟩ := List.forall_mem_cons.1 hargs
        rw [readAll, freeVarsOfAll, freeVarsOfAll, ih a ha, ihargs hargs]
    cases e with
    | const | var => rw [read, freeVars, freeVars]
    | binary op l r =>
      rw [read, freeVars, freeVars, ih l (by simp [children]), ih r (by simp [children])]
    | unary f x => rw [read, freeVars, freeVars, ih x (by simp [children])]
    | builtin f args =>
      rw [read]
      by_cases hseries : ∃ k start stop term, f.isSeries = true ∧ args = [var k, start, stop, term]
      · obtain ⟨k, start, stop, term, hf, rfl⟩ := hseries
        simp only [readAll]
        rw [read, freeVars_series hf, freeVars_series hf, ih start (by simp [children]),
          ih stop (by simp [children]), ih term (by simp [children])]
      · rw [freeVars_of_ne fun k start stop term hf hargs => hseries ⟨k, start, stop, term, hf, hargs⟩,
          freeVars_of_ne fun k start stop term hf hargs => hseries ?_]
        · exact hall args fun _ => id
        · -- what is read as the arguments of a series is such a list
          simp only [readAll_eq, List.map_eq_cons_iff, List.map_eq_nil_iff] at hargs
          obtain ⟨_, _, rfl, hvar, start, _, rfl, -, stop, _, rfl, -, term, _, rfl, -, rfl⟩ := hargs
          exact ⟨k, start, stop, term, hf, by rw [read_eq_var hvar]⟩
    | apply d args => 
      rw [read, freeVars, freeVars]
      exact hall args fun _ => id

/-- A reading takes random draws where they were taken. -/
theorem isDeterministic_read (e : Expr Float) :
    (e.read ρ).isDeterministic = e.isDeterministic := by
  induction e using induction_bodies with
  | step e ih ihbody =>
    have hall : ∀ args : List (Expr Float), (∀ a ∈ args, a ∈ e.children) →
        allDeterministic (readAll ρ args) = allDeterministic args := by
      intro args hargs
      induction args with
      | nil => rw [readAll, allDeterministic, allDeterministic]
      | cons a args ihargs =>
        obtain ⟨ha, hargs⟩ := List.forall_mem_cons.1 hargs
        rw [readAll, allDeterministic, allDeterministic, ih a ha, ihargs hargs]
    cases e with
    | const | var => rw [read, isDeterministic, isDeterministic]
    | binary op l r =>
      rw [read, isDeterministic, isDeterministic, ih l (by simp [children]),
        ih r (by simp [children])]
    | unary f x => rw [read, isDeterministic, isDeterministic, ih x (by simp [children])]
    | builtin f args => rw [read, isDeterministic, isDeterministic, hall args fun _ => id]
    | apply d args =>
      rw [read, isDeterministic, isDeterministic, hall args fun _ => id, bodyDeterministic_eq,
        bodyDeterministic_eq, body_readDefinition, ihbody d args rfl]

/-- The constants of a reading are read ones. -/
theorem realIn_read {P : β → Prop} (hreal : ∀ x, P (ρ.real x)) (hcomplex : ∀ z, P (ρ.complex z))
    (e : Expr Float) : (e.read ρ).RealIn P := by
  induction e using induction_bodies with
  | step e ih ihbody =>
    have hall : ∀ args : List (Expr Float), (∀ a ∈ args, a ∈ e.children) →
        ∀ b ∈ readAll ρ args, b.RealIn P := by
      intro args hargs b hb
      rw [readAll_eq, List.mem_map] at hb
      obtain ⟨a, ha, rfl⟩ := hb
      exact ih a (hargs a ha)
    cases e with
    | const v origin =>
      rw [read]
      refine .const ?_ origin
      cases v with
      | boolean b => trivial
      | real x => exact hreal x
      | complex z => exact hcomplex z
    | var name =>
      rw [read]
      exact .var name
    | binary op l r =>
      rw [read]
      exact .binary op (ih l (by simp [children])) (ih r (by simp [children]))
    | unary f x =>
      rw [read]
      exact .unary f (ih x (by simp [children]))
    | builtin f args =>
      rw [read]
      exact .builtin f (hall args fun _ => id)
    | apply d args =>
      rw [read]
      refine .apply ?_ (hall args fun _ => id)
      rw [body_readDefinition]
      exact ihbody d args rfl

end Expr

end Formulary
