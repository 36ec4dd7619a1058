import Formulary.Proofs.Evaluation.Dependence
import Formulary.Proofs.Expr.Nodes
import Formulary.Proofs.Expr.Rules

/-!
# Free variables

The names that folding looks at (`Expr.dependence`) are found from the leaves upward and skip what a
series never evaluates; the free variables are found from the root downward and go by the number of
arguments. Where every call has as many arguments as it takes, both are the same names; elsewhere
the free variables can be more.
-/

namespace Formulary.Expr

variable {α : Type} {name : String}

/-- Calls leave every name of their arguments free, unless they are series with all arguments. -/
theorem freeVars_of_ne {f : Builtin} {args : List (Expr α)}
    (h : ∀ k start stop term, f.isSeries = true → args ≠ [var k, start, stop, term]) :
    (builtin f args).freeVars = freeVarsOfAll args := by
  cases f with
  | sum | prod =>
    rw [freeVars]
    · exact fun k start stop term _ hargs => h k start stop term rfl hargs
    · exact fun k start stop term _ hargs => h k start stop term rfl hargs
  | _ => simp only [freeVars]

/-- All functions but the series leave every name of their arguments free. -/
theorem freeVars_call {f : Builtin} (hf : f.isSeries = false) (args : List (Expr α)) :
    (builtin f args).freeVars = freeVarsOfAll args :=
  freeVars_of_ne fun _ _ _ _ hseries => by simp [hf] at hseries

/-- The loop variable of a series is bound in the term, but not in the bounds. -/
theorem freeVars_series {f : Builtin} (hf : f.isSeries = true) (k : String)
    (start stop term : Expr α) :
    (builtin f [var k, start, stop, term]).freeVars =
      start.freeVars ++ stop.freeVars ++ term.freeVars.filter (· != k) := by
  cases f with
  | sum | prod => simp only [freeVars]
  | _ => cases hf

/-- A series depends on its bounds, and on its term but for the loop variable. -/
theorem names_series {f : Builtin} (hf : f.isSeries = true) (k : String)
    (start stop term : Expr α) (rest : List (Expr α)) :
    (builtin f (var k :: start :: stop :: term :: rest)).dependence.names =
      ((start.dependence.join stop.dependence).join (term.dependence.bind k)).names := by
  cases f with
  | sum | prod => rw [dependence]
  | _ => cases hf

/-- All other calls depend on all of their arguments. -/
theorem names_of_ne {f : Builtin} {args : List (Expr α)}
    (h : ∀ k start stop term rest, f.isSeries = true →
      args ≠ var k :: start :: stop :: term :: rest) :
    (builtin f args).dependence.names = (dependenceOfAll args).names := by
  cases f with
  | sum | prod =>
    rw [dependence]
    · exact fun k start stop term rest _ hargs => h k start stop term rest rfl hargs
    · exact fun k start stop term rest _ hargs => h k start stop term rest rfl hargs
  | _ => rw [dependence] <;> nofun

theorem mem_freeVarsOfAll {es : List (Expr α)} :
    name ∈ freeVarsOfAll es ↔ ∃ e ∈ es, name ∈ e.freeVars := by
  induction es with
  | nil => simp [freeVarsOfAll]
  | cons e es ih => simp [freeVarsOfAll, ih]

theorem mem_freeVars_var {y : String} : name ∈ (var y : Expr α).freeVars ↔ name = y :=
  List.mem_singleton

theorem mem_freeVars_binary {op : BinaryOp} {l r : Expr α} :
    name ∈ (binary op l r).freeVars ↔ name ∈ l.freeVars ∨ name ∈ r.freeVars := List.mem_append

theorem mem_freeVars_unary {f : UnaryOp} {a : Expr α} :
    name ∈ (unary f a).freeVars ↔ name ∈ a.freeVars := Iff.rfl

theorem mem_freeVars_series {f : Builtin} (hf : f.isSeries = true) {k : String}
    {start stop term : Expr α} :
    name ∈ (builtin f [var k, start, stop, term]).freeVars ↔
      name ∈ start.freeVars ∨ name ∈ stop.freeVars ∨ name ∈ term.freeVars ∧ name ≠ k := by
  rw [freeVars_series hf, List.mem_append, List.mem_append, List.mem_filter, bne_iff_ne, or_assoc]

theorem mem_dependenceOfAll {es : List (Expr α)} :
    name ∈ (dependenceOfAll es).names ↔ ∃ e ∈ es, name ∈ e.dependence.names := by
  induction es with
  | nil => simp [dependenceOfAll, Dependence.none]
  | cons e es ih => simp [dependenceOfAll, ih]

/-- A tree depends on nothing but its free variables. -/
theorem mem_freeVars_of_mem_dependence (e : Expr α) (h : name ∈ e.dependence.names) :
    name ∈ e.freeVars := by
  induction e using induction_children with
  | step e ih =>
    have hall : ∀ args : List (Expr α), (∀ a ∈ args, a ∈ e.children) →
        name ∈ (dependenceOfAll args).names → name ∈ freeVarsOfAll args := by
      intro args hargs hname
      obtain ⟨a, ha, hname⟩ := mem_dependenceOfAll.1 hname
      exact mem_freeVarsOfAll.2 ⟨a, ha, ih a (hargs a ha) hname⟩
    cases e with
    | const v origin => simp [dependence, Dependence.none] at h
    | var x => exact h
    | binary op l r =>
      rw [dependence, Dependence.mem_join] at h
      rw [freeVars, List.mem_append]
      exact h.imp (ih l (by simp [children])) (ih r (by simp [children]))
    | unary f x =>
      rw [dependence] at h
      rw [freeVars]
      exact ih x (by simp [children]) h
    | builtin f args =>
      by_cases hseries : ∃ k start stop term rest, f.isSeries = true ∧
          args = var k :: start :: stop :: term :: rest
      · obtain ⟨k, start, stop, term, rest, hf, rfl⟩ := hseries
        rw [names_series hf, Dependence.mem_join, Dependence.mem_join, Dependence.mem_bind] at h
        have hstart := ih start (by simp [children])
        have hstop := ih stop (by simp [children])
        have hterm := ih term (by simp [children])
        cases rest with
        | nil =>
          rw [freeVars_series hf, List.mem_append, List.mem_append, List.mem_filter, bne_iff_ne]
          exact h.imp (.imp hstart hstop) (.imp_left hterm)
        | cons e rest =>
          rw [freeVars_of_ne (by simp)]
          simp only [freeVarsOfAll, List.mem_append]
          rcases h with (h | h) | ⟨h, -⟩
          · exact .inr (.inl (hstart h))
          · exact .inr (.inr (.inl (hstop h)))
          · exact .inr (.inr (.inr (.inl (hterm h))))
      · have hshape : ∀ k start stop term rest, f.isSeries = true →
            args ≠ var k :: start :: stop :: term :: rest :=
          fun k start stop term rest hf hargs => hseries ⟨k, start, stop, term, rest, hf, hargs⟩
        rw [names_of_ne hshape] at h
        rw [freeVars_of_ne fun k start stop term => hshape k start stop term []]
        exact hall args (fun _ => id) h
    | apply d args =>
      rw [dependence] at h
      rw [freeVars]
      exact hall args (fun _ => id) h

/-- The arguments of a series that follows rules: a loop variable, two bounds and a term. -/
theorem Follows.series_args {rules : Rules α} {f : Builtin} {args : List (Expr α)}
    (h : (Expr.builtin f args).Follows rules) (hf : f.isSeries = true) :
    ∃ k start stop term, args = [Expr.var k, start, stop, term] := by
  cases h with
  | builtin _ harity hloop _ =>
    obtain ⟨k, rest, rfl⟩ := hloop hf
    have hlength : rest.length = 3 := by
      cases f with
      | sum | prod =>
        have hmin : 4 ≤ rest.length + 1 := harity.1
        have hmax : rest.length + 1 ≤ 4 := harity.2
        omega
      | _ => cases hf
    obtain ⟨start, stop, term, rfl⟩ := List.length_eq_three.1 hlength
    exact ⟨k, start, stop, term, rfl⟩

/-- A tree depends on its free variables. -/
theorem Follows.mem_dependence {rules : Rules α} {e : Expr α} (h : e.Follows rules) :
    name ∈ e.dependence.names ↔ name ∈ e.freeVars := by
  have hall : ∀ {args : List (Expr α)},
      (∀ a ∈ args, name ∈ a.dependence.names ↔ name ∈ a.freeVars) →
        (name ∈ (dependenceOfAll args).names ↔ name ∈ freeVarsOfAll args) := by
    intro args hargs
    rw [mem_dependenceOfAll, mem_freeVarsOfAll]
    exact exists_congr fun a => and_congr_right (hargs a)
  induction h with
  | const | var => simp [dependence, freeVars, Dependence.none]
  | binary op _ _ ihl ihr =>
    rw [dependence, freeVars, Dependence.mem_join, List.mem_append]
    exact or_congr ihl ihr
  | unary f _ ih =>
    rw [dependence, freeVars]
    exact ih
  | @builtin f args hf harity hloop hargs ih =>
    by_cases hseries : f.isSeries = true
    · obtain ⟨k, start, stop, term, rfl⟩ :=
        (Follows.builtin hf harity hloop hargs).series_args hseries
      have hstart := ih start (by simp)
      have hstop := ih stop (by simp)
      have hterm := ih term (by simp)
      rw [names_series hseries, freeVars_series hseries]
      simp [hstart, hstop, hterm, or_assoc]
    · have hcall : f.isSeries = false := by simpa using hseries
      rw [names_of_ne fun _ _ _ _ _ hf => absurd hf hseries, freeVars_call hcall, hall ih]
  | apply _ _ _ ih => rw [dependence, freeVars, hall ih]

end Formulary.Expr
