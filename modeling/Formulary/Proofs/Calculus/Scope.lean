import Formulary.Arithmetic.Elementary
import Formulary.Proofs.Calculus.Rules
import Formulary.Proofs.Expr.FreeVars
import Formulary.Proofs.Expr.Places

/-!
# Derivatives and scope

Derivatives and antiderivatives keep to the scope of a tree. A derivative has no free variables that
the tree does not have; an antiderivative has none but the variable that it is made by. And the
places where an antiderivative puts this variable are not bound there (`Expr.respects_scope`).

Parts are copied and moved into other parts, but never into the term of a series that they did not
stand in. A sum is only gone through if its loop variable is not the variable and its bounds do not
have this variable free, so that what is put into the term refers to the variable outside.

A place is bound for a name (`Expr.isBoundAt`) if it is the loop variable of a series with this
name, or stands in the term of one.
-/

namespace Formulary.Expr

variable {α : Type} {name x : String} {e n : Expr α} {limit : CallLimit} {depth : Nat}

/-! ## Bound places -/

/-- Is the child with this index the loop variable of a series with this name, or the term of one?
-/
def binds (name : String) : Expr α → Nat → Bool
  | builtin .sum (var k :: _), index | builtin .prod (var k :: _), index =>
    k == name && (index == 0 || index == 3)
  | _, _ => false

/-- Is the place bound for this name? -/
def isBoundAt (name : String) : Expr α → List Nat → Bool
  | _, [] => false
  | e, index :: path => e.binds name index || e.children[index]?.any (isBoundAt name · path)

theorem isBoundAt_cons {index : Nat} {path : List Nat} {a : Expr α}
    (h : e.children[index]? = some a) :
    e.isBoundAt name (index :: path) = (e.binds name index || a.isBoundAt name path) := by
  rw [isBoundAt, h, Option.any_some]

/-- Where no node binds a name, no place is bound for it. -/
theorem isBoundAt_of_nodes (h : ∀ n ∈ e.nodes, ∀ index, n.binds name index = false)
    (path : List Nat) : e.isBoundAt name path = false := by
  induction path generalizing e with
  | nil => rfl
  | cons index path ih =>
    rw [isBoundAt, h e (mem_nodes_self e), Bool.false_or, Option.any_eq_false]
    intro a ha
    rw [ih fun n hn => h n (mem_nodes_of_mem_children (List.mem_of_getElem? ha) hn)]

/-- A series binds its loop variable, in the term and in its own place. -/
theorem binds_series {f : Builtin} (hf : f.isSeries = true) (k : String) (rest : List (Expr α))
    (index : Nat) :
    (builtin f (.var k :: rest)).binds name index = (k == name && (index == 0 || index == 3)) := by
  cases f with
  | sum | prod => rfl
  | _ => cases hf

/-! ## Sums -/

section Sum

variable {k : String} {start stop term : Expr α} {rest : List (Expr α)}

/-- What is free in these parts is free in the sum, also if it has too many arguments. -/
theorem mem_freeVars_sum
    (h : name ∈ start.freeVars ∨ name ∈ stop.freeVars ∨ name ∈ term.freeVars ∧ name ≠ k) :
    name ∈ (builtin .sum (.var k :: start :: stop :: term :: rest)).freeVars := by
  cases rest with
  | nil => exact (mem_freeVars_series rfl).2 h
  | cons a rest =>
    rw [freeVars_of_ne (by simp)]
    simp only [freeVarsOfAll, List.mem_append]
    exact .inr (h.imp id (.imp id fun hterm => .inl hterm.1))

end Sum

variable [Scalar α]

theorem not_mem_freeVars_number (n : Nat) : name ∉ (number n : Expr α).freeVars :=
  List.not_mem_nil

/-! ## Derivatives -/

/-- The rule for powers uses the base and the exponent. -/
theorem of_mem_freeVars_powerRule {base exponent : Expr α}
    (h : name ∈ (powerRule base exponent).freeVars) :
    name ∈ base.freeVars ∨ name ∈ exponent.freeVars := by
  have hpredecessor : name ∈ (predecessor exponent).freeVars → name ∈ exponent.freeVars := by
    unfold predecessor
    split
    · exact id
    · intro hname
      exact (mem_freeVars_binary.1 hname).resolve_right (not_mem_freeVars_number 1)
  simp only [powerRule, mem_freeVars_binary] at h
  rcases h with h | h | h
  · exact .inr h
  · exact .inl h
  · exact .inr (hpredecessor h)

theorem of_mem_freeVars_tangentRule {operand : Expr α}
    (h : name ∈ (tangentRule operand).freeVars) : name ∈ operand.freeVars := by
  rw [tangentRule, mem_freeVars_binary, mem_freeVars_unary] at h
  exact h.resolve_right (not_mem_freeVars_number 2)

/-- The free variables of a derivative are free in the tree. -/
theorem Derived.mem_freeVars {ev : Evaluator α} {t t' : Expr α} (h : Derived ev x t t')
    (hname : name ∈ t'.freeVars) : name ∈ t.freeVars := by
  induction h with
  | const | self | var => cases hname
  | sub _ _ ihf ihg =>
    rw [mem_freeVars_binary] at hname ⊢
    exact hname.imp ihf ihg
  | @div f f' g g' _ _ ihf ihg =>
    simp only [quotientRule, mem_freeVars_binary] at hname
    rw [mem_freeVars_binary]
    rcases hname with ((hname | hname) | hname | hname) | hname | hname
    · exact .inl (ihf hname)
    · exact .inr hname
    · exact .inl hname
    · exact .inr (ihg hname)
    · exact .inr hname
    · exact absurd hname (not_mem_freeVars_number 2)
  | pow _ _ ih =>
    rw [mem_freeVars_binary] at hname ⊢
    rcases hname with hname | hname
    · exact of_mem_freeVars_powerRule hname
    · exact .inl (ih hname)
  | powOne =>
    rw [mem_freeVars_binary]
    exact of_mem_freeVars_powerRule hname
  | tan _ ih =>
    rw [mem_freeVars_binary] at hname
    rw [mem_freeVars_unary]
    exact hname.elim ih of_mem_freeVars_tangentRule
  | tanOne =>
    rw [mem_freeVars_unary]
    exact of_mem_freeVars_tangentRule hname
  | sum _ _ _ _ ih =>
    exact mem_freeVars_sum (((mem_freeVars_series rfl).1 hname).imp id (.imp id (.imp_left ih)))

/-! ## Antiderivatives -/

/-- The free variables of an antiderivative are free in the tree, or are the variable. -/
theorem mem_freeVars_of_integrate {t F : Expr α} (h : t.integrate limit x depth = .ok F)
    (hname : name ∈ F.freeVars) : name ∈ t.freeVars ∨ name = x := by
  fun_induction Expr.integrate limit x depth t generalizing F with
  | case1 => cases h
  | case2 depth _ v origin =>
    cases h
    exact .inr (mem_freeVars_var.1 ((mem_freeVars_binary.1 hname).resolve_left List.not_mem_nil))
  | case3 depth _ y =>
    cases h
    split at hname
    · have hsquare := (mem_freeVars_binary.1 hname).resolve_right (not_mem_freeVars_number 2)
      have hvar := (mem_freeVars_binary.1 hsquare).resolve_right (not_mem_freeVars_number 2)
      exact .inr (mem_freeVars_var.1 hvar)
    · exact (mem_freeVars_binary.1 hname).imp id mem_freeVars_var.1
  | case4 depth _ f g ihf ihg =>
    obtain ⟨f', hf', h⟩ := bind_eq_ok.1 h
    obtain ⟨g', hg', h⟩ := bind_eq_ok.1 h
    cases h
    rw [mem_freeVars_binary] at hname ⊢
    rcases hname with hname | hname
    · exact (ihf hf' hname).imp_left .inl
    · exact (ihg hg' hname).imp_left .inr
  | case5 depth _ k start stop term rest ih =>
    obtain ⟨-, -, term', hterm', rfl⟩ := ok_of_summation h
    rcases (mem_freeVars_series rfl).1 hname with hname | hname | ⟨hname, hk⟩
    · exact .inl (mem_freeVars_sum (.inl hname))
    · exact .inl (mem_freeVars_sum (.inr (.inl hname)))
    · exact (ih hterm' hname).imp_left fun hname => mem_freeVars_sum (.inr (.inr ⟨hname, hk⟩))
  | case6 => cases h
  | case7 => cases h

/-- Where an antiderivative has the variable, the tree had it, or the place is not bound for it. -/
theorem isBoundAt_of_integrate {t F : Expr α} (h : t.integrate limit x depth = .ok F)
    {path : List Nat} (hpath : F.nodeAt? path = some (.var x)) :
    t.nodeAt? path = some (.var x) ∨ F.isBoundAt x path = false := by
  fun_induction Expr.integrate limit x depth t generalizing F path with
  | case1 => cases h
  | case2 depth _ v origin =>
    cases h
    refine .inr (isBoundAt_of_nodes ?_ path)
    simp [nodes, binds]
  | case3 depth _ y =>
    cases h
    refine .inr (isBoundAt_of_nodes ?_ path)
    split <;> simp [nodes, binds, number]
  | case4 depth _ f g ihf ihg =>
    obtain ⟨f', hf', h⟩ := bind_eq_ok.1 h
    obtain ⟨g', hg', h⟩ := bind_eq_ok.1 h
    cases h
    rcases path with _ | ⟨_ | _ | index, path⟩
    · cases hpath
    · have hchild : (binary .sub f' g').children[0]? = some f' := rfl
      rw [isBoundAt_cons hchild]
      exact ihf hf' hpath
    · have hchild : (binary .sub f' g').children[1]? = some g' := rfl
      rw [isBoundAt_cons hchild]
      exact ihg hg' hpath
    · cases hpath
  | case5 depth _ k start stop term rest ih =>
    obtain ⟨hk, -, term', hterm', rfl⟩ := ok_of_summation h
    rcases path with _ | ⟨_ | _ | _ | _ | index, path⟩
    · cases hpath
    · exact .inl hpath
    · exact .inl hpath
    · exact .inl hpath
    · have hchild : (builtin .sum [.var k, start, stop, term']).children[3]? = some term' := rfl
      have hfree : (builtin .sum [.var k, start, stop, term']).binds x 3 = false := by
        rw [binds_series rfl, beq_eq_false_iff_ne.2 hk, Bool.false_and]
      rw [isBoundAt_cons hchild, hfree, Bool.false_or]
      exact ih hterm' hpath
    · cases hpath
  | case6 => cases h
  | case7 => cases h

/-- Derivatives and antiderivatives keep to the scope of a tree. A derivative has no free variables
that the tree does not have, whatever draws there are. An antiderivative by `x` has none but `x`,
and `x` is not bound at any place where it stands in the antiderivative and did not stand in the
tree. -/
theorem respects_scope (ev : Evaluator α) (limit : CallLimit) (depth : Nat) (x : String)
    (t : Expr α) :
    ((derive ev x depth t).Yields fun t' => ∀ name ∈ t'.freeVars, name ∈ t.freeVars) ∧
      ∀ F, t.integrate limit x depth = .ok F → (∀ name ∈ F.freeVars, name ∈ t.freeVars ∨ name = x) ∧
        ∀ path, F.nodeAt? path = some (.var x) →
          t.nodeAt? path = some (.var x) ∨ F.isBoundAt x path = false := by
  refine ⟨fun n t' m ht' name hname => ?_, fun F hF => ⟨fun name hname => ?_, fun path hpath => ?_⟩⟩
  · exact (yields_derive ev x depth t n t' m ht').mem_freeVars hname
  · exact mem_freeVars_of_integrate hF hname
  · exact isBoundAt_of_integrate hF hpath

/-- The sum of `x - k` for `k` from one to `y`, with its derivative and its antiderivative. The last
`x` of the antiderivative is in the term of the sum, and not bound there. -/
theorem respects_scope_sum :
    let ev : Evaluator Float := { draw := fun _ => 0.5 }
    let one : Expr Float := number 1
    let t : Expr Float := .builtin .sum [.var "k", one, .var "y", .binary .sub (.var "x") (.var "k")]
    let t' : Expr Float := .builtin .sum [.var "k", one, .var "y", .binary .sub (number 1) (number 0)]
    let square : Expr Float := .binary .div (.binary .pow (.var "x") (number 2)) (number 2)
    let F : Expr Float := .builtin .sum [.var "k", one, .var "y",
      .binary .sub square (.binary .mul (.var "k") (.var "x"))]
    ((derive ev "x" 2 t).run.run 0 = (.ok t', 0) ∧ t.integrate .standard "x" 2 = .ok F ∧
      F.nodeAt? [3, 1, 1] = some (.var "x") ∧ t.nodeAt? [3, 1, 1] ≠ some (.var "x")) ∧
    (∀ name ∈ t'.freeVars, name ∈ t.freeVars) ∧
      (∀ name ∈ F.freeVars, name ∈ t.freeVars ∨ name = "x") ∧
        F.isBoundAt "x" [3, 1, 1] = false := by
  intro ev one t t' square F
  have hderive : (derive ev "x" 2 t).run.run 0 = (.ok t', 0) := rfl
  have hintegrate : t.integrate .standard "x" 2 = .ok F := rfl
  have hplace : F.nodeAt? [3, 1, 1] = some (.var "x") := rfl
  have hnone : t.nodeAt? [3, 1, 1] ≠ some (.var "x") := nofun
  obtain ⟨hfree, hfree'⟩ := respects_scope ev .standard 2 "x" t
  obtain ⟨hfreeF, hbound⟩ := hfree' F hintegrate
  exact ⟨⟨hderive, hintegrate, hplace, hnone⟩, hfree 0 t' 0 hderive, hfreeF,
    (hbound _ hplace).resolve_left hnone⟩

end Formulary.Expr
