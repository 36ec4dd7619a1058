import Formulary.Expr.Basic

/-!
# Nodes

The nodes of a tree are the tree itself and the nodes of its children. What holds of a tree whenever
it holds of the children holds of all trees (`Expr.induction_children`): this is the induction for
facts that do not care what sort of node has the children. Facts that care for the bodies of the
functions that a tree calls have an induction of their own (`Expr.induction_bodies`).
-/

namespace Formulary.Expr

variable {α : Type} {e a n : Expr α}

theorem mem_nodesOfAll {args : List (Expr α)} :
    e ∈ nodesOfAll args ↔ ∃ a ∈ args, e ∈ a.nodes := by
  induction args with
  | nil => simp [nodesOfAll]
  | cons a args ih => simp [nodesOfAll, ih]

theorem nodes_eq (e : Expr α) : e.nodes = e :: nodesOfAll e.children := by
  cases e with
  | const | var | binary | unary => simp [nodes, nodesOfAll, children]
  | builtin | apply => rw [nodes, children]

theorem mem_nodes_self (e : Expr α) : e ∈ e.nodes := by
  rw [nodes_eq]
  exact List.mem_cons_self

theorem mem_nodes_of_mem_children (ha : a ∈ e.children) (hn : n ∈ a.nodes) :
    n ∈ e.nodes := by
  rw [nodes_eq]
  exact List.mem_cons_of_mem _ (mem_nodesOfAll.2 ⟨a, ha, hn⟩)

theorem sizeOf_lt_of_mem_children (ha : a ∈ e.children) : sizeOf a < sizeOf e := by
  cases e with
  | const v origin => cases ha
  | var name => cases ha
  | binary op l r =>
    rw [binary.sizeOf_spec]
    rcases List.mem_cons.1 ha with rfl | ha
    · omega
    · rw [List.mem_singleton.1 ha]
      omega
  | unary f x =>
    rw [List.mem_singleton.1 ha, unary.sizeOf_spec]
    omega
  | builtin f args =>
    have hlt : sizeOf a < sizeOf args := List.sizeOf_lt_of_mem ha
    rw [builtin.sizeOf_spec]
    omega
  | apply d args =>
    have hlt : sizeOf a < sizeOf args := List.sizeOf_lt_of_mem ha
    rw [apply.sizeOf_spec]
    omega

/-- What passes from the children to a tree holds of every tree. -/
@[elab_as_elim]
theorem induction_children {motive : Expr α → Prop}
    (step : ∀ e, (∀ a ∈ e.children, motive a) → motive e) (e : Expr α) : motive e :=
  step e fun a _ => induction_children step a
termination_by sizeOf e
decreasing_by exact sizeOf_lt_of_mem_children ‹_›

theorem sizeOf_body_lt (d : Definition (Expr α)) (args : List (Expr α)) :
    sizeOf d.body < sizeOf (apply d args) := by
  rw [apply.sizeOf_spec, Definition.mk.sizeOf_spec]
  omega

/-- What passes from the children, and from the body of a function to its calls, holds of every
tree. -/
@[elab_as_elim]
theorem induction_bodies {motive : Expr α → Prop}
    (step : ∀ e, (∀ a ∈ e.children, motive a) →
      (∀ d args, e = apply d args → motive d.body) → motive e) (e : Expr α) : motive e :=
  step e (fun a _ => induction_bodies step a) fun d _ _ => induction_bodies step d.body
termination_by sizeOf e
decreasing_by
  · exact sizeOf_lt_of_mem_children ‹_›
  · rename_i h
    rw [h]
    exact sizeOf_body_lt d _

end Formulary.Expr
