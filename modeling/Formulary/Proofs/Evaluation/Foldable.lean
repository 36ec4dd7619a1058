import Formulary.Proofs.Expr.FreeVars
import Formulary.Proofs.Syntax.Completeness
import Formulary.Proofs.Syntax.Rules
import Formulary.Proofs.Syntax.Spelling

/-!
# Foldable trees

What decides about folding is exact, for every node of every formula (`foldability_of_parse`). The
names that are found from the leaves upward are the free variables. The tree is found to be free of
random draws exactly if no call of `rand` can be reached from it, be it in the tree or, to any
depth, in the bodies of the functions that it calls (`Expr.ReachesRand`). Where neither is found,
the node has one outcome, whatever is bound and drawn, and takes no draw.

A body is not a node of the tree that calls it, so calls of `rand` are traced by nodes and bodies in
turn, and by structural recursion on the way back.
-/

namespace Formulary

namespace Expr

variable {α : Type} {e n : Expr α}

/-- A call of `rand` stands in the tree, or it can be reached from the body of a function that is
called there. -/
inductive ReachesRand : Expr α → Prop where
  | call {e : Expr α} {args : List (Expr α)} (h : builtin .rand args ∈ e.nodes) : ReachesRand e
  | body {e : Expr α} {d : Definition (Expr α)} {args : List (Expr α)} (h : apply d args ∈ e.nodes)
      (hbody : ReachesRand d.body) : ReachesRand e

/-- What a child reaches is reached. -/
theorem ReachesRand.of_child {a : Expr α} (ha : a ∈ e.children) (h : ReachesRand a) :
    ReachesRand e := by
  cases h with
  | call h => exact .call (mem_nodes_of_mem_children ha h)
  | body h hbody => exact .body (mem_nodes_of_mem_children ha h) hbody

/-- The body of a function is searched like any tree. -/
theorem bodyDeterministic_eq (d : Definition (Expr α)) :
    bodyDeterministic d = d.body.isDeterministic := by
  cases d
  rw [bodyDeterministic]

mutual

/-- A tree that is not free of random draws reaches a call of `rand`. -/
theorem reachesRand_of_isDeterministic (e : Expr α) (he : e.isDeterministic = false) :
    e.ReachesRand := by
  match e with
  | .const .. | .var _ => cases he
  | .binary op l r =>
    rw [isDeterministic, Bool.and_eq_false_iff] at he
    rcases he with hl | hr
    · exact .of_child (a := l) (by simp [children]) (reachesRand_of_isDeterministic l hl)
    · exact .of_child (a := r) (by simp [children]) (reachesRand_of_isDeterministic r hr)
  | .unary f x =>
    rw [isDeterministic] at he
    exact .of_child (a := x) (by simp [children]) (reachesRand_of_isDeterministic x he)
  | .builtin f args =>
    rw [isDeterministic, Bool.and_eq_false_iff, Bool.not_eq_false'] at he
    rcases he with hf | hargs
    · obtain rfl : f = .rand := by cases f <;> first | rfl | cases hf
      exact .call (mem_nodes_self _)
    · obtain ⟨a, ha, hreaches⟩ := reachesRand_of_allDeterministic args hargs
      exact hreaches.of_child ha
  | .apply d args =>
    rw [isDeterministic, Bool.and_eq_false_iff] at he
    rcases he with hd | hargs
    · exact .body (mem_nodes_self _) (reachesRand_of_bodyDeterministic d hd)
    · obtain ⟨a, ha, hreaches⟩ := reachesRand_of_allDeterministic args hargs
      exact hreaches.of_child ha

/-- Some tree of a list that takes draws reaches a draw. -/
theorem reachesRand_of_allDeterministic (es : List (Expr α)) (hes : allDeterministic es = false) :
    ∃ e ∈ es, e.ReachesRand := by
  match es with
  | [] => cases hes
  | e :: es =>
    rw [allDeterministic, Bool.and_eq_false_iff] at hes
    rcases hes with he | hes
    · exact ⟨e, by simp, reachesRand_of_isDeterministic e he⟩
    · obtain ⟨a, ha, hreaches⟩ := reachesRand_of_allDeterministic es hes
      exact ⟨a, by simp [ha], hreaches⟩

/-- A body that takes draws reaches one. -/
theorem reachesRand_of_bodyDeterministic (d : Definition (Expr α))
    (hd : bodyDeterministic d = false) : d.body.ReachesRand := by
  match d with
  | ⟨name, params, body, _⟩ =>
    rw [bodyDeterministic] at hd
    exact reachesRand_of_isDeterministic body hd

end

mutual

/-- The nodes of a tree without random draws have none. -/
theorem isDeterministic_of_mem_nodes (e : Expr α) (he : e.isDeterministic = true) :
    ∀ n ∈ e.nodes, n.isDeterministic = true := by
  match e with
  | .const .. | .var _ => simpa [nodes] using he
  | .binary op l r =>
    have hparts := he
    rw [isDeterministic, Bool.and_eq_true] at hparts
    rw [nodes]
    refine List.forall_mem_cons.2 ⟨he, List.forall_mem_append.2 ⟨?_, ?_⟩⟩
    · exact isDeterministic_of_mem_nodes l hparts.1
    · exact isDeterministic_of_mem_nodes r hparts.2
  | .unary f x =>
    have hpart := he
    rw [isDeterministic] at hpart
    rw [nodes]
    exact List.forall_mem_cons.2 ⟨he, isDeterministic_of_mem_nodes x hpart⟩
  | .builtin f args =>
    have hparts := he
    rw [isDeterministic, Bool.and_eq_true] at hparts
    rw [nodes]
    exact List.forall_mem_cons.2 ⟨he, isDeterministic_of_mem_nodesOfAll args hparts.2⟩
  | .apply d args =>
    have hparts := he
    rw [isDeterministic, Bool.and_eq_true] at hparts
    rw [nodes]
    exact List.forall_mem_cons.2 ⟨he, isDeterministic_of_mem_nodesOfAll args hparts.2⟩

/-- No node of trees without draws takes one. -/
theorem isDeterministic_of_mem_nodesOfAll (es : List (Expr α))
    (hes : allDeterministic es = true) : ∀ n ∈ nodesOfAll es, n.isDeterministic = true := by
  match es with
  | [] => simp [nodesOfAll]
  | e :: es =>
    rw [allDeterministic, Bool.and_eq_true] at hes
    rw [nodesOfAll]
    exact List.forall_mem_append.2
      ⟨isDeterministic_of_mem_nodes e hes.1, isDeterministic_of_mem_nodesOfAll es hes.2⟩

end

/-- No child of a tree without draws takes one. -/
theorem isDeterministic_of_mem_children {child : Expr α} (he : e.isDeterministic = true)
    (hchild : child ∈ e.children) : child.isDeterministic = true :=
  isDeterministic_of_mem_nodes e he child (mem_nodes_of_mem_children hchild (mem_nodes_self child))

/-- From a tree without random draws, no call of `rand` can be reached. -/
theorem isDeterministic_iff : e.isDeterministic = true ↔ ¬ e.ReachesRand := by
  constructor
  · intro he hreaches
    induction hreaches with
    | call h => cases isDeterministic_of_mem_nodes _ he _ h
    | @body e d args h _ ih =>
      have hcall := isDeterministic_of_mem_nodes e he _ h
      rw [isDeterministic, Bool.and_eq_true, bodyDeterministic_eq] at hcall
      exact ih hcall.1
  · intro hreaches
    by_contra hrandom
    exact hreaches (reachesRand_of_isDeterministic e (by simpa using hrandom))

/-- What decides about folding a tree is exact, and a foldable tree has one outcome. -/
structure ExactlyFoldable [Scalar α] (ev : Evaluator α) (e : Expr α) : Prop where
  names (name : String) : name ∈ e.dependence.names ↔ name ∈ e.freeVars
  deterministic : e.dependence.deterministic = true ↔ ¬ e.ReachesRand
  foldable : e.isFoldable = true ↔
    (∀ name, name ∉ e.dependence.names) ∧ e.dependence.deterministic = true
  outcome (h : e.isFoldable = true) : ∃ r, ∀ (draw : Nat → α) (scope : Scope α) (start : Nat),
    ((ev.withDraw draw).evaluate scope e).outcome start = (r, start)

/-- A tree that follows the rules is found foldable exactly where it is. -/
theorem Follows.exactlyFoldable [Scalar α] {rules : Rules α} (h : e.Follows rules)
    (ev : Evaluator α) : e.ExactlyFoldable ev where
  names _ := h.mem_dependence
  deterministic := by rw [dependence_deterministic, isDeterministic_iff]
  foldable := by
    rw [isFoldable_iff, dependence_deterministic, List.eq_nil_iff_forall_not_mem]
  outcome hfoldable := by
    obtain ⟨r, hr⟩ := ev.evalAt_of_isFoldable hfoldable 2
    refine ⟨r, fun draw scope start => ?_⟩
    rw [Evaluator.evaluate, hr draw scope]
    rfl

end Expr

namespace Language

open Grammar

/-- In every formula, what decides about folding a node is exact, and a foldable node has one
outcome. -/
theorem exactlyFoldable_of_parse (lang : Language) (text : String) (t : Expr Float)
    (hparse : lang.parse text = .ok t) (ev : Evaluator Float) (n : Expr Float)
    (hn : n ∈ t.nodes) : n.ExactlyFoldable ev :=
  ((follows_of_parse hparse).of_mem_nodes hn).exactlyFoldable ev

/-- In `rand(x)*sum(k,1,2,f(k))`, the sum is foldable: it binds its only name, and draws nothing,
nor does the function that it calls. The product has a free variable and a draw. -/
theorem exactlyFoldable_of_parse_product :
    let f : Definition (Expr Float) := ⟨"f", ["x"], .binary .pow (.var "x") (.var "x"), "x^x"⟩
    let lang : Language := { registry := ⟨[f]⟩, maxPending := none }
    let ev : Evaluator Float := { draw := fun _ => 0.5 }
    let series : Expr Float :=
      .builtin .sum [.var "k", .const (.real 1.0), .const (.real 2.0), .apply f [.var "k"]]
    let t : Expr Float := .binary .mul (.builtin .rand [.var "x"]) series
    lang.parse "rand(x) * sum(k, 1, 2, f(k))" = .ok t ∧ series ∈ t.nodes ∧ t ∈ t.nodes ∧
      series.isFoldable = true ∧ series.ExactlyFoldable ev ∧
      t.dependence.names = ["x"] ∧ t.ReachesRand ∧ t.ExactlyFoldable ev := by
  intro f lang ev series t
  have hvariable {c : Char} (hc : c = 'k' ∨ c = 'x') : Atom lang [c] (.var (String.ofList [c])) := by
    rcases hc with rfl | rfl <;>
      exact .variable ⟨not_wrapped_of_head (by decide), by decide, by decide, by decide⟩ rfl
        (by decide)
  have hk : Atom lang ['k'] (.var "k") := hvariable (.inl rfl)
  have hx : Atom lang ['x'] (.var "x") := hvariable (.inr rfl)
  have hone : Atom lang ['1'] (.const (.real 1.0)) :=
    .number ⟨not_wrapped_of_head (by decide), by decide, by decide, by decide⟩
      (.outside (by decide) (by decide) .nil)
      (show NumberFormat.standard.read ['1'] = .ok 1.0 from rfl)
  have htwo : Atom lang ['2'] (.const (.real 2.0)) :=
    .number ⟨not_wrapped_of_head (by decide), by decide, by decide, by decide⟩
      (.outside (by decide) (by decide) .nil)
      (show NumberFormat.standard.read ['2'] = .ok 2.0 from rfl)
  have hclear : Clear lang.format.argument ['k'] :=
    .of_forall (show ∀ c ∈ ['k'], Bracket.isBracket c = false ∧ c ∉ [','] by decide)
  have hcall : Atom lang "f(k)".toList (.apply f [.var "k"]) :=
    atom_iff.2 (.apply_only rfl rfl rfl hclear (formula_iff.1 (.of_atom (by decide) hk)))
  have hsum : Atom lang (argumentList lang "sum" [['k'], ['1'], ['2'], "f(k)".toList]) series := by
    refine .builtin .sum (by decide) (fun s hs => ?_)
      (.cons (.of_atom (by decide) hk) (.cons (.of_atom (by decide) hone)
        (.cons (.of_atom (by decide) htwo) (.cons (.of_atom (by decide) hcall) .nil))))
      (by decide) fun _ => ⟨"k", _, rfl⟩
    have hlast : Clear lang.format.argument "f(k)".toList := by
      have hname : Clear lang.format.argument ['f'] :=
        .of_forall (show ∀ c ∈ ['f'], Bracket.isBracket c = false ∧ c ∉ [','] by decide)
      exact hname.append (hclear.balanced.bracketed .round)
    have hrest : ∀ s ∈ [['k'], ['1'], ['2']], ∀ c ∈ s, Bracket.isBracket c = false ∧ c ∉ [','] := by
      decide
    rcases List.mem_append.1 (show s ∈ [['k'], ['1'], ['2']] ++ ["f(k)".toList] from hs) with hs | hs
    · exact .of_forall (hrest s hs)
    · exact List.mem_singleton.1 hs ▸ hlast
  have hrand : Atom lang (argumentList lang "rand" [['x']]) (.builtin .rand [.var "x"]) :=
    .builtin .rand (by decide)
      (fun s hs => .of_forall (List.mem_singleton.1 hs ▸
        show ∀ c ∈ ['x'], Bracket.isBracket c = false ∧ c ∉ [','] by decide))
      (.cons (.of_atom (by decide) hx) .nil) (by decide) fun h => nomatch h
  have hproduct : Product (Atom lang) (argumentList lang "rand" [['x']] ++ BinaryOp.mul.symbol.toList ++
      argumentList lang "sum" [['k'], ['1'], ['2'], "f(k)".toList]) t :=
    .join .mul rfl (.part (.part hrand)) (.part hsum)
  have hparse : lang.parse "rand(x) * sum(k, 1, 2, f(k))" = .ok t :=
    parse_of_formula NumberFormat.hasPlainMarks_standard rfl (by decide)
      (.mk (.part (.part (by decide) (.part hproduct))))
  have hseries : series ∈ t.nodes := by simp [t, series, Expr.nodes]
  have hself : t ∈ t.nodes := Expr.mem_nodes_self t
  have hrandom : .builtin .rand [.var "x"] ∈ t.nodes := by simp [t, Expr.nodes]
  exact ⟨hparse, hseries, hself, by decide, exactlyFoldable_of_parse lang _ t hparse ev series hseries,
    by decide, .call hrandom, exactlyFoldable_of_parse lang _ t hparse ev t hself⟩

end Language

end Formulary
