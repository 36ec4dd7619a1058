import Formulary.Proofs.Expr.FoldingPlaces

/-!
# What folding leaves

Folding changes no node's foldability (`Expr.SameDependence`) and keeps meaning, so a foldable node
that it leaves comes to what the node in its place came to before, which is why that one was kept: a
value that cannot be written, or an error at an optional place (`Folding.exists_outcome_of_left`).
For the same reason it is kept again, and folding a second time finds nothing to do
(`Folding.attempt_of_left_node`).

The exception is the limit of depth. A node that is too deep to be evaluated where it stands is kept
at an optional place. By itself it may have a value, and it may be less deep with folded children.
So it may have another outcome the second time.
-/

namespace Formulary

open Formulary.Expr Evaluator

variable {α : Type}

/-! ## Foldability -/

namespace Expr

/-- The trees depend on the same, and are the same variable, if one of them is a variable. -/
structure SameDependence (e e' : Expr α) : Prop where
  dependence : e.dependence = e'.dependence
  var (k : String) : e = .var k ↔ e' = .var k

/-- All calls but those of a series with a term depend on what the arguments depend on. -/
theorem dependence_call {f : Builtin} {args : List (Expr α)}
    (h : ∀ k start stop term rest, f.isSeries = true →
      args ≠ var k :: start :: stop :: term :: rest) :
    (builtin f args).dependence = ⟨(dependenceOfAll args).names,
      (dependenceOfAll args).deterministic && !f.isRandom⟩ := by
  cases f with
  | sum | prod =>
    rw [dependence]
    · intro k start stop term rest _
      exact h k start stop term rest rfl
    · intro k start stop term rest _
      exact h k start stop term rest rfl
  | _ => rw [dependence] <;> nofun

namespace SameDependence

variable {args args' : List (Expr α)}

/-- Trees that depend on the same one by one do so together. -/
theorem dependenceOfAll_eq (h : List.Forall₂ SameDependence args args') :
    dependenceOfAll args = dependenceOfAll args' := by
  induction h with
  | nil => rfl
  | cons he _ ih => rw [dependenceOfAll, dependenceOfAll, he.dependence, ih]

/-- Calls depend on the same if their arguments do. -/
theorem builtin (f : Builtin) (h : List.Forall₂ SameDependence args args') :
    (Expr.builtin f args).dependence = (Expr.builtin f args').dependence := by
  by_cases hseries : ∃ k start stop term rest, f.isSeries = true ∧
      args = .var k :: start :: stop :: term :: rest
  · obtain ⟨k, start, stop, term, rest, hf, rfl⟩ := hseries
    cases h with
    | cons hk h =>
    cases h with
    | cons hstart h =>
    cases h with
    | cons hstop h =>
    cases h with
    | cons hterm hrest =>
    obtain rfl := (hk.var k).1 rfl
    cases f with
    | sum | prod =>
      rw [Expr.dependence, Expr.dependence, hstart.dependence, hstop.dependence,
        hterm.dependence, dependenceOfAll_eq hrest]
    | _ => cases hf
  · rw [dependence_call, dependence_call, dependenceOfAll_eq h]
    · rintro k start' stop' term' rest' hf rfl
      match args, h with
      | k :: start :: stop :: term :: rest, .cons hk _ =>
        exact hseries ⟨_, start, stop, term, rest, hf, by rw [(hk.var _).2 rfl]⟩
    · rintro k start stop term rest hf rfl
      exact hseries ⟨k, start, stop, term, rest, hf, rfl⟩

/-- Depending on the same carries over from parts to the whole. -/
theorem congruence : Congruence (SameDependence (α := α)) where
  refl _ := ⟨rfl, fun _ => .rfl⟩
  binary op _ _ _ _ hl hr :=
    ⟨by rw [Expr.dependence, Expr.dependence, hl.dependence, hr.dependence], by simp⟩
  unary f _ _ h := ⟨by rw [Expr.dependence, Expr.dependence, h.dependence], by simp⟩
  builtin f _ _ h := ⟨builtin f h, by simp⟩
  apply d _ _ h :=
    ⟨by rw [Expr.dependence, Expr.dependence, dependenceOfAll_eq h], by simp⟩

end SameDependence

/-- A foldable tree depends on nothing. -/
theorem dependence_of_isFoldable {e : Expr α} (h : e.isFoldable = true) :
    e.dependence = .none := by
  rw [isFoldable, Bool.and_eq_true, List.isEmpty_iff] at h
  obtain ⟨hnames, hdeterministic⟩ := h
  calc e.dependence = ⟨e.dependence.names, e.dependence.deterministic⟩ := rfl
    _ = .none := by rw [hnames, hdeterministic, Dependence.none]

end Expr

namespace Evaluator

variable [Scalar α]

/-- At this place there is a foldable node that is too deep to be evaluated while the tree is
folded. There is less room for its calls than for those of an evaluation by itself: those of the
folding are pending, one for each node that it is inside of. -/
def TooDeepAt (ev : Evaluator α) (e : Expr α) (path : List Nat) : Prop :=
  ∃ n, e.nodeAt? path = some n ∧ n.isFoldable = true ∧ ev.IsLimited ∧
    ev.evalAt .empty (5 + path.length) n = throw .tooDeep

end Evaluator

namespace Folding

variable [Scalar α] {ev : Evaluator α} {depth : Nat} {conditional : Bool} {e n' : Expr α}
  {path : List Nat}

/-- What folding leaves of a tree is related to the tree by every congruence that relates a foldable
tree to its value. -/
theorem rel_folded {R : Expr α → Expr α → Prop} (hR : Congruence R)
    (hvalue : ∀ e v depth, e.isFoldable = true → ev.evalAt .empty depth e = Eval.of (.ok v) →
      R e (.const v)) (depth : Nat) (conditional : Bool) (e : Expr α) :
    R e (folded ev depth conditional e).tree := by
  obtain ⟨folding, hfolding, hrel⟩ := ofExpr_eq_pure ev hR hvalue depth conditional e
  have hfolded : folded ev depth conditional e = folding :=
    congrArg Prod.fst (congrFun ((ofExpr_eq_folded ev depth conditional e).symm.trans hfolding) 0)
  rwa [hfolded]

/-- What folding leaves of a tree stands for it. -/
theorem refines_folded (ev : Evaluator α) (depth : Nat) (conditional : Bool) (e : Expr α) :
    Refines ev e (folded ev depth conditional e).tree :=
  rel_folded Refines.congruence (fun _ _ _ => refines_const ev) depth conditional e

/-- Folding changes nothing about what a tree depends on. -/
theorem sameDependence_folded (ev : Evaluator α) (depth : Nat) (conditional : Bool) (e : Expr α) :
    SameDependence e (folded ev depth conditional e).tree := by
  refine rel_folded SameDependence.congruence (fun e v _ hfoldable _ => ?_) depth conditional e
  have hdependence := dependence_of_isFoldable hfoldable
  refine ⟨hdependence, fun k => ⟨?_, nofun⟩⟩
  rintro rfl
  cases hfoldable

/-! ## Constants -/

/-- A constant that folding leaves is finite or stands where the tree has a constant. -/
theorem isFinite_of_left {v : Value α} {origin : Option Origin}
    (h : (folded ev depth conditional e).failure = none)
    (hv : (folded ev depth conditional e).tree.nodeAt? path = some (.const v origin))
    (hnew : e.hasConstAt path = false) : v.isFinite = true := by
  obtain ⟨n, hn, -, hfailure, htree⟩ := nodeAt?_folded h hv
  have hconst : n.isConst = false := by rwa [hasConstAt, hn, Option.any_some] at hnew
  rcases folded_cases ev (depth + path.length) (conditional || e.isOptionalAt path) n with
    ⟨w, hreplaced, heq⟩ | ⟨err, -, heq⟩ | hkept
  · obtain ⟨-, -, -, hfinite⟩ := replaced_of_attempt hreplaced
    rw [heq] at htree
    cases htree
    exact hfinite
  · rw [heq] at hfailure
    cases hfailure
  · -- a node that is kept is a constant only if it was one
    obtain ⟨-, heq⟩ := folded_eq_of_kept hkept hfailure
    rw [heq] at htree
    have hsame := (isConst_withChildren (e := n)).symm.trans (congrArg isConst htree)
    rw [hconst] at hsame
    cases hsame

/-! ## Foldable nodes -/

/-- A foldable node that folding leaves was kept because of what it came to, and comes to the same
wherever there is as much room for it, or it was too deep. -/
theorem kept_of_left (h : (folded ev depth conditional e).failure = none)
    (hconst : (folded ev depth conditional e).tree.isConst = false)
    (hfoldable : (folded ev depth conditional e).tree.isFoldable = true) :
    ∃ r, verdict conditional r = .kept ∧
      ((∀ depth' ≤ depth + 2, ∀ (draw : Nat → α) (scope : Scope α),
          (ev.withDraw draw).evalAt scope depth' (folded ev depth conditional e).tree = Eval.of r) ∨
        (conditional = true ∧ e.isFoldable = true ∧ ev.IsLimited ∧
          ev.evalAt .empty (depth + 2) e = throw .tooDeep)) := by
  have hbefore : e.isFoldable = true := by
    rw [isFoldable, (sameDependence_folded ev depth conditional e).dependence]
    exact hfoldable
  rcases folded_cases ev depth conditional e with ⟨v, -, heq⟩ | ⟨err, -, heq⟩ | hkept
  · rw [heq] at hconst
    cases hconst
  · rw [heq] at h
    cases h
  · have hconst' : e.isConst = false := by
      obtain ⟨-, heq⟩ := folded_eq_of_kept hkept h
      rwa [heq, isConst_withChildren] at hconst
    obtain ⟨-, hleft | hleft⟩ | ⟨-, -, r, hr, hverdict⟩ := verdict_of_attempt hkept
    · rw [hconst'] at hleft
      cases hleft
    · rw [hbefore] at hleft
      cases hleft
    · refine ⟨r, hverdict, ?_⟩
      by_cases hdeep : ev.IsLimited ∧ r = .error .tooDeep
      · obtain ⟨hlimited, rfl⟩ := hdeep
        obtain ⟨v, ⟨⟩, -⟩ | ⟨err, -, hconditional, -⟩ := kept_of_verdict hverdict
        exact .inr ⟨hconditional, hbefore, hlimited, hr⟩
      · refine .inl fun depth' hdepth draw scope => ?_
        obtain ⟨r', hr'⟩ := evalAt_of_isFoldable ev hfoldable depth'
        -- what was folded comes to the same at its place, and where there is more room
        have hplace := (refines_folded ev depth conditional e).within .empty (depth + 2)
        have hroom := hplace.trans (evalAt_within _ (.of_le ev hdepth) (.refl ev _ _))
        rw [hr] at hroom
        have hsame := hroom.eq_of fun hlimited htooDeep => hdeep ⟨hlimited, htooDeep⟩
        rw [hr' draw scope, ← hr' ev.draw .empty]
        exact hsame

/-- The same at every place. -/
theorem exists_kept_of_left (h : (folded ev 3 false e).failure = none)
    (hn' : (folded ev 3 false e).tree.nodeAt? path = some n') (hconst : n'.isConst = false)
    (hfoldable : n'.isFoldable = true) :
    ∃ r, verdict (e.isOptionalAt path) r = .kept ∧
      ((∀ depth ≤ 5 + path.length, ∀ (draw : Nat → α) (scope : Scope α),
          (ev.withDraw draw).evalAt scope depth n' = Eval.of r) ∨
        (e.isOptionalAt path = true ∧ ev.TooDeepAt e path)) := by
  obtain ⟨n, hn, -, hfailure, rfl⟩ := nodeAt?_folded h hn'
  rw [Bool.false_or] at hconst hfoldable hfailure ⊢
  have hdepth : 3 + path.length + 2 = 5 + path.length := by omega
  obtain ⟨r, hkept, hcases⟩ := kept_of_left hfailure hconst hfoldable
  rw [hdepth] at hcases
  refine ⟨r, hkept, hcases.imp_right ?_⟩
  rintro ⟨hoptional, hbefore, hlimited, hdeep⟩
  exact ⟨hoptional, n, hn, hbefore, hlimited, hdeep⟩

/-- What a foldable node comes to that folding leaves: a value that cannot be written or an error at
an optional place, unless it was too deep. -/
theorem exists_outcome_of_left (h : (folded ev 3 false e).failure = none)
    (hn' : (folded ev 3 false e).tree.nodeAt? path = some n') (hconst : n'.isConst = false)
    (hfoldable : n'.isFoldable = true) :
    ∃ r, (∀ (draw : Nat → α) (scope : Scope α),
        (ev.withDraw draw).evaluate scope n' = Eval.of r) ∧
      ((∃ v, r = .ok v ∧ v.isFinite = false) ∨
        ((∃ err, r = .error err) ∧ (folded ev 3 false e).tree.isOptionalAt path = true) ∨
        ((folded ev 3 false e).tree.isOptionalAt path = true ∧ ev.TooDeepAt e path)) := by
  obtain ⟨r, hkept, hsame | hdeep⟩ := exists_kept_of_left h hn' hconst hfoldable
  all_goals
    obtain ⟨-, -, hoptional, -⟩ := nodeAt?_folded h hn'
    rw [hoptional]
  · refine ⟨r, hsame 2 (by omega), ?_⟩
    obtain hvalue | ⟨err, rfl, hplace, -⟩ := kept_of_verdict hkept
    · exact .inl hvalue
    · exact .inr (.inl ⟨⟨err, rfl⟩, hplace⟩)
  · obtain ⟨r', hr'⟩ := evalAt_of_isFoldable ev hfoldable 2
    exact ⟨r', hr', .inr (.inr hdeep)⟩

/-! ## Folding a second time -/

/-- A node that folding leaves is kept by folding a second time, unless it was too deep. -/
theorem attempt_of_left_node (h : (folded ev 3 false e).failure = none)
    (hn' : (folded ev 3 false e).tree.nodeAt? path = some n') :
    attempt ev (3 + path.length) ((folded ev 3 false e).tree.isOptionalAt path) n' = pure .kept ∨
      (e.isOptionalAt path = true ∧ ev.TooDeepAt e path) := by
  obtain ⟨-, -, hoptional, -⟩ := nodeAt?_folded h hn'
  rw [hoptional]
  by_cases hleft : (n'.isConst || !n'.isFoldable) = true
  · exact .inl (attempt_of_left hleft)
  · obtain ⟨hconst, hfoldable⟩ : n'.isConst = false ∧ n'.isFoldable = true := by simp_all
    obtain ⟨r, hkept, hsame | hdeep⟩ := exists_kept_of_left h hn' hconst hfoldable
    · have hvalue : ev.evalAt .empty (3 + path.length + 2) n' = Eval.of r :=
        hsame _ (by omega) ev.draw .empty
      rw [attempt_of_foldable hconst hfoldable hvalue, hkept]
      exact .inl rfl
    · exact .inr hdeep

/-- Folding a second time leaves everything as it is, unless an optional part was too deep. -/
theorem folded_folded (h : (folded ev 3 false e).failure = none)
    (hshallow : ∀ path, e.isOptionalAt path = true → ¬ ev.TooDeepAt e path) :
    folded ev 3 false (folded ev 3 false e).tree = { tree := (folded ev 3 false e).tree } := by
  refine folded_of_all_kept fun path n' hn' => ?_
  rw [Bool.false_or]
  refine (attempt_of_left_node h hn').resolve_right ?_
  rintro ⟨hoptional, hdeep⟩
  exact hshallow path hoptional hdeep

end Folding

end Formulary
