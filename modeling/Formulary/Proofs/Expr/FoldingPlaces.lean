import Formulary.Proofs.Expr.Folding
import Formulary.Proofs.Expr.Places

/-!
# Folding, place by place

Folding keeps a node or puts a constant in its place, and goes on in the children of a node that it
keeps. So if it does not fail, what it leaves at a place is the folding of the node that the tree
has there (`Folding.nodeAt?_folded`), and the subtrees that it counts are the places that have got a
constant (`Folding.length_newConstants_folded`). If it fails, there is a place at which the attempt
to replace the node has failed (`Folding.exists_failed`).

An operator, a function and a call have in common that their children are folded from left to right
(`Folding.folded_of_kept`), so these are inductions over children, without a case for each sort of
node.
-/

namespace Formulary

variable {α : Type}

open Formulary.Expr Evaluator

namespace Folding

variable [Scalar α] {ev : Evaluator α} {depth : Nat} {conditional : Bool} {e : Expr α}

/-! ## The children of a node that is kept -/

/-- What folding makes of a tree. -/
def folded (ev : Evaluator α) (depth : Nat) (conditional : Bool) (e : Expr α) : Folding α :=
  ((ofExpr ev depth conditional e).run 0).1

/-- What folding makes of arguments. -/
def foldedArgs (ev : Evaluator α) (depth : Nat) (conditional : Nat → Bool) (first : Nat)
    (es : List (Expr α)) : ArgsFolding α :=
  ((ofArgs ev depth conditional first es).run 0).1

/-- Folding takes no draw. -/
theorem ofExpr_eq_folded (ev : Evaluator α) (depth : Nat) (conditional : Bool) (e : Expr α) :
    ofExpr ev depth conditional e = pure (folded ev depth conditional e) := by
  obtain ⟨folding, h, -⟩ :=
    ofExpr_eq_pure ev Refines.congruence (fun _ _ _ => refines_const ev) depth conditional e
  rw [folded, h]
  rfl

/-- What folding makes of a tree is what it comes to. -/
theorem folded_of_ofExpr {a : Folding α} (h : ofExpr ev depth conditional e = pure a) :
    folded ev depth conditional e = a := by
  rw [folded, h]
  rfl

/-- Folding arguments takes no draw. -/
theorem ofArgs_eq_foldedArgs (ev : Evaluator α) (depth : Nat) (conditional : Nat → Bool) (first : Nat)
    (es : List (Expr α)) :
    ofArgs ev depth conditional first es = pure (foldedArgs ev depth conditional first es) := by
  obtain ⟨folding, h, -⟩ :=
    ofArgs_eq_pure ev Refines.congruence (fun _ _ _ => refines_const ev) depth conditional first es
  rw [foldedArgs, h]
  rfl

/-- No arguments are folded to none. -/
theorem foldedArgs_nil {conditional : Nat → Bool} {first : Nat} :
    foldedArgs ev depth conditional first [] = { trees := [] } := by
  rw [foldedArgs, ofArgs]
  rfl

/-- The first argument is folded before the others, and they are not folded if it fails. -/
theorem foldedArgs_cons (conditional : Nat → Bool) (first : Nat) (es : List (Expr α)) :
    foldedArgs ev depth conditional first (e :: es) =
      let a := folded ev depth (conditional first) e
      if a.failure.isSome then ⟨a.tree :: es, a.count, a.failure⟩
      else
        let b := foldedArgs ev depth conditional (first + 1) es
        ⟨a.tree :: b.trees, a.count + b.count, b.failure⟩ := by
  rw [foldedArgs, ofArgs, ofExpr_eq_folded, ofArgs_eq_foldedArgs, pure_bind, pure_bind]
  dsimp only
  split <;> rfl

/-- A single argument is folded as it is by itself. -/
theorem foldedArgs_singleton (conditional : Nat → Bool) (first : Nat) :
    foldedArgs ev depth conditional first [e] =
      let a := folded ev depth (conditional first) e
      ⟨[a.tree], a.count, a.failure⟩ := by
  rw [foldedArgs_cons, foldedArgs_nil]
  dsimp only
  split
  · rfl
  · next hfailed => rw [Option.not_isSome_iff_eq_none.1 hfailed]; rfl

/-- The children of a node that is kept are folded from left to right. -/
theorem folded_of_kept (h : attempt ev depth conditional e = pure .kept) :
    folded ev depth conditional e =
      let a := foldedArgs ev (depth + 1) (fun index => conditional || e.isOptionalChild index) 0
        e.children
      ⟨e.withChildren a.trees, a.count, a.failure⟩ := by
  cases e with
  | const | var =>
    rw [folded, ofExpr, h, children, foldedArgs_nil]
    rfl
  | binary op l r =>
    rw [folded, ofExpr, h, pure_bind, children, foldedArgs_cons, foldedArgs_singleton]
    simp only [ofExpr_eq_folded, pure_bind, isOptionalChild, Bool.or_false]
    split <;> rfl
  | unary f x =>
    rw [folded, ofExpr, h, pure_bind, children, foldedArgs_singleton]
    simp only [ofExpr_eq_folded, pure_bind, isOptionalChild, Bool.or_false]
    rfl
  | builtin f args =>
    rw [folded, ofExpr, h, pure_bind, children]
    simp only [ofArgs_eq_foldedArgs, pure_bind, isOptionalChild_builtin, withChildren]
    rfl
  | apply d args =>
    rw [folded, ofExpr, h, pure_bind, children]
    simp only [ofArgs_eq_foldedArgs, pure_bind, isOptionalChild, Bool.or_false, withChildren]
    rfl

/-- A tree that is replaced becomes a constant. -/
theorem folded_of_replaced {v : Value α} (h : attempt ev depth conditional e = pure (.replaced v)) :
    folded ev depth conditional e = { tree := .const v, count := 1 } := by
  rw [folded, ofExpr.eq_def, h]
  rfl

/-- Folding leaves constants and variables as they are. -/
theorem folded_of_leaf (hchildren : e.children = []) (h : attempt ev depth conditional e = pure .kept) :
    folded ev depth conditional e = { tree := e } := by
  rw [folded_of_kept h, hchildren, foldedArgs_nil]
  exact congrArg (Folding.mk · 0 none) (hchildren ▸ withChildren_children e)

/-- What folding makes of a tree that is replaced, that fails, or that is kept. -/
theorem folded_cases (ev : Evaluator α) (depth : Nat) (conditional : Bool) (e : Expr α) :
    (∃ v, attempt ev depth conditional e = pure (.replaced v) ∧
        folded ev depth conditional e = { tree := .const v, count := 1 }) ∨
      (∃ err, attempt ev depth conditional e = pure (.failed err) ∧
        folded ev depth conditional e = { tree := e, failure := some err }) ∨
      attempt ev depth conditional e = pure .kept := by
  obtain ⟨a, ha, -⟩ := attempt_eq_pure ev depth conditional e
  cases a with
  | replaced v => exact .inl ⟨v, ha, folded_of_replaced ha⟩
  | failed err =>
    refine .inr (.inl ⟨err, ha, ?_⟩)
    rw [folded, ofExpr.eq_def, ha]
    rfl
  | kept => exact .inr (.inr ha)

section

variable {conditional : Nat → Bool} {first : Nat} {es : List (Expr α)}

/-- Folding arguments fails as one of the arguments does. -/
theorem exists_failed_of_foldedArgs {err : EvalError α}
    (h : (foldedArgs ev depth conditional first es).failure = some err) :
    ∃ (index : Nat) (e : Expr α), es[index]? = some e ∧
      (folded ev depth (conditional (first + index)) e).failure = some err := by
  induction es generalizing first with
  | nil =>
    rw [foldedArgs_nil] at h
    cases h
  | cons e es ih =>
    rw [foldedArgs_cons] at h
    dsimp only at h
    split at h
    · exact ⟨0, e, rfl, h⟩
    · obtain ⟨index, a, ha, hfailed⟩ := ih h
      rw [Nat.add_right_comm] at hfailed
      exact ⟨index + 1, a, ha, hfailed⟩

/-- Arguments that are folded without a failure are folded each by itself. -/
theorem foldedArgs_eq (h : (foldedArgs ev depth conditional first es).failure = none) :
    (∀ (index : Nat) (e : Expr α), es[index]? = some e →
        (folded ev depth (conditional (first + index)) e).failure = none) ∧
      foldedArgs ev depth conditional first es =
        ⟨es.mapIdx fun index e => (folded ev depth (conditional (first + index)) e).tree,
          (es.mapIdx fun index e => (folded ev depth (conditional (first + index)) e).count).sum,
          none⟩ := by
  induction es generalizing first with
  | nil => exact ⟨by rintro index e ⟨⟩, foldedArgs_nil⟩
  | cons e es ih =>
    rw [foldedArgs_cons] at h ⊢
    dsimp only at h ⊢
    split at h
    case isTrue hfailed =>
      rw [show (folded ev depth (conditional first) e).failure = none from h] at hfailed
      cases hfailed
    case isFalse hfailed =>
      obtain ⟨hes, heq⟩ := ih h
      have hshift : ∀ index, first + 1 + index = first + (index + 1) := fun index => by omega
      rw [if_neg hfailed, heq, List.mapIdx_cons, List.mapIdx_cons]
      simp only [hshift] at hes ⊢
      refine ⟨fun index a ha => ?_, rfl⟩
      cases index with
      | zero =>
        cases ha
        simpa using hfailed
      | succ index => exact hes index a ha

end

/-- A node that is kept, folded without a failure: its children are folded each by itself. -/
theorem folded_eq_of_kept (hkept : attempt ev depth conditional e = pure .kept)
    (h : (folded ev depth conditional e).failure = none) :
    let child (index : Nat) (a : Expr α) :=
      folded ev (depth + 1) (conditional || e.isOptionalChild index) a
    (∀ (index : Nat) (a : Expr α), e.children[index]? = some a → (child index a).failure = none) ∧
      folded ev depth conditional e =
        ⟨e.withChildren (e.children.mapIdx fun index a => (child index a).tree),
          (e.children.mapIdx fun index a => (child index a).count).sum, none⟩ := by
  rw [folded_of_kept hkept] at h ⊢
  obtain ⟨hchildren, heq⟩ := foldedArgs_eq h
  simp only [Nat.zero_add] at hchildren heq
  exact ⟨hchildren, by rw [heq]⟩

/-! ## Places -/

/-- One more call is pending for each node on the way to a place. -/
theorem depth_cons (depth index : Nat) (path : List Nat) :
    depth + (index :: path).length = depth + 1 + path.length := by
  rw [List.length_cons]
  omega

/-- If folding fails, then because of the node at some place. -/
theorem exists_failed {err : EvalError α} (h : (folded ev depth conditional e).failure = some err) :
    ∃ (path : List Nat) (n : Expr α), e.nodeAt? path = some n ∧
      attempt ev (depth + path.length) (conditional || e.isOptionalAt path) n = pure (.failed err) := by
  induction e using induction_children generalizing depth conditional with
  | step e ih =>
    rcases folded_cases ev depth conditional e with ⟨v, -, heq⟩ | ⟨err', hfailed, heq⟩ | hkept
    · rw [heq] at h
      cases h
    · rw [heq] at h
      cases h
      exact ⟨[], e, rfl, by simpa [isOptionalAt] using hfailed⟩
    · rw [folded_of_kept hkept] at h
      obtain ⟨index, a, ha, hfailed⟩ := exists_failed_of_foldedArgs h
      rw [Nat.zero_add] at hfailed
      obtain ⟨path, n, hn, hattempt⟩ := ih a (List.mem_of_getElem? ha) hfailed
      refine ⟨index :: path, n, nodeAt?_cons_eq_some.2 ⟨a, ha, hn⟩, ?_⟩
      rwa [isOptionalAt_cons ha, ← Bool.or_assoc, depth_cons]

/-- What folding leaves at a place is the folding of the node that is there. -/
theorem nodeAt?_folded {path : List Nat} {n' : Expr α}
    (h : (folded ev depth conditional e).failure = none)
    (hn' : (folded ev depth conditional e).tree.nodeAt? path = some n') :
    ∃ n, e.nodeAt? path = some n ∧
      (folded ev depth conditional e).tree.isOptionalAt path = e.isOptionalAt path ∧
      (folded ev (depth + path.length) (conditional || e.isOptionalAt path) n).failure = none ∧
      (folded ev (depth + path.length) (conditional || e.isOptionalAt path) n).tree = n' := by
  induction path generalizing e depth conditional with
  | nil =>
    cases hn'
    refine ⟨e, rfl, rfl, ?_⟩
    rw [isOptionalAt, Bool.or_false]
    exact ⟨h, rfl⟩
  | cons index path ih =>
    obtain ⟨a', ha', hn'⟩ := nodeAt?_cons_eq_some.1 hn'
    rcases folded_cases ev depth conditional e with ⟨v, -, heq⟩ | ⟨err, -, heq⟩ | hkept
    · rw [heq] at ha'
      cases ha'
    · rw [heq] at h
      cases h
    · obtain ⟨hchildren, heq⟩ := folded_eq_of_kept hkept h
      have hplace := ha'
      rw [heq, children_withChildren (List.length_mapIdx), List.getElem?_mapIdx] at ha'
      obtain ⟨a, ha, rfl⟩ := Option.map_eq_some_iff.1 ha'
      obtain ⟨n, hn, hoptional, hfolded⟩ := ih (hchildren index a ha) hn'
      refine ⟨n, nodeAt?_cons_eq_some.2 ⟨a, ha, hn⟩, ?_, ?_⟩
      · rw [isOptionalAt_cons ha, isOptionalAt_cons hplace, hoptional, heq,
          isOptionalChild_withChildren]
      · rwa [isOptionalAt_cons ha, ← Bool.or_assoc, depth_cons]

/-- If no node is replaced and none fails, folding leaves the tree as it is. -/
theorem folded_of_all_kept (h : ∀ path n, e.nodeAt? path = some n →
    attempt ev (depth + path.length) (conditional || e.isOptionalAt path) n = pure .kept) :
    folded ev depth conditional e = { tree := e } := by
  induction e using induction_children generalizing depth conditional with
  | step e ih =>
    have hkept : attempt ev depth conditional e = pure .kept := by
      simpa [isOptionalAt] using h [] e rfl
    have hchild : ∀ index a, e.children[index]? = some a →
        folded ev (depth + 1) (conditional || e.isOptionalChild index) a = { tree := a } := by
      intro index a ha
      refine ih a (List.mem_of_getElem? ha) fun path n hn => ?_
      rw [Bool.or_assoc, ← isOptionalAt_cons ha, ← depth_cons]
      exact h (index :: path) n (nodeAt?_cons_eq_some.2 ⟨a, ha, hn⟩)
    have hnone : (folded ev depth conditional e).failure = none := by
      rw [Option.eq_none_iff_forall_ne_some]
      intro err herr
      rw [folded_of_kept hkept] at herr
      obtain ⟨index, a, ha, hfailed⟩ := exists_failed_of_foldedArgs herr
      rw [Nat.zero_add, hchild index a ha] at hfailed
      cases hfailed
    obtain ⟨-, heq⟩ := folded_eq_of_kept hkept hnone
    have htrees : (e.children.mapIdx fun index a =>
        (folded ev (depth + 1) (conditional || e.isOptionalChild index) a).tree) = e.children := by
      refine List.ext_getElem? fun index => ?_
      rw [List.getElem?_mapIdx]
      cases ha : e.children[index]? with
      | none => rfl
      | some a => rw [Option.map_some, hchild index a ha]
    have hcounts : (e.children.mapIdx fun index a =>
        (folded ev (depth + 1) (conditional || e.isOptionalChild index) a).count).sum = 0 := by
      refine List.sum_eq_zero_iff_forall_eq_nat.2 fun count hcount => ?_
      obtain ⟨index, hindex, rfl⟩ := List.exists_of_mem_mapIdx hcount
      rw [hchild index _ (List.getElem?_eq_getElem hindex)]
    rw [heq, htrees, hcounts, withChildren_children]

/-- Folding counts the places that get a constant. -/
theorem length_newConstants_folded (h : (folded ev depth conditional e).failure = none) :
    (newConstants e (folded ev depth conditional e).tree).length =
      (folded ev depth conditional e).count := by
  induction e using induction_children generalizing depth conditional with
  | step e ih =>
    rcases folded_cases ev depth conditional e with ⟨v, hreplaced, heq⟩ | ⟨err, -, heq⟩ | hkept
    · obtain ⟨hconst, -⟩ := replaced_of_attempt hreplaced
      rw [heq]
      exact congrArg List.length (newConstants_const hconst v)
    · rw [heq] at h
      cases h
    · obtain ⟨hchildren, heq⟩ := folded_eq_of_kept hkept h
      rw [heq, length_newConstants_withChildren]
      refine congrArg List.sum (List.mapIdx_eq_mapIdx_iff.2 fun index hindex => ?_)
      exact ih _ (List.getElem_mem hindex) (hchildren index _ (List.getElem?_eq_getElem hindex))

end Folding

end Formulary
