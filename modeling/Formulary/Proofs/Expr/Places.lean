import Mathlib.Algebra.Ring.Nat
import Mathlib.Data.List.Nodup
import Formulary.Expr.Folding
import Formulary.Proofs.Expr.Nodes

/-!
# Places in a tree

A place is a path of child indexes from the root. Trees that a transformation works on in place can
be compared place by place: `Expr.nodeAt?` is the node at a place, `Expr.paths` lists the places of
a tree, and `Expr.newConstants` those at which a tree has a constant that another tree does not have
there.

A place is optional (`Expr.isOptionalAt`) if it is inside a branch of `if` or inside the term of a
series. These are the places at which folding leaves an error for an evaluation to report.
-/

namespace Formulary.Expr

variable {α : Type} {e e' n : Expr α}

/-- The node at the end of a path of child indexes. -/
def nodeAt? : Expr α → List Nat → Option (Expr α)
  | e, [] => some e
  | e, index :: path => e.children[index]?.bind (nodeAt? · path)

/-- Is the child with this index a branch of `if` or the term of a series? -/
def isOptionalChild : Expr α → Nat → Bool
  | builtin .cond _, index => index != 0
  | builtin .sum _, index | builtin .prod _, index => index == 3
  | _, _ => false

/-- Is the place inside a branch of `if` or inside the term of a series? -/
def isOptionalAt : Expr α → List Nat → Bool
  | _, [] => false
  | e, index :: path =>
    e.isOptionalChild index || e.children[index]?.any (isOptionalAt · path)

mutual

/-- The places of a tree, parents before their children. -/
def paths : Expr α → List (List Nat)
  | const .. | var _ => [[]]
  | binary _ l r => [] :: (l.paths.map (0 :: ·) ++ r.paths.map (1 :: ·))
  | unary _ x => [] :: x.paths.map (0 :: ·)
  | builtin _ args | apply _ args => [] :: pathsFrom 0 args

/-- The places in children that have the indexes from `index` on. -/
def pathsFrom (index : Nat) : List (Expr α) → List (List Nat)
  | [] => []
  | e :: es => e.paths.map (index :: ·) ++ pathsFrom (index + 1) es

end

/-- The node with other children, which are as many as its own. -/
def withChildren : Expr α → List (Expr α) → Expr α
  | binary op _ _, [l, r] => binary op l r
  | unary f _, [x] => unary f x
  | builtin f _, es => builtin f es
  | apply d _, es => apply d es
  | e, _ => e

/-- Is there a constant at this place? -/
def hasConstAt (e : Expr α) (path : List Nat) : Bool := (e.nodeAt? path).any isConst

/-- The places at which `e'` has a constant and `e` has none. -/
def newConstants (e e' : Expr α) : List (List Nat) :=
  e'.paths.filter fun path => e'.hasConstAt path && !e.hasConstAt path

/-! ## Nodes with other children -/

section

variable {es : List (Expr α)}

@[simp] theorem withChildren_children (e : Expr α) : e.withChildren e.children = e := by
  cases e <;> rfl

/-- The new children are the children. -/
theorem children_withChildren (h : es.length = e.children.length) :
    (e.withChildren es).children = es := by
  cases e with
  | const | var =>
    obtain rfl := List.length_eq_zero_iff.1 h
    rfl
  | binary op l r =>
    obtain ⟨l', r', rfl⟩ := List.length_eq_two.1 h
    rfl
  | unary f x =>
    obtain ⟨x', rfl⟩ := List.length_eq_one_iff.1 h
    rfl
  | builtin | apply => rfl

@[simp] theorem isConst_withChildren : (e.withChildren es).isConst = e.isConst := by
  unfold withChildren
  split <;> rfl

/-- Folding takes for conditional what is optional. -/
theorem isOptionalChild_builtin (f : Builtin) (args : List (Expr α)) (index : Nat) :
    (builtin f args).isOptionalChild index = Folding.isConditional f index := by
  cases f with
  | cond => cases index <;> rfl
  | _ => rfl

@[simp] theorem isOptionalChild_withChildren (index : Nat) :
    (e.withChildren es).isOptionalChild index = e.isOptionalChild index := by
  unfold withChildren
  split
  case h_3 => rw [isOptionalChild_builtin, isOptionalChild_builtin]
  all_goals rfl

end

/-! ## Paths -/

/-- The places of a tree are the root and those in its children. -/
theorem paths_eq (e : Expr α) : e.paths = [] :: pathsFrom 0 e.children := by
  cases e with
  | const | var | binary | unary => simp [paths, pathsFrom, children]
  | builtin | apply => rw [paths, children]

/-- A path goes through a child. -/
theorem nodeAt?_cons_eq_some {index : Nat} {path : List Nat} :
    e.nodeAt? (index :: path) = some n ↔
      ∃ a, e.children[index]? = some a ∧ a.nodeAt? path = some n :=
  Option.bind_eq_some_iff

/-- A place in a child is optional if the child is, or the place in it. -/
theorem isOptionalAt_cons {index : Nat} {path : List Nat} {a : Expr α}
    (h : e.children[index]? = some a) :
    e.isOptionalAt (index :: path) = (e.isOptionalChild index || a.isOptionalAt path) := by
  rw [isOptionalAt, h, Option.any_some]

/-- The nodes of a tree are what is at its places. -/
theorem mem_nodes_iff_nodeAt? : n ∈ e.nodes ↔ ∃ path, e.nodeAt? path = some n := by
  constructor
  · intro hn
    induction e using induction_children with
    | step e ih =>
      rw [nodes_eq, List.mem_cons] at hn
      rcases hn with rfl | hn
      · exact ⟨[], rfl⟩
      · obtain ⟨a, ha, hn⟩ := mem_nodesOfAll.1 hn
        obtain ⟨index, hindex⟩ := List.mem_iff_getElem?.1 ha
        obtain ⟨path, hpath⟩ := ih a ha hn
        exact ⟨index :: path, nodeAt?_cons_eq_some.2 ⟨a, hindex, hpath⟩⟩
  · rintro ⟨path, hpath⟩
    induction path generalizing e with
    | nil =>
      cases hpath
      exact mem_nodes_self _
    | cons index path ih =>
      obtain ⟨a, ha, hn⟩ := nodeAt?_cons_eq_some.1 hpath
      exact mem_nodes_of_mem_children (List.mem_of_getElem? ha) (ih hn)

/-- A place in a list of children is a place in the child that its first index says. -/
theorem mem_pathsFrom {es : List (Expr α)} {first index : Nat} {path : List Nat} :
    index :: path ∈ pathsFrom first es ↔
      ∃ i a, index = first + i ∧ es[i]? = some a ∧ path ∈ a.paths := by
  induction es generalizing first with
  | nil => simp [pathsFrom]
  | cons e es ih =>
    rw [pathsFrom, List.mem_append, List.mem_map, ih]
    constructor
    · rintro (⟨_, hpath, heq⟩ | ⟨i, a, rfl, ha, hpath⟩)
      · cases heq
        exact ⟨0, e, rfl, rfl, hpath⟩
      · exact ⟨i + 1, a, by omega, ha, hpath⟩
    · rintro ⟨i, a, rfl, ha, hpath⟩
      cases i with
      | zero =>
        cases ha
        exact .inl ⟨path, hpath, rfl⟩
      | succ i => exact .inr ⟨i, a, by omega, ha, hpath⟩

/-- The root is no place in a child. -/
theorem nil_notMem_pathsFrom {es : List (Expr α)} {first : Nat} : [] ∉ pathsFrom first es := by
  induction es generalizing first with
  | nil => simp [pathsFrom]
  | cons e es ih => simp [pathsFrom, ih]

/-- `paths` lists the places of a tree. -/
theorem mem_paths {path : List Nat} : path ∈ e.paths ↔ ∃ n, e.nodeAt? path = some n := by
  induction path generalizing e with
  | nil => simp [paths_eq, nodeAt?]
  | cons index path ih =>
    rw [paths_eq, List.mem_cons, or_iff_right (List.cons_ne_nil _ _), mem_pathsFrom]
    simp only [Nat.zero_add, nodeAt?_cons_eq_some, ih]
    constructor
    · rintro ⟨_, a, rfl, ha, n, hn⟩
      exact ⟨n, a, ha, hn⟩
    · rintro ⟨n, a, ha, hn⟩
      exact ⟨index, a, rfl, ha, n, hn⟩

/-! ## New constants -/

/-- There is a constant where a constant is found. -/
theorem hasConstAt_iff {path : List Nat} :
    e.hasConstAt path = true ↔ ∃ v origin, e.nodeAt? path = some (.const v origin) := by
  rw [hasConstAt, Option.any_eq_true]
  constructor
  · rintro ⟨n, hn, hconst⟩
    cases n with
    | const v origin => exact ⟨v, origin, hn⟩
    | _ => cases hconst
  · rintro ⟨v, origin, h⟩
    exact ⟨_, h, rfl⟩

/-- A constant is new where there was none before. -/
theorem mem_newConstants {path : List Nat} :
    path ∈ newConstants e e' ↔ e'.hasConstAt path = true ∧ e.hasConstAt path = false := by
  rw [newConstants, List.mem_filter, Bool.and_eq_true, Bool.not_eq_true', and_iff_right_iff_imp]
  rintro ⟨hconst, -⟩
  obtain ⟨v, origin, h⟩ := hasConstAt_iff.1 hconst
  exact mem_paths.2 ⟨_, h⟩

/-- Places in different children are different. -/
theorem nodup_pathsFrom {es : List (Expr α)} (first : Nat) (h : ∀ a ∈ es, a.paths.Nodup) :
    (pathsFrom first es).Nodup := by
  induction es generalizing first with
  | nil => exact .nil
  | cons e es ih =>
    obtain ⟨he, hes⟩ := List.forall_mem_cons.1 h
    rw [pathsFrom, List.nodup_append]
    refine ⟨he.map List.cons_injective, ih (first + 1) hes, ?_⟩
    -- the first index tells the children apart
    rintro _ hpath _ hrest rfl
    obtain ⟨path, -, rfl⟩ := List.mem_map.1 hpath
    obtain ⟨i, a, hi, -⟩ := mem_pathsFrom.1 hrest
    omega

/-- Every place is listed once. -/
theorem nodup_paths (e : Expr α) : e.paths.Nodup := by
  induction e using induction_children with
  | step e ih =>
    rw [paths_eq]
    exact List.nodup_cons.2 ⟨nil_notMem_pathsFrom, nodup_pathsFrom 0 ih⟩

/-- Every new constant is counted once. -/
theorem nodup_newConstants (e e' : Expr α) : (newConstants e e').Nodup := (nodup_paths e').filter _

@[simp] theorem hasConstAt_nil (e : Expr α) : e.hasConstAt [] = e.isConst := by
  rw [hasConstAt, nodeAt?, Option.any_some]

/-- A constant in a child is a constant of the tree. -/
theorem hasConstAt_cons {index : Nat} {a : Expr α} (h : e.children[index]? = some a)
    (path : List Nat) : e.hasConstAt (index :: path) = a.hasConstAt path := by
  rw [hasConstAt, nodeAt?, h, Option.bind_some, hasConstAt]

/-- The places in children are counted child by child. -/
theorem countP_pathsFrom (p : List Nat → Bool) (first : Nat) (es : List (Expr α)) :
    (pathsFrom first es).countP p =
      (es.mapIdx fun index e => e.paths.countP fun path => p ((first + index) :: path)).sum := by
  induction es generalizing first with
  | nil => rfl
  | cons e es ih =>
    rw [pathsFrom, List.countP_append, List.countP_map, ih, List.mapIdx_cons, List.sum_cons]
    simp only [Nat.add_right_comm first 1, ← Nat.add_assoc]
    rfl

/-- The new constants of a node with other children are those of the children. -/
theorem length_newConstants_withChildren (e : Expr α) (child : Nat → Expr α → Expr α) :
    (newConstants e (e.withChildren (e.children.mapIdx child))).length =
      (e.children.mapIdx fun index a => (newConstants a (child index a)).length).sum := by
  have hchildren : (e.withChildren (e.children.mapIdx child)).children =
      e.children.mapIdx child := children_withChildren List.length_mapIdx
  rw [newConstants, ← List.countP_eq_length_filter, paths_eq,
    List.countP_cons_of_neg (by simp), countP_pathsFrom, hchildren, List.mapIdx_mapIdx]
  refine congrArg List.sum (List.mapIdx_eq_mapIdx_iff.2 fun index hindex => ?_)
  have ha : e.children[index]? = some e.children[index] := List.getElem?_eq_getElem hindex
  have ha' : (e.withChildren (e.children.mapIdx child)).children[index]? =
      some (child index e.children[index]) := by
    rw [hchildren, List.getElem?_mapIdx, ha, Option.map_some]
  rw [newConstants, ← List.countP_eq_length_filter]
  simp only [Function.comp_apply, Nat.zero_add, hasConstAt_cons ha, hasConstAt_cons ha']

/-- A constant in the place of a tree is one new constant. -/
theorem newConstants_const (h : e.isConst = false) (v : Value α) :
    newConstants e (.const v) = [[]] := by
  have hconst : (const v : Expr α).isConst = true := rfl
  rw [newConstants, paths, List.filter_singleton, hasConstAt_nil, hasConstAt_nil, h, hconst]
  rfl

end Formulary.Expr
