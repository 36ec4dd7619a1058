import Formulary.Expr.Derivative
import Formulary.Proofs.Expr.Folding
import Formulary.Proofs.Expr.Nodes
import Formulary.Proofs.Outcome

/-!
# Trees that follow rules

Which constants, variables and callees a tree may have depends on where it comes from: a formula has
no negative constants, and calls the functions that were registered when it was read. `Rules` say
what the leaves and the callees may be, and in a tree that `Follows` them every call also has the
shape that evaluation takes for granted: a builtin function exists and is called with as many
arguments as it takes, the first argument of a series is a variable, and a user-defined function
gets an argument for each parameter.

Copies, folding, derivatives and antiderivatives keep the rules, as far as the rules allow the
constants that they make. A series stays a series because no transformation puts anything else in
the place of a loop variable.
-/

namespace Formulary

open Formulary.Expr

variable {α : Type}

/-- What the leaves of a tree and the functions that it calls may be. -/
structure Rules (α : Type) where
  const : Value α → Prop := fun _ => True
  var : String → Prop := fun _ => True
  callee : Definition (Expr α) → Prop := fun _ => True

namespace Expr

/-- Leaves and callees are as the rules say, and every call has the shape that evaluation takes for
granted. -/
inductive Follows (rules : Rules α) : Expr α → Prop where
  | const {v : Value α} (hv : rules.const v) (origin : Option Origin) :
      Follows rules (.const v origin)
  | var {name : String} (hname : rules.var name) : Follows rules (.var name)
  | binary (op : BinaryOp) {l r : Expr α} (hl : Follows rules l) (hr : Follows rules r) :
      Follows rules (.binary op l r)
  | unary (f : UnaryOp) {x : Expr α} (hx : Follows rules x) : Follows rules (.unary f x)
  | builtin {f : Builtin} {args : List (Expr α)} (hf : f ∈ Builtin.all)
      (harity : f.minArgs ≤ args.length ∧ args.length ≤ f.maxArgs)
      (hloop : f.isSeries = true → ∃ k rest, args = .var k :: rest)
      (hargs : ∀ e ∈ args, Follows rules e) : Follows rules (.builtin f args)
  | apply {d : Definition (Expr α)} {args : List (Expr α)} (hd : rules.callee d)
      (harity : args.length = d.arity) (hargs : ∀ e ∈ args, Follows rules e) :
      Follows rules (.apply d args)

variable {rules rules' : Rules α}

/-- Rules are followed if names may be what they are by other rules, and the constants of the tree
what these rules say. -/
theorem Follows.narrow {e : Expr α} (h : e.Follows rules)
    (hconst : ∀ v origin, .const v origin ∈ e.nodes → rules.const v → rules'.const v)
    (hvar : ∀ name, rules.var name → rules'.var name)
    (hcallee : ∀ d, rules.callee d → rules'.callee d) : e.Follows rules' := by
  have hchild : ∀ {e a : Expr α},
      (∀ v origin, .const v origin ∈ e.nodes → rules.const v → rules'.const v) → a ∈ e.children →
      ∀ v origin, .const v origin ∈ a.nodes → rules.const v → rules'.const v :=
    fun h ha v origin hv => h v origin (mem_nodes_of_mem_children ha hv)
  induction h with
  | const hv origin => exact .const (hconst _ origin (List.mem_singleton.2 rfl) hv) origin
  | var hname => exact .var (hvar _ hname)
  | binary op _ _ ihl ihr =>
    exact .binary op (ihl (hchild hconst (List.mem_cons_self ..)))
      (ihr (hchild hconst (List.mem_cons_of_mem _ (List.mem_singleton.2 rfl))))
  | unary f _ ih => exact .unary f (ih (hchild hconst (List.mem_singleton.2 rfl)))
  | builtin hf harity hloop _ ih =>
    exact .builtin hf harity hloop fun a ha => ih a ha (hchild hconst ha)
  | apply hd harity _ ih =>
    exact .apply (hcallee _ hd) harity fun a ha => ih a ha (hchild hconst ha)

/-- Weaker rules are followed as well. -/
theorem Follows.mono {e : Expr α} (h : e.Follows rules)
    (hconst : ∀ v, rules.const v → rules'.const v) (hvar : ∀ name, rules.var name → rules'.var name)
    (hcallee : ∀ d, rules.callee d → rules'.callee d) : e.Follows rules' :=
  h.narrow (fun v _ _ => hconst v) hvar hcallee

/-- All nodes follow the rules, each for itself. -/
theorem Follows.of_mem_nodes {e n : Expr α} (h : e.Follows rules) (hn : n ∈ e.nodes) :
    n.Follows rules := by
  induction h with
  | const hv origin =>
    obtain rfl := List.mem_singleton.1 hn
    exact .const hv origin
  | var hname =>
    obtain rfl := List.mem_singleton.1 hn
    exact .var hname
  | binary op hl hr ihl ihr =>
    rw [nodes, List.mem_cons, List.mem_append] at hn
    rcases hn with rfl | hn | hn
    · exact .binary op hl hr
    · exact ihl hn
    · exact ihr hn
  | unary f hx ih =>
    rw [nodes, List.mem_cons] at hn
    rcases hn with rfl | hn
    · exact .unary f hx
    · exact ih hn
  | builtin hf harity hloop hargs ih =>
    rw [nodes, List.mem_cons, mem_nodesOfAll] at hn
    rcases hn with rfl | ⟨a, ha, hn⟩
    · exact .builtin hf harity hloop hargs
    · exact ih a ha hn
  | apply hd harity hargs ih =>
    rw [nodes, List.mem_cons, mem_nodesOfAll] at hn
    rcases hn with rfl | ⟨a, ha, hn⟩
    · exact .apply hd harity hargs
    · exact ih a ha hn

/-- The second tree can take the place of the first one in a tree that follows the rules. -/
structure Replaces (rules : Rules α) (e e' : Expr α) : Prop where
  follows (h : e.Follows rules) : e'.Follows rules
  var (k : String) (h : e = .var k) : e' = .var k

namespace Replaces

/-- Arguments that take the place of others follow the rules. -/
theorem follows_all {args args' : List (Expr α)} (h : List.Forall₂ (Replaces rules) args args')
    (hargs : ∀ e ∈ args, e.Follows rules) : ∀ e ∈ args', e.Follows rules :=
  forall_mem_of_forall₂ h fun e he _ hreplaces => hreplaces.follows (hargs e he)

/-- What replaces parts of a tree replaces the tree. -/
theorem congruence : Congruence (Replaces rules) where
  refl e := ⟨id, fun _ => id⟩
  binary op l l' r r' hl hr := by
    refine ⟨fun h => ?_, fun k hk => nomatch hk⟩
    cases h with
    | binary _ hleft hright => exact .binary op (hl.follows hleft) (hr.follows hright)
  unary f e e' he := by
    refine ⟨fun h => ?_, fun k hk => nomatch hk⟩
    cases h with
    | unary _ hx => exact .unary f (he.follows hx)
  builtin f args args' hargs := by
    refine ⟨fun h => ?_, fun k hk => nomatch hk⟩
    cases h with
    | builtin hf harity hloop hall =>
      refine .builtin hf (hargs.length_eq ▸ harity) (fun hseries => ?_) (follows_all hargs hall)
      -- what takes the place of the loop variable is this variable
      obtain ⟨k, rest, rfl⟩ := hloop hseries
      obtain ⟨e', rest', he, hrest, rfl⟩ := List.forall₂_cons_left_iff.1 hargs
      exact ⟨k, rest', by rw [he.var k rfl]⟩
  apply d args args' hargs := by
    refine ⟨fun h => ?_, fun k hk => nomatch hk⟩
    cases h with
    | apply hd harity hall => exact .apply hd (hargs.length_eq ▸ harity) (follows_all hargs hall)

end Replaces

/-! ## Copies -/

/-- Copies with origins of their own follow the rules. -/
theorem Follows.identify {e : Expr α} (h : e.Follows rules) (next : Nat) :
    (e.identify next).1.Follows rules := by
  have hconst : ∀ (v : Value α) (origin origin' : Option Origin),
      Replaces rules (.const v origin) (.const v origin') := by
    refine fun v origin origin' => ⟨fun h => ?_, fun k hk => nomatch hk⟩
    cases h with
    | const hv _ => exact .const hv origin'
  exact (Replaces.congruence.identify hconst next e).follows h

/-! ## Folding -/

/-- What folding leaves of a tree follows the rules, also where it fails in the middle. -/
theorem Follows.run [Scalar α] (hconst : ∀ v, rules.const v) {e : Expr α} (h : e.Follows rules)
    (ev : Evaluator α) (drawn : Nat) : ((Folding.run ev e).run drawn).1.tree.Follows rules := by
  have hvalue : ∀ (e : Expr α) (v : Value α) (depth : Nat), e.isFoldable = true →
      ev.evalAt .empty depth e = Eval.of (.ok v) → Replaces rules e (.const v) := by
    refine fun e v _ hfoldable _ => ⟨fun _ => .const (hconst v) none, ?_⟩
    -- a loop variable depends on itself, so it is never folded
    rintro k rfl
    cases hfoldable
  obtain ⟨folding, hrun, hreplaces⟩ :=
    Folding.ofExpr_eq_pure ev Replaces.congruence hvalue 3 false e
  rw [Folding.run, hrun]
  exact hreplaces.follows h

/-! ## Derivatives and antiderivatives -/

/-- Whatever draws there are, the transformation has `P` of its result, if it has one. -/
def Transform.Yields {β : Type} (x : Transform α β) (P : β → Prop) : Prop :=
  ∀ n b m, x.run.run n = (.ok b, m) → P b

namespace Transform.Yields

variable {β γ : Type} {P : β → Prop} {Q : γ → Prop}

/-- A result that `P` holds of. -/
theorem pure {b : β} (h : P b) : Yields (Pure.pure b : Transform α β) P := by
  rintro n b' m ⟨⟩
  exact h

/-- An error is no result. -/
theorem throw (e : DerivativeError α) : Yields (MonadExcept.throw e : Transform α β) P := by
  rintro n b m ⟨⟩

/-- A step and what follows it. -/
theorem bind {x : Transform α β} {f : β → Transform α γ} (hx : Yields x P)
    (hf : ∀ b, P b → Yields (f b) Q) : Yields (x >>= f) Q := by
  intro n c m h
  change (match x.run.run n with
    | (r, m) => (ExceptT.bindCont f r : StateM Nat _) m) = _ at h
  rcases hfirst : x.run.run n with ⟨_ | b, n'⟩
  · rw [hfirst] at h
    cases h
  · rw [hfirst] at h
    exact hf b (hx n b n' hfirst) n' c m h

/-- A test, and what is done either way. -/
theorem chosen {test : Transform α Bool} {x y : Transform α β} (hx : Yields x P)
    (hy : Yields y P) : Yields (do if ← test then x else y) P := by
  have htest : Yields test fun _ => True := fun _ _ _ _ => trivial
  refine bind htest fun b _ => ?_
  cases b with
  | true => exact hx
  | false => exact hy

/-- A step that there has to be room for. -/
theorem within {x : Transform α β} (hx : Yields x P) (limit : CallLimit) (calls : Nat) :
    Yields (Expr.within limit calls x) P := by
  unfold Expr.within
  split
  · exact .throw _
  · exact hx

/-- A sum has a range that does not stand in the way, and a transformed term. -/
theorem summation {what : Calculus} {x k : String} {start stop : Expr α}
    {term : Transform α (Expr α)} {P Q : Expr α → Prop} (hterm : Yields term Q)
    (hP : k ≠ x → rangeError? what x start stop = none → ∀ term', Q term' →
      P (.builtin .sum [.var k, start, stop, term'])) (limit : CallLimit) (depth : Nat) :
    Yields (Expr.summation limit what x depth k start stop term) P := by
  unfold Expr.summation
  split
  · exact .throw _
  · next hk =>
    refine .within ?_ _ _
    split
    · exact .throw _
    · next hrange => exact .within (.bind hterm fun term' h => .pure (hP hk hrange term' h)) _ _

end Transform.Yields

/-- Where there was room, a step had its own result. -/
theorem ok_of_within {β : Type} {limit : CallLimit} {calls : Nat}
    {y : Except (DerivativeError α) β} {b : β} (h : within limit calls y = .ok b) : y = .ok b := by
  unfold within at h
  split at h
  · cases h
  · exact h

/-- A sum is transformed if its range does not stand in the way and its term is transformed. -/
theorem ok_of_summation {limit : CallLimit} {what : Calculus} {x k : String} {depth : Nat}
    {start stop e : Expr α} {term : Except (DerivativeError α) (Expr α)}
    (h : summation limit what x depth k start stop term = .ok e) :
    k ≠ x ∧ rangeError? what x start stop = none ∧
      ∃ term', term = .ok term' ∧ e = .builtin .sum [.var k, start, stop, term'] := by
  unfold summation at h
  split at h
  · cases h
  · next hk =>
    have h := ok_of_within h
    split at h
    · cases h
    · next hrange =>
      obtain ⟨term', hterm, h⟩ := bind_eq_ok.1 (ok_of_within h)
      cases h
      exact ⟨hk, hrange, term', hterm, rfl⟩

/-- A sum of parts that follow the rules. -/
theorem Follows.sum {k : String} {start stop term : Expr α} (hk : rules.var k)
    (hstart : start.Follows rules) (hstop : stop.Follows rules) (hterm : term.Follows rules) :
    (Expr.builtin .sum [.var k, start, stop, term]).Follows rules := by
  refine .builtin (by decide) ⟨Nat.le_refl 4, Nat.le_refl 4⟩ (fun _ => ⟨k, _, rfl⟩) ?_
  simp [Follows.var hk, hstart, hstop, hterm]

/-- The parts of a sum follow the rules. -/
theorem Follows.of_sum {k : String} {start stop term : Expr α} {rest : List (Expr α)}
    (h : (Expr.builtin .sum (.var k :: start :: stop :: term :: rest)).Follows rules) :
    rules.var k ∧ start.Follows rules ∧ stop.Follows rules ∧ term.Follows rules := by
  cases h with
  | builtin _ _ _ hargs =>
    have hk : (Expr.var k).Follows rules := hargs _ (by simp)
    cases hk with
    | var hk => exact ⟨hk, hargs _ (by simp), hargs _ (by simp), hargs _ (by simp)⟩

variable [Scalar α] (hconst : ∀ v, rules.const v)

include hconst

/-- Whole numbers follow the rules. -/
theorem follows_number (n : Nat) : (number n : Expr α).Follows rules := .const (hconst _) none

/-- The derivative of a power by its base follows the rules. -/
theorem Follows.powerRule {base exponent : Expr α} (hbase : base.Follows rules)
    (hexponent : exponent.Follows rules) : (powerRule base exponent).Follows rules := by
  refine .binary .mul hexponent (.binary .pow hbase ?_)
  unfold predecessor
  split
  · exact .const (hconst _) none
  · exact .binary .sub hexponent (follows_number hconst 1)

/-- The derivative of a quotient follows the rules. -/
theorem Follows.quotientRule {f f' g g' : Expr α} (hf : f.Follows rules) (hf' : f'.Follows rules)
    (hg : g.Follows rules) (hg' : g'.Follows rules) : (quotientRule f f' g g').Follows rules :=
  .binary .div (.binary .sub (.binary .mul hf' hg) (.binary .mul hf hg'))
    (.binary .pow hg (follows_number hconst 2))

/-- The derivative of the tangent follows the rules. -/
theorem Follows.tangentRule {operand : Expr α} (h : operand.Follows rules) :
    (tangentRule operand).Follows rules :=
  .binary .pow (.unary .sec h) (follows_number hconst 2)

/-- Derivatives keep the rules. -/
theorem Follows.derive {e : Expr α} (h : e.Follows rules) (ev : Evaluator α) (x : String)
    (depth : Nat) : (derive ev x depth e).Yields (Follows rules) := by
  fun_induction Expr.derive ev x depth e with
  | case1 => exact .throw _
  | case2 => exact .pure (follows_number hconst 0)
  | case3 => exact .pure (follows_number hconst _)
  | case4 depth _ f g ihf ihg =>
    cases h with
    | binary _ hf hg =>
      exact .bind (ihf hf) fun _ hf' => .bind (ihg hg) fun _ hg' => .pure (.binary .sub hf' hg')
  | case5 depth _ f g ihf ihg =>
    cases h with
    | binary _ hf hg =>
      exact .bind (ihf hf) fun _ hf' => .bind (.within (ihg hg) _ _) fun _ hg' =>
        .pure (hf.quotientRule hconst hf' hg hg')
  | case6 depth _ base exponent ih =>
    cases h with
    | binary _ hbase hexponent =>
      have houter := hbase.powerRule hconst hexponent
      refine .within ?_ _ _
      split
      · exact .within (.bind (ih hbase) fun _ hinner => .chosen (.pure houter)
          (.pure (.binary .mul houter hinner))) _ _
      · exact .throw _
  | case7 depth _ operand ih =>
    cases h with
    | unary _ hoperand =>
      have houter := hoperand.tangentRule hconst
      exact .within (.bind (ih hoperand) fun _ hinner => .chosen (.pure houter)
        (.pure (.binary .mul hinner houter))) _ _
  | case8 depth _ k start stop term rest ih =>
    obtain ⟨hk, hstart, hstop, hterm⟩ := h.of_sum
    exact .summation (ih hterm) (fun _ _ _ hterm' => .sum hk hstart hstop hterm') _ _
  | case9 => exact .throw _
  | case10 => exact .throw _

/-- Antiderivatives by a variable that the rules allow keep the rules. -/
theorem Follows.integrate {e e' : Expr α} {limit : CallLimit} {x : String} {depth : Nat}
    (hx : rules.var x) (h : e.Follows rules) (he : e.integrate limit x depth = .ok e') :
    e'.Follows rules := by
  fun_induction Expr.integrate limit x depth e generalizing e' with
  | case1 => cases he
  | case2 depth _ v origin =>
    cases he
    exact .binary .mul h (.var hx)
  | case3 depth _ name =>
    cases he
    split
    · exact .binary .div (.binary .pow (.var hx) (follows_number hconst 2))
        (follows_number hconst 2)
    · exact .binary .mul h (.var hx)
  | case4 depth _ f g ihf ihg =>
    cases h with
    | binary _ hf hg =>
      obtain ⟨f', hf', he⟩ := bind_eq_ok.1 he
      obtain ⟨g', hg', he⟩ := bind_eq_ok.1 he
      cases he
      exact .binary .sub (ihf hf hf') (ihg hg hg')
  | case5 depth _ k start stop term rest ih =>
    obtain ⟨hk, hstart, hstop, hterm⟩ := h.of_sum
    obtain ⟨-, -, term', hterm', rfl⟩ := ok_of_summation he
    exact .sum hk hstart hstop (ih hterm hterm')
  | case6 => cases he
  | case7 => cases he

end Expr

end Formulary
