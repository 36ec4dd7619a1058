import Formulary.Proofs.Calculus.Rules
import Formulary.Proofs.Evaluation.Foldable
import Formulary.Proofs.Evaluation.Proper

/-!
# Which trees have a derivative

The rules decide for every well-formed tree without random draws whether it has a derivative
(`Expr.decides_derive`) and whether it has an antiderivative (`Expr.settles_integrate`). The trees
that have one are described by themselves (`Expr.Differentiable`, `Expr.Integrable`), and for any
other tree the error says that there is no derivative or antiderivative. Only where there is no room
for the rules nothing is said of the tree. They need three calls for each level of a tree at most,
and antiderivatives two.

Rules do not go into exponents and bounds. What they ask of these is only that the exponent has no
free variables, and that the bounds do not have the variable free. Powers and tangents ask for more
than their parts: a derivative of the inner tree that has no free variables is evaluated, and has to
have a value. The tree that is evaluated then is made by the rules, not read. It is well-formed and
takes no draws, as these are kept by derivatives (`Expr.Derived.isDeterministic`).
-/

namespace Formulary.Expr

variable {α β γ : Type}

/-! ## Transformations that take no draws -/

namespace Transform

/-- A transformation that takes no draws. -/
def of (r : Except (DerivativeError α) β) : Transform α β := ExceptT.mk (pure r)

theorem run_of (r : Except (DerivativeError α) β) (n : ℕ) : (of r).run.run n = (r, n) := rfl

theorem of_ok_bind (b : β) (f : β → Transform α γ) : (of (.ok b) >>= f) = f b := rfl

theorem of_error_bind (e : DerivativeError α) (f : β → Transform α γ) :
    (of (.error e) >>= f) = of (.error e) := rfl

end Transform

/-- There is a result if the condition holds, and else the error says that there is no derivative,
except that the room may be exhausted. -/
inductive Settles (r : Except (DerivativeError α) β) (P exhausts : Prop) : Prop where
  | ok (b : β) (hr : r = .ok b) (h : P)
  | error (e : DerivativeError α) (hr : r = .error e) (hkind : e.kind = .derivative) (h : ¬ P)
  | exhausted (hr : r = .error .exhausted) (h : exhausts)

/-- The transformation takes no draws, and its outcome settles the condition. -/
def Decides (y : Transform α β) (P exhausts : Prop) : Prop :=
  ∃ r, y = Transform.of r ∧ Settles r P exhausts

section Decides

variable {P Q exhausts exhausts' : Prop} {limit : CallLimit} {calls : ℕ}

/-- A step and what follows it, where the condition for both implies that for the step. -/
theorem Settles.bind {r : Except (DerivativeError α) β} {f : β → Except (DerivativeError α) γ}
    (hr : Settles r P exhausts) (hf : ∀ b, r = .ok b → P → Settles (f b) Q exhausts) (hQ : Q → P) :
    Settles (r >>= f) Q exhausts := by
  cases hr with
  | ok b hr hP =>
    subst hr
    exact hf b rfl hP
  | error e hr hkind hP =>
    subst hr
    exact .error e rfl hkind fun h => hP (hQ h)
  | exhausted hr h =>
    subst hr
    exact .exhausted rfl h

/-- Two steps, one after the other. -/
theorem Settles.both {r : Except (DerivativeError α) β} {s : Except (DerivativeError α) γ}
    {δ : Type} (hr : Settles r P exhausts) (hs : Settles s Q exhausts) (f : β → γ → δ) :
    Settles (do let b ← r; let c ← s; return f b c) (P ∧ Q) exhausts :=
  .bind hr (fun _ _ hP => .bind hs (fun _ _ hQ => .ok _ rfl ⟨hP, hQ⟩) And.right) And.left

/-- What is known of the room may be weakened. -/
theorem Settles.mono {r : Except (DerivativeError α) β} (h : Settles r P exhausts)
    (hexhausts : exhausts → exhausts') : Settles r P exhausts' := by
  cases h with
  | ok b hr hP => exact .ok b hr hP
  | error e hr hkind hP => exact .error e hr hkind hP
  | exhausted hr h => exact .exhausted hr (hexhausts h)

/-- A step that there has to be room for. -/
theorem Settles.within {r : Except (DerivativeError α) β} (h : Settles r P exhausts)
    (hcalls : limit.isExceeded calls = true → exhausts) :
    Settles (Expr.within limit calls r) P exhausts := by
  unfold Expr.within
  split
  · next hexceeded => exact .exhausted rfl (hcalls hexceeded)
  · exact h

/-- A result settles a condition that holds. -/
theorem Decides.pure (b : β) (h : P) : Decides (Pure.pure b : Transform α β) P exhausts :=
  ⟨.ok b, rfl, .ok b rfl h⟩

/-- An error that says that there is no derivative settles a condition that does not hold. -/
theorem Decides.throw {e : DerivativeError α} (hkind : e.kind = .derivative) (h : ¬ P) :
    Decides (MonadExcept.throw e : Transform α β) P exhausts :=
  ⟨.error e, rfl, .error e rfl hkind h⟩

/-- An exhausted room settles nothing, where it may be exhausted. -/
theorem Decides.exhausted (h : exhausts) :
    Decides (MonadExcept.throw .exhausted : Transform α β) P exhausts :=
  ⟨.error .exhausted, rfl, .exhausted rfl h⟩

/-- A step and what follows it, where the condition for both implies that for the step. -/
theorem Decides.bind {y : Transform α β} {f : β → Transform α γ} (hy : Decides y P exhausts)
    (hf : ∀ b, y = Transform.of (.ok b) → P → Decides (f b) Q exhausts) (hQ : Q → P) :
    Decides (y >>= f) Q exhausts := by
  obtain ⟨r, rfl, hr⟩ := hy
  cases hr with
  | ok b hr hP =>
    subst hr
    rw [Transform.of_ok_bind]
    exact hf b rfl hP
  | error e hr hkind hP =>
    subst hr
    rw [Transform.of_error_bind]
    exact .throw hkind fun h => hP (hQ h)
  | exhausted hr h =>
    subst hr
    rw [Transform.of_error_bind]
    exact .exhausted h

/-- Two steps, one after the other. -/
theorem Decides.both {y : Transform α β} {z : Transform α γ} {δ : Type} (hy : Decides y P exhausts)
    (hz : Decides z Q exhausts) (f : β → γ → δ) :
    Decides (do let b ← y; let c ← z; return f b c) (P ∧ Q) exhausts :=
  .bind hy (fun _ _ hP => .bind hz (fun _ _ hQ => .pure _ ⟨hP, hQ⟩) And.right) And.left

/-- What is known of the room may be weakened. -/
theorem Decides.mono {y : Transform α β} (h : Decides y P exhausts)
    (hexhausts : exhausts → exhausts') : Decides y P exhausts' := by
  obtain ⟨r, hr, hsettles⟩ := h
  exact ⟨r, hr, hsettles.mono hexhausts⟩

/-- A step that there has to be room for. -/
theorem Decides.within {y : Transform α β} (h : Decides y P exhausts)
    (hcalls : limit.isExceeded calls = true → exhausts) :
    Decides (Expr.within limit calls y) P exhausts := by
  unfold Expr.within
  split
  · next hexceeded => exact .exhausted (hcalls hexceeded)
  · exact h

end Decides

/-! ## Trees with derivatives -/

section Domain

variable [Scalar α]

/-- If the derivative, made where `made` calls are pending, has no free variables, it has a value
where `evaluated` calls are. -/
def Simplifies (ev : Evaluator α) (x : String) (made evaluated : ℕ) (e : Expr α) : Prop :=
  ∀ n e' m, (derive ev x made e).run.run n = (.ok e', m) → e'.freeVars = [] →
    ∃ v n m, (ev.evalAt .empty evaluated e').outcome n = (.ok v, m)

/-- The trees that have a derivative by `x` where so many calls are pending. -/
inductive Differentiable (ev : Evaluator α) (x : String) : ℕ → Expr α → Prop where
  | const {depth : ℕ} (v : Value α) (origin : Option Origin) :
      Differentiable ev x depth (.const v origin)
  | var {depth : ℕ} (name : String) : Differentiable ev x depth (.var name)
  | sub {depth : ℕ} {f g : Expr α} (hf : Differentiable ev x (depth + 2) f)
      (hg : Differentiable ev x (depth + 2) g) : Differentiable ev x depth (.binary .sub f g)
  | div {depth : ℕ} {f g : Expr α} (hf : Differentiable ev x (depth + 2) f)
      (hg : Differentiable ev x (depth + 2) g) : Differentiable ev x depth (.binary .div f g)
  | pow {depth : ℕ} {base exponent : Expr α} (hclosed : exponent.freeVars = [])
      (hbase : Differentiable ev x (depth + 2) base)
      (hinner : Simplifies ev x (depth + 2) (depth + 5) base) :
      Differentiable ev x depth (.binary .pow base exponent)
  | tan {depth : ℕ} {operand : Expr α} (hoperand : Differentiable ev x (depth + 2) operand)
      (hinner : Simplifies ev x (depth + 2) (depth + 4) operand) :
      Differentiable ev x depth (.unary .tan operand)
  | sum {depth : ℕ} {k : String} {start stop term : Expr α} (hk : k ≠ x)
      (hstart : x ∉ start.freeVars) (hstop : x ∉ stop.freeVars)
      (hterm : Differentiable ev x (depth + 2) term) :
      Differentiable ev x depth (.builtin .sum [.var k, start, stop, term])

/-- The trees that have an antiderivative by `x`. -/
inductive Integrable (x : String) : Expr α → Prop where
  | const (v : Value α) (origin : Option Origin) : Integrable x (.const v origin)
  | var (name : String) : Integrable x (.var name)
  | sub {f g : Expr α} (hf : Integrable x f) (hg : Integrable x g) :
      Integrable x (.binary .sub f g)
  | sum {k : String} {start stop term : Expr α} (hk : k ≠ x) (hstart : x ∉ start.freeVars)
      (hstop : x ∉ stop.freeVars) (hterm : Integrable x term) :
      Integrable x (.builtin .sum [.var k, start, stop, term])

variable {ev : Evaluator α} {x k : String} {e f g t t' start stop term : Expr α} {depth : ℕ}

/-- A difference has a derivative if both sides have one. -/
theorem differentiable_sub : Differentiable ev x depth (binary .sub f g) ↔
    Differentiable ev x (depth + 2) f ∧ Differentiable ev x (depth + 2) g := by
  refine ⟨fun h => ?_, fun h => .sub h.1 h.2⟩
  cases h with
  | sub hf hg => exact ⟨hf, hg⟩

/-- A quotient has a derivative if both sides have one. -/
theorem differentiable_div : Differentiable ev x depth (binary .div f g) ↔
    Differentiable ev x (depth + 2) f ∧ Differentiable ev x (depth + 2) g := by
  refine ⟨fun h => ?_, fun h => .div h.1 h.2⟩
  cases h with
  | div hf hg => exact ⟨hf, hg⟩

/-- A power has a derivative if its exponent has no free variables and its base has a derivative
that can be simplified. -/
theorem differentiable_pow : Differentiable ev x depth (binary .pow f g) ↔
    g.freeVars = [] ∧ Differentiable ev x (depth + 2) f ∧
      Simplifies ev x (depth + 2) (depth + 5) f := by
  refine ⟨fun h => ?_, fun h => .pow h.1 h.2.1 h.2.2⟩
  cases h with
  | pow hclosed hbase hinner => exact ⟨hclosed, hbase, hinner⟩

/-- A tangent has a derivative if its operand has one that can be simplified. -/
theorem differentiable_tan : Differentiable ev x depth (unary .tan f) ↔
    Differentiable ev x (depth + 2) f ∧ Simplifies ev x (depth + 2) (depth + 4) f := by
  refine ⟨fun h => ?_, fun h => .tan h.1 h.2⟩
  cases h with
  | tan hoperand hinner => exact ⟨hoperand, hinner⟩

/-- A sum has a derivative if its term has one, and its range and loop variable do not stand in the
way.
-/
theorem differentiable_sum : Differentiable ev x depth (builtin .sum [.var k, start, stop, term]) ↔
    (k ≠ x ∧ x ∉ start.freeVars ∧ x ∉ stop.freeVars) ∧ Differentiable ev x (depth + 2) term := by
  refine ⟨fun h => ?_, fun h => .sum h.1.1 h.1.2.1 h.1.2.2 h.2⟩
  cases h with
  | sum hk hstart hstop hterm => exact ⟨⟨hk, hstart, hstop⟩, hterm⟩

omit [Scalar α] in
/-- A difference has an antiderivative if both sides have one. -/
theorem integrable_sub :
    Integrable x (binary .sub f g) ↔ Integrable x f ∧ Integrable x g := by
  refine ⟨fun h => ?_, fun h => .sub h.1 h.2⟩
  cases h with
  | sub hf hg => exact ⟨hf, hg⟩

omit [Scalar α] in
/-- A sum has an antiderivative if its term has one, and its range and loop variable do not stand in
the way. -/
theorem integrable_sum : Integrable x (builtin .sum [.var k, start, stop, term]) ↔
    (k ≠ x ∧ x ∉ start.freeVars ∧ x ∉ stop.freeVars) ∧ Integrable x term := by
  refine ⟨fun h => ?_, fun h => .sum h.1.1 h.1.2.1 h.1.2.2 h.2⟩
  cases h with
  | sum hk hstart hstop hterm => exact ⟨⟨hk, hstart, hstop⟩, hterm⟩

/-! ## Derivatives take no draws -/

omit [Scalar α] in
/-- An operator takes draws only in its operands. -/
theorem isDeterministic_binary {op : BinaryOp} {l r : Expr α} :
    (binary op l r).isDeterministic = true ↔
      l.isDeterministic = true ∧ r.isDeterministic = true := by
  rw [isDeterministic, Bool.and_eq_true]

/-- The derivative of a power by its base takes no draws, if the power takes none. -/
theorem isDeterministic_powerRule {base exponent : Expr α} (hbase : base.isDeterministic = true)
    (hexponent : exponent.isDeterministic = true) :
    (powerRule base exponent).isDeterministic = true := by
  have hpredecessor : (predecessor exponent).isDeterministic = true := by
    unfold predecessor
    split
    · rfl
    · exact isDeterministic_binary.2 ⟨hexponent, rfl⟩
  exact isDeterministic_binary.2 ⟨hexponent, isDeterministic_binary.2 ⟨hbase, hpredecessor⟩⟩

/-- The derivative of the tangent takes no draws, if its operand takes none. -/
theorem isDeterministic_tangentRule {operand : Expr α} (h : operand.isDeterministic = true) :
    (tangentRule operand).isDeterministic = true := by
  refine isDeterministic_binary.2 ⟨?_, rfl⟩
  rwa [isDeterministic]

/-- The derivative of a tree without random draws has none. -/
theorem Derived.isDeterministic (h : Derived ev x t t') (ht : t.isDeterministic = true) :
    t'.isDeterministic = true := by
  induction h with
  | const | self | var => rfl
  | sub _ _ ihf ihg =>
    obtain ⟨hf, hg⟩ := isDeterministic_binary.1 ht
    exact isDeterministic_binary.2 ⟨ihf hf, ihg hg⟩
  | div _ _ ihf ihg =>
    obtain ⟨hf, hg⟩ := isDeterministic_binary.1 ht
    exact isDeterministic_binary.2 ⟨isDeterministic_binary.2
      ⟨isDeterministic_binary.2 ⟨ihf hf, hg⟩, isDeterministic_binary.2 ⟨hf, ihg hg⟩⟩,
      isDeterministic_binary.2 ⟨hg, rfl⟩⟩
  | pow _ _ ih =>
    obtain ⟨hbase, hexponent⟩ := isDeterministic_binary.1 ht
    exact isDeterministic_binary.2 ⟨isDeterministic_powerRule hbase hexponent, ih hbase⟩
  | powOne =>
    obtain ⟨hbase, hexponent⟩ := isDeterministic_binary.1 ht
    exact isDeterministic_powerRule hbase hexponent
  | tan _ ih =>
    rw [Expr.isDeterministic] at ht
    exact isDeterministic_binary.2 ⟨ih ht, isDeterministic_tangentRule ht⟩
  | tanOne =>
    rw [Expr.isDeterministic] at ht
    exact isDeterministic_tangentRule ht
  | @sum k start stop term term' rest _ _ _ _ ih =>
    have hchild {a : Expr α} (ha : a ∈ [start, stop, term]) : a.isDeterministic = true :=
      isDeterministic_of_mem_children ht (by
        rw [children, List.mem_cons]
        exact .inr (List.mem_append_left rest ha))
    have hstart := hchild (a := start) (by simp)
    have hstop := hchild (a := stop) (by simp)
    have hterm := ih (hchild (by simp))
    simp [Expr.isDeterministic, allDeterministic, hstart, hstop, hterm, Builtin.isRandom]

/-! ## The room for derivatives -/

omit [Scalar α] in
mutual

/-- Copying a node takes two calls at most. -/
theorem copyCalls_le : (e : Expr α) → e.copyCalls ≤ 2 * e.height
  | .const .. | .var _ => by
    rw [copyCalls, height]
    omega
  | .binary _ l r => by
    have hl := copyCalls_le l
    have hr := copyCalls_le r
    rw [copyCalls, height]
    omega
  | .unary _ a => by
    have ha := copyCalls_le a
    rw [copyCalls, height]
    omega
  | .builtin _ args | .apply _ args => by
    have hargs := copyCallsOfAll_le args
    rw [copyCalls, height]
    omega

/-- So does copying a list of trees, node by node. -/
theorem copyCallsOfAll_le : (es : List (Expr α)) → copyCallsOfAll es ≤ 2 * heightOfAll es
  | [] => Nat.zero_le _
  | e :: es => by
    have he := copyCalls_le e
    have hes := copyCallsOfAll_le es
    rw [copyCallsOfAll, heightOfAll]
    omega

end

omit [Scalar α] in
/-- No tree is without nodes. -/
theorem height_pos (e : Expr α) : 0 < e.height := by
  cases e <;> simp [height]

omit [Scalar α] in
/-- A sum is higher than its range and its term. -/
theorem height_sum_ge (k : String) (start stop term : Expr α) :
    max (max start.height stop.height) term.height + 1 ≤
      (builtin .sum [.var k, start, stop, term]).height := by
  simp only [height, heightOfAll]
  omega

/-- One less than an exponent is at most one level higher. -/
theorem height_predecessor_le (e : Expr α) : (predecessor e).height ≤ e.height + 1 := by
  have hpos := height_pos e
  unfold predecessor
  split
  · exact Nat.le_add_left 1 _
  · rw [height, number, height]
    omega

/-- The derivative of a power by its base is at most three levels higher than the parts of the
power. -/
theorem height_powerRule_le (base exponent : Expr α) :
    (powerRule base exponent).height ≤ max base.height exponent.height + 3 := by
  have hpredecessor := height_predecessor_le exponent
  rw [powerRule, height, height]
  omega

/-- The derivative of the tangent is two levels higher than its operand. -/
theorem height_tangentRule (operand : Expr α) :
    (tangentRule operand).height = operand.height + 2 := by
  rw [tangentRule, height, height, number, height]
  omega

/-- The derivative of a tree is at most three times as high as the tree. -/
theorem Derived.height_le (h : Derived ev x t t') : t'.height ≤ 3 * t.height := by
  induction h with
  | const | self | var =>
    rw [number, height, height]
    omega
  | sub _ _ ihf ihg =>
    rw [height, height]
    omega
  | @div f f' g g' _ _ ihf ihg =>
    have hg := height_pos g
    simp only [quotientRule, number, height]
    omega
  | @pow base exponent inner _ _ ih =>
    have hrule := height_powerRule_le base exponent
    have hbase := height_pos base
    rw [height, height]
    omega
  | @powOne base exponent _ _ _ ih =>
    have hrule := height_powerRule_le base exponent
    have hbase := height_pos base
    rw [height]
    omega
  | @tan operand inner _ ih =>
    have hoperand := height_pos operand
    rw [height, height_tangentRule, height]
    omega
  | @tanOne operand inner _ _ ih =>
    rw [height_tangentRule, height]
    omega
  | @sum k start stop term term' rest _ _ _ _ ih =>
    simp only [height, heightOfAll]
    omega

/-! ## The domain of derivatives -/

omit [Scalar α] in
/-- The range of a sum stands in the way unless it does not depend on the variable. -/
theorem rangeError?_eq_none_iff (what : Calculus) :
    rangeError? what x start stop = none ↔ x ∉ start.freeVars ∧ x ∉ stop.freeVars := by
  refine ⟨rangeError?_eq_none, fun h => ?_⟩
  rw [rangeError?, if_neg]
  rwa [List.mem_append, not_or]

omit [Scalar α] in
/-- What is said of a range is said by an error about the derivative. -/
theorem kind_of_rangeError? {what : Calculus} {err : DerivativeError α}
    (h : rangeError? what x start stop = some err) : err.kind = .derivative := by
  unfold rangeError? at h
  dsimp only at h
  split at h
  · cases h
    rfl
  · cases h

section Summation

variable {what : Calculus} {limit : CallLimit} {P exhausts : Prop}
  (hbounds : limit.isExceeded (depth + max start.height stop.height) = true → exhausts)
  (hcopies : limit.isExceeded (depth + max start.copyCalls stop.copyCalls) = true → exhausts)
include hbounds hcopies

omit [Scalar α] in
/-- A sum is decided by its range and its term. -/
theorem Decides.summation {r : Transform α (Expr α)} (hterm : Decides r P exhausts) :
    Decides (Expr.summation limit what x depth k start stop r)
      ((k ≠ x ∧ x ∉ start.freeVars ∧ x ∉ stop.freeVars) ∧ P) exhausts := by
  unfold Expr.summation
  split
  · next hk => exact .throw rfl fun h => h.1.1 hk
  · next hk =>
    refine .within ?_ hbounds
    split
    · next hrange =>
      refine .throw (kind_of_rangeError? hrange) fun h => ?_
      rw [(rangeError?_eq_none_iff what).2 h.1.2] at hrange
      cases hrange
    · next hrange =>
      exact .within (.bind hterm (fun _ _ hP =>
        .pure _ ⟨⟨hk, (rangeError?_eq_none_iff what).1 hrange⟩, hP⟩) And.right) hcopies

omit [Scalar α] in
/-- A sum is settled by its range and its term. -/
theorem Settles.summation {r : Except (DerivativeError α) (Expr α)} (hterm : Settles r P exhausts) :
    Settles (Expr.summation limit what x depth k start stop r)
      ((k ≠ x ∧ x ∉ start.freeVars ∧ x ∉ stop.freeVars) ∧ P) exhausts := by
  unfold Expr.summation
  split
  · next hk => exact .error _ rfl rfl fun h => h.1.1 hk
  · next hk =>
    refine .within ?_ hbounds
    split
    · next hrange =>
      refine .error _ rfl (kind_of_rangeError? hrange) fun h => ?_
      rw [(rangeError?_eq_none_iff what).2 h.1.2] at hrange
      cases hrange
    · next hrange =>
      exact .within (.bind hterm (fun _ _ hP =>
        .ok _ rfl ⟨⟨hk, (rangeError?_eq_none_iff what).1 hrange⟩, hP⟩) And.right) hcopies

end Summation

omit [Scalar α] in
/-- The children of a well-formed tree are well-formed. -/
theorem WellFormed.child {a : Expr α} (h : e.WellFormed) (ha : a ∈ e.children) : a.WellFormed :=
  h.of_mem_nodes (mem_nodes_of_mem_children ha (mem_nodes_self a))

variable [LawfulDivision α]

omit [LawfulDivision α] in
/-- What has to have a value is the derivative itself. -/
theorem simplifies_iff {inner : Expr α} {made evaluated : ℕ}
    (hderive : derive ev x made e = Transform.of (.ok inner)) : Simplifies ev x made evaluated e ↔
      (inner.freeVars = [] → ∃ v n m, (ev.evalAt .empty evaluated inner).outcome n = (.ok v, m)) := by
  constructor
  · exact fun h => h 0 inner 0 (by rw [hderive, Transform.run_of])
  · intro h n e' m he'
    rw [hderive, Transform.run_of] at he'
    cases he'
    exact h

omit [Scalar α] [LawfulDivision α] in
/-- A proper failure is not that of a malformed call. -/
theorem isMalformed_eq_false {err : EvalError α} (h : err.isProper = true) :
    err.isMalformed = false := by
  cases err <;> first | rfl | cases h

/-- Whether an inner derivative is one is decided if it simplifies. -/
theorem decides_isOne {inner : Expr α} {made : ℕ} {exhausts : Prop}
    (hderive : derive ev x made e = Transform.of (.ok inner)) (hinner : inner.WellFormed)
    (hdeterministic : inner.isDeterministic = true)
    (hcalls : ev.isTooDeep (depth + 1 + inner.height) = true → exhausts) :
    Decides (isOne ev depth inner) (Simplifies ev x made (depth + 2) e) exhausts := by
  rw [simplifies_iff hderive]
  refine .within ?_ hcalls
  by_cases hclosed : inner.isClosed = true
  · have hfree := freeVars_of_isClosed hclosed
    obtain ⟨r, hr⟩ := Evaluator.exists_evalAt_eq hdeterministic ev .empty (depth + 2)
    have hproper : Proper ((ev.evalAt .empty (depth + 2) inner).outcome 0).1 :=
      hinner.proper_evalAt ev .empty (depth + 2) 0
    rw [if_pos hclosed, hr]
    rw [hr] at hproper
    cases r with
    | ok v =>
      have hvalue : inner.freeVars = [] →
          ∃ w n m, (Eval.of (.ok v) : Eval α (Value α)).outcome n = (.ok w, m) :=
        fun _ => ⟨v, 0, 0, rfl⟩
      cases v with
      | real a => exact ⟨.ok (Scalar.eq a Scalar.one), rfl, .ok _ rfl hvalue⟩
      | complex | boolean => exact ⟨.ok false, rfl, .ok _ rfl hvalue⟩
    | error err =>
      refine ⟨.error (if err.isMalformed then .malformed err else .inner err), rfl, ?_⟩
      rw [isMalformed_eq_false (hproper err rfl)]
      refine .error _ rfl rfl fun hvalue => ?_
      obtain ⟨v, n, m, hv⟩ := hvalue hfree
      cases hv
  · rw [if_neg hclosed]
    exact .pure false fun hfree => absurd (List.isEmpty_iff.2 hfree) hclosed

/-- The rules decide whether a tree has a derivative. -/
theorem decides_derive (ev : Evaluator α) (x : String) (depth : ℕ) (h : e.WellFormed)
    (hdeterministic : e.isDeterministic = true) :
    Decides (derive ev x depth e) (Differentiable ev x depth e)
      (ev.isTooDeep (depth + 3 * e.height + 1) = true) := by
  -- an inner derivative can be evaluated
  have hinner {a inner : Expr α} {made depth calls : ℕ} (ha : a.WellFormed)
      (hadeterministic : a.isDeterministic = true)
      (hderive : derive ev x made a = Transform.of (.ok inner))
      (hcalls : depth + 1 + 3 * a.height ≤ calls) :
      Decides (isOne ev depth inner) (Simplifies ev x made (depth + 2) a)
        (ev.isTooDeep calls = true) := by
    have hrun : (derive ev x made a).run.run 0 = (.ok inner, 0) := by
      rw [hderive, Transform.run_of]
    have hderived := yields_derive ev x made a 0 inner 0 hrun
    have hheight := hderived.height_le
    exact decides_isOne hderive (ha.derive ev x made 0 inner 0 hrun)
      (hderived.isDeterministic hadeterministic) (CallLimit.isExceeded_mono (by omega))
  fun_induction Expr.derive ev x depth e with
  | case1 e depth hexceeded =>
    exact .exhausted (CallLimit.isExceeded_mono (by omega) hexceeded)
  | case2 depth _ v origin => exact .pure _ (.const v origin)
  | case3 depth _ name => exact .pure _ (.var name)
  | case4 depth _ f g ihf ihg =>
    obtain ⟨hfd, hgd⟩ := isDeterministic_binary.1 hdeterministic
    rw [differentiable_sub, height]
    cases h with
    | binary _ hfw hgw =>
      exact .both ((ihf hfw hfd).mono (CallLimit.isExceeded_mono (by omega)))
        ((ihg hgw hgd).mono (CallLimit.isExceeded_mono (by omega))) (binary .sub)
  | case5 depth _ f g ihf ihg =>
    obtain ⟨hfd, hgd⟩ := isDeterministic_binary.1 hdeterministic
    have hfcopy := copyCalls_le f
    have hgcopy := copyCalls_le g
    rw [differentiable_div, height]
    cases h with
    | binary _ hfw hgw =>
      exact .both ((ihf hfw hfd).mono (CallLimit.isExceeded_mono (by omega)))
        (.within ((ihg hgw hgd).mono (CallLimit.isExceeded_mono (by omega)))
          (CallLimit.isExceeded_mono (by omega))) fun f' g' => quotientRule f f' g g'
  | case6 depth _ base exponent ih =>
    obtain ⟨hbased, -⟩ := isDeterministic_binary.1 hdeterministic
    have hbasecopy := copyCalls_le base
    have hexponentcopy := copyCalls_le exponent
    rw [differentiable_pow, height]
    refine .within ?_ (CallLimit.isExceeded_mono (by omega))
    split
    · next hclosed =>
      have hfree := freeVars_of_isClosed hclosed
      refine .within ?_ (CallLimit.isExceeded_mono (by omega))
      cases h with
      | binary _ hbasew _ =>
        refine .bind ((ih hbasew hbased).mono (CallLimit.isExceeded_mono (by omega)))
          (fun inner hderive hbase => .bind (hinner hbasew hbased hderive (by omega))
            (fun found _ hsimplifies => ?_) (·.2.2)) (·.2.1)
        cases found <;> exact .pure _ ⟨hfree, hbase, hsimplifies⟩
    · next hopen => exact .throw rfl fun hdomain => hopen (List.isEmpty_iff.2 hdomain.1)
  | case7 depth _ operand ih =>
    have hoperandd : operand.isDeterministic = true := by
      rwa [isDeterministic] at hdeterministic
    have hoperandcopy := copyCalls_le operand
    rw [differentiable_tan, height]
    refine .within ?_ (CallLimit.isExceeded_mono (by omega))
    cases h with
    | unary _ hoperandw =>
      refine .bind ((ih hoperandw hoperandd).mono (CallLimit.isExceeded_mono (by omega)))
        (fun inner hderive hoperand => .bind (hinner hoperandw hoperandd hderive (by omega))
          (fun found _ hsimplifies => ?_) And.right) And.left
      cases found <;> exact .pure _ ⟨hoperand, hsimplifies⟩
  | case8 depth _ k start stop term rest ih =>
    obtain ⟨k', start', stop', term', hargs⟩ := (wellFormed_iff_follows.1 h).series_args rfl
    cases hargs
    have hterm : term ∈ (builtin .sum [.var k, start, stop, term]).children := by simp [children]
    have hstartcopy := copyCalls_le start
    have hstopcopy := copyCalls_le stop
    have hheight := height_sum_ge k start stop term
    rw [differentiable_sum]
    exact .summation (CallLimit.isExceeded_mono (by omega)) (CallLimit.isExceeded_mono (by omega))
      ((ih (h.child hterm) (isDeterministic_of_mem_children hdeterministic hterm)).mono
        (CallLimit.isExceeded_mono (by omega)))
  | case9 depth _ args hargs =>
    obtain ⟨k, start, stop, term, rfl⟩ := (wellFormed_iff_follows.1 h).series_args rfl
    exact absurd rfl (hargs k start stop term [])
  | case10 depth e _ hconst hvar hsub hdiv hpow htan hsum =>
    refine .throw rfl ?_
    intro hdomain
    cases hdomain with
    | const => exact hconst _ _ rfl
    | var => exact hvar _ rfl
    | sub => exact hsub _ _ rfl
    | div => exact hdiv _ _ rfl
    | pow => exact hpow _ _ rfl
    | tan => exact htan _ rfl
    | sum => exact hsum _ _ _ _ _ rfl

/-! ## The domain of antiderivatives -/

omit [LawfulDivision α] in
/-- The rules decide whether a tree has an antiderivative. -/
theorem settles_integrate (limit : CallLimit) (x : String) (depth : ℕ) (h : e.WellFormed) :
    Settles (integrate limit x depth e) (Integrable x e)
      (limit.isExceeded (depth + 2 * e.height) = true) := by
  fun_induction Expr.integrate limit x depth e with
  | case1 e depth hexceeded =>
    have hpos := height_pos e
    exact .exhausted rfl (CallLimit.isExceeded_mono (by omega) hexceeded)
  | case2 depth _ v origin => exact .ok _ rfl (.const v origin)
  | case3 depth _ name => exact .ok _ rfl (.var name)
  | case4 depth _ f g ihf ihg =>
    rw [integrable_sub, height]
    cases h with
    | binary _ hf hg =>
      exact .both ((ihf hf).mono (CallLimit.isExceeded_mono (by omega)))
        ((ihg hg).mono (CallLimit.isExceeded_mono (by omega))) (binary .sub)
  | case5 depth _ k start stop term rest ih =>
    obtain ⟨k', start', stop', term', hargs⟩ := (wellFormed_iff_follows.1 h).series_args rfl
    cases hargs
    have hterm : term ∈ (builtin .sum [.var k, start, stop, term]).children := by simp [children]
    have hstartcopy := copyCalls_le start
    have hstopcopy := copyCalls_le stop
    have hheight := height_sum_ge k start stop term
    rw [integrable_sum]
    exact .summation (CallLimit.isExceeded_mono (by omega)) (CallLimit.isExceeded_mono (by omega))
      ((ih (h.child hterm)).mono (CallLimit.isExceeded_mono (by omega)))
  | case6 depth _ args hargs =>
    obtain ⟨k, start, stop, term, rfl⟩ := (wellFormed_iff_follows.1 h).series_args rfl
    exact absurd rfl (hargs k start stop term [])
  | case7 depth e _ hconst hvar hsub hsum =>
    refine .error _ rfl rfl ?_
    intro hdomain
    cases hdomain with
    | const => exact hconst _ _ rfl
    | var => exact hvar _ rfl
    | sub => exact hsub _ _ rfl
    | sum => exact hsum _ _ _ _ _ rfl

end Domain

end Formulary.Expr
