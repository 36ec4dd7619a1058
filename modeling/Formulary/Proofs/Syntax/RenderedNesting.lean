import Formulary.Proofs.Syntax.RoundTrip

/-!
# The nesting of rendered formulas

The nesting of a text depends on how it is written, and rendering has a spelling of its own. It puts
the operand of every function in brackets, which are a level themselves (`sinx` becomes `sin(x)`),
and an imaginary constant too; and behind an operator of logic it puts brackets around a `!`, which
the parser reads without them (`!!a` becomes `!(!a)`). So the rendered text can have more levels
than the text that the tree was read from, and a limit that allows the one may refuse the other
(`Language.parse_rendered_too_deep`).

What is added is bounded: a level for each level there was, one for a constant, and one for each `!`
on the way to it (`Language.nesting_le_of_parse`). There is nothing else that the limit could refuse
the rendered text for, so it is read where the limit allows as many levels as it has
(`Language.parse_render_of_nesting`).
-/

namespace Formulary

open Grammar

namespace Expr

mutual

/-- The largest number of `!` on the way from the root of a tree to a leaf. -/
def negations : Expr Float → ℕ
  | const .. | var _ => 0
  | binary _ l r => max l.negations r.negations
  | unary f x => x.negations + if f = .not then 1 else 0
  | builtin _ args => negationsAll args
  | apply _ args => negationsAll args

/-- The largest number of any of several trees. -/
def negationsAll : List (Expr Float) → ℕ
  | [] => 0
  | e :: es => max e.negations (negationsAll es)

end

/-- The levels of nesting that the tree has in a place for operators from some rank on, where a
looser one needs brackets. -/
def nestingFrom (rank : ℕ) (t : Expr Float) : ℕ :=
  t.nesting + if t.level.rank < rank then 1 else 0

theorem nestingFrom_mono {rank rank' : ℕ} (h : rank ≤ rank') (t : Expr Float) :
    t.nestingFrom rank ≤ t.nestingFrom rank' := by
  unfold nestingFrom
  split <;> split <;> omega

/-- An operand has as many levels as its place asks for. -/
theorem nesting_binary_lt {op : BinaryOp} {l r : Expr Float} {bound : ℕ}
    (hl : l.nestingFrom op.level.rank < bound) (hr : r.nestingFrom (op.level.rank + 1) < bound) :
    (binary op l r).nesting < bound := by
  rw [nesting]
  simp only [nestingFrom, Nat.lt_succ_iff] at hl hr
  omega

theorem nestingAll_lt {es : List (Expr Float)} {bound : ℕ}
    (h : ∀ e ∈ es, e.nesting < bound + e.negations) :
    nestingAll es < bound + 1 + negationsAll es := by
  induction es with
  | nil => simp [nestingAll, negationsAll]
  | cons e es ih =>
    have hfirst := h e (by simp)
    have hrest := ih fun e he => h e (by simp [he])
    rw [nestingAll, negationsAll]
    omega

end Expr

theorem Value.nesting_le (v : Value Float) : v.nesting ≤ 1 := by
  cases v with
  | boolean b => exact Nat.zero_le _
  | real x =>
    rw [nesting]
    split <;> omega
  | complex z => exact Nat.le_refl _

namespace Grammar

variable {lang : Language} {level : Level} {A P : List Char → Expr Float → Prop} {s : List Char}
  {t : Expr Float} {bound levels : ℕ}

/-! ## Operators -/

/-- Joining parts adds no more levels than the parts have behind an operator. -/
theorem Joined.nestingFrom_lt (h : Joined level P s t)
    (hpart : ∀ u v, P u v → v.nestingFrom (level.rank + 1) < bound + v.negations) :
    t.nestingFrom level.rank < bound + t.negations := by
  induction h with
  | @part s t h =>
    exact Nat.lt_of_le_of_lt (t.nestingFrom_mono (Nat.le_succ _)) (hpart _ _ h)
  | @minus s t hlevel h =>
    subst hlevel
    have ht : t.nestingFrom 3 < bound + t.negations := hpart _ _ h
    simp only [Expr.nestingFrom, Nat.lt_succ_iff] at ht ⊢
    exact ht
  | @join l r a b op hop hl hr ih =>
    subst hop
    have hb := hpart _ _ hr
    have hjoined : (Expr.binary op a b).nesting < bound + max a.negations b.negations :=
      Expr.nesting_binary_lt (by omega) (by omega)
    simpa [Expr.nestingFrom, Expr.level, Expr.negations] using hjoined

/-- A `!` may add a level for the brackets behind it. -/
theorem Negated.nestingFrom_lt (h : Negated P s t)
    (hpart : ∀ u v, P u v → v.nestingFrom 2 < bound + v.negations) :
    t.nestingFrom 2 < bound + t.negations := by
  induction h with
  | part _ h => exact hpart _ _ h
  | @not s t h ih =>
    have hnesting : (Expr.unary .not t).nesting = t.nestingFrom 2 := by
      simp only [Expr.nestingFrom, Nat.lt_succ_iff]
      rfl
    have hbehind : (Expr.unary .not t).nestingFrom 2 = (Expr.unary .not t).nesting + 1 := rfl
    have hnegations : (Expr.unary .not t).negations = t.negations + 1 := rfl
    omega

/-- The levels of a formula are those of its atoms behind an operator. -/
theorem Logic.nesting_lt (h : Logic A s t)
    (hA : ∀ u v, A u v → v.nestingFrom 5 < bound + v.negations) :
    t.nesting < bound + t.negations := by
  have hlogic := Joined.nestingFrom_lt h fun u v h => Negated.nestingFrom_lt h fun u v h =>
    Joined.nestingFrom_lt h fun u v h => Joined.nestingFrom_lt h fun u v h =>
      Joined.nestingFrom_lt h hA
  exact Nat.lt_of_le_of_lt (Nat.le_add_right _ _) hlogic

/-- An atom with `!` in front has no more levels than a formula. -/
theorem Negated.nesting_lt (h : Negated A s t)
    (hA : ∀ u v, A u v → v.nestingFrom 5 < bound + v.negations) :
    t.nesting < bound + t.negations := Logic.nesting_lt (.of_negated h) hA

/-! ## Atoms -/

/-- A level of the parser is two levels of the rendered text at most. -/
theorem AtomOver.nestingFrom_lt (h : AtomOver lang A s t)
    (hA : ∀ u v, A u v → v.nestingFrom 5 < bound + v.negations) :
    t.nestingFrom 5 < bound + 2 + t.negations := by
  have hconst : ∀ v : Value Float, (Expr.const v).nestingFrom 5 ≤ 1 := fun v => v.nesting_le
  have hall : ∀ texts args, List.Forall₂ (Logic A) texts args →
      Expr.nestingAll args < bound + 1 + Expr.negationsAll args := fun texts args hargs =>
    Expr.nestingAll_lt (forall_mem_of_forall₂ hargs fun _ _ _ h => h.nesting_lt hA)
  cases h with
  | wrapped b h =>
    have ht := h.nesting_lt hA
    unfold Expr.nestingFrom
    split <;> omega
  | @function s t f hname h =>
    have ht := h.nesting_lt hA
    have hlevels : Expr.unaryLevels f t.level + (if f.level.rank < 5 then 1 else 0) ≤ 2 := by
      by_cases hneg : f = .neg
      · subst hneg
        show (if t.level.rank ≤ Level.sum.rank then 1 else 0) + 1 ≤ 2
        split <;> omega
      · obtain ⟨-, hlevel, hlevels⟩ := Expr.renderUnary_of_ne hneg hname.ne_not "" t.level
        rw [hlevel, hlevels]
        exact Nat.le_refl 2
    rw [Expr.nestingFrom, Expr.nesting, Expr.negations, Expr.level]
    omega
  | builtin f hf hseparated hargs harity hloop =>
    have := hall _ _ hargs
    show Expr.nestingAll _ < bound + 2 + Expr.negationsAll _
    omega
  | apply d hwrapped hfunction hbuiltin hd hbare hseparated hargs harity =>
    have := hall _ _ hargs
    show Expr.nestingAll _ < bound + 2 + Expr.negationsAll _
    omega
  | constant | number | imaginary => exact Nat.lt_of_le_of_lt (hconst _) (by omega)
  | «variable» => exact Nat.lt_of_lt_of_le Nat.two_pos (by omega)

theorem AtomWithin.nestingFrom_lt (h : AtomWithin lang levels s t) :
    t.nestingFrom 5 < 2 * levels + t.negations := by
  induction levels generalizing s t with
  | zero => cases h
  | succ levels ih => exact AtomOver.nestingFrom_lt h fun u v hA => ih hA

end Grammar

namespace Language

/-- The text that a tree is rendered as has at most twice as many levels as the text that it was
read from, one more for a constant and one for each `!`. -/
theorem nesting_le_of_parse {lang : Language} (hmarks : lang.format.HasPlainMarks) {text : String}
    {t : Expr Float} (h : lang.parse text = .ok t) :
    (t.nesting : Int) ≤ 2 * lang.maxDepth + 1 + t.negations := by
  have hlogic := within_of_parse hmarks h
  have hpos : 0 < lang.levels := by
    refine Nat.pos_of_ne_zero fun hzero => ?_
    obtain ⟨u, v, hA⟩ := (hzero ▸ hlogic).exists_atom
    cases hA
  have hnesting := hlogic.nesting_lt fun u v hA => hA.nestingFrom_lt
  unfold levels at hpos hnesting
  omega

/-- The text that a tree is rendered as is read, as the widened tree, where the limit of nesting
allows as many levels as it has. These are at most twice as many as the limit that the tree was read
with, one more for a constant and one for each `!`. -/
theorem parse_render_of_nesting (lang : Language) (hmarks : lang.format.HasPlainMarks)
    (hpending : lang.maxPending = none) (hregistry : lang.registry.Defined) (text : String)
    (t : Expr Float) (hparse : lang.parse text = .ok t)
    (hfinite : ∀ x ∈ t.numbers, Binary64.isFinite x = true) :
    (t.nesting : Int) ≤ 2 * lang.maxDepth + 1 + t.negations ∧
      ∀ depth : Int, (t.nesting : Int) ≤ depth →
        { lang with maxDepth := depth }.parse (t.render lang.format) = .ok t.widened := by
  have hreadable : Readable lang t := (formula_of_parse hmarks hparse).readable
  refine ⟨nesting_le_of_parse hmarks hparse, fun depth hdepth => ?_⟩
  have hraised : Readable { lang with maxDepth := depth } t := hreadable.of_registry rfl
  have hwritable : t.Follows ({ lang with maxDepth := depth } : Language).writable :=
    hraised.writable hregistry.isName hfinite
  rw [← hreadable.respelled_eq]
  exact hwritable.parse_rendered hmarks hpending hregistry hdepth

/-- One level becomes three: the operand of the function gets brackets, and so does the constant. -/
theorem parse_render_of_nesting_sine :
    ({ maxDepth := 3, maxPending := none } : Language).parse "sin((0+2i))" =
      .ok (.unary .sin (.binary .add (.const (.real 0.0)) (.const (.complex ⟨0.0, 2.0⟩)))) := by
  have hlonger : ∀ g ∈ UnaryOp.all, g ≠ .not → g.name.toList <+: "sin2i".toList →
      g.name.length ≤ UnaryOp.sin.name.length := by decide
  have hname : LongestName .sin (UnaryOp.sin.name.toList ++ ['2', 'i']) :=
    ⟨by decide, by decide, fun g => hlonger g (UnaryOp.mem_all g)⟩
  have hi : AtomWithin { maxDepth := 1, maxPending := none } 1 ['2', 'i']
      (.const (.complex ⟨0.0, 2.0⟩)) :=
    AtomOver.imaginary (s := ['2']) ⟨not_wrapped_of_head (by decide), by decide, by decide, by decide⟩
      (.outside (by decide) (by decide) .nil) rfl
  have hsine : AtomWithin { maxDepth := 1, maxPending := none } 2
      (UnaryOp.sin.name.toList ++ ['2', 'i']) (.unary .sin (.const (.complex ⟨0.0, 2.0⟩))) :=
    AtomOver.function .sin hname (.part (by decide) hi)
  have hparse : ({ maxDepth := 1, maxPending := none } : Language).parse "sin 2i" = .ok _ :=
    parse_of_within NumberFormat.hasPlainMarks_standard rfl
      (.part (.part (by decide) (.part (.part (.part hsine)))))
  have hrender : (Expr.unary .sin (.const (.complex ⟨0.0, 2.0⟩))).render .standard =
      "sin((0+2i))" := by decide +kernel
  rw [← hrender]
  exact (parse_render_of_nesting { maxDepth := 1, maxPending := none }
    NumberFormat.hasPlainMarks_standard rfl .empty "sin 2i" _ hparse (by decide)).2 3 (by decide)

/-- A limit of one level allows three `!` in a row, but not the brackets that they are rendered
with. -/
theorem parse_rendered_too_deep :
    ({ maxDepth := 1, maxPending := none } : Language).parse "!!!true" =
        .ok (.unary .not (.unary .not (.unary .not (.const (.boolean true))))) ∧
      (Expr.unary .not (.unary .not (.unary .not (.const (.boolean true))))).render .standard =
        "!(!(!true))" ∧
      ({ maxDepth := 1, maxPending := none } : Language).parse "!(!(!true))" =
        .error (.tooDeep 1 4) := by
  have htrue : AtomWithin { maxDepth := 1, maxPending := none } 2 "true".toList
      (.const (.boolean true)) :=
    AtomOver.constant ⟨not_wrapped_of_head (by decide), by decide, by decide, by decide⟩ rfl
  refine ⟨parse_of_within NumberFormat.hasPlainMarks_standard rfl ?_, by decide +kernel, rfl⟩
  exact .part (.not (.not (.not (.part (by decide) (.part (.part (.part htrue)))))))

end Language

end Formulary
