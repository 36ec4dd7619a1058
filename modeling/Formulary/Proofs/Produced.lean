import Formulary.Proofs.Evaluation.Respelling
import Formulary.Proofs.Syntax.RoundTrip

/-!
# Writing the trees of an engine

An engine reads a tree and transforms it: folding, derivatives and antiderivatives may follow one
another in any order, and put constants into the tree that no formula has. A tree is `Produced` by a
language if it comes about like that.

The names in such a tree are those that were read (`Produced.follows`), so the tree can be written
if its constants can: where numbers are finite and no registered function captures `true` or
`false`, the text is read. It is read as the tree with its constants respelled, which has the
outcomes of the tree if the complex constants keep their zeros (`Produced.reads_back`).
-/

open Formulary.Expr Formulary.Grammar

namespace Formulary

/-- The trees that come from reading a formula of a language by transformations. What is evaluated
on the way, with any limits, any draws and any number of pending calls, uses the same scalars, and
antiderivatives are by names that the language reads as variables. -/
inductive Produced (scalar : Scalar Float) (lang : Language) : Expr Float → Prop where
  | parse {text : String} {t : Expr Float} (h : lang.parse text = .ok t) : Produced scalar lang t
  | optimize {t : Expr Float} (h : Produced scalar lang t) (ev : Evaluator Float) (drawn : Nat) :
      Produced scalar lang ((Folding.run ev t).run drawn).1.tree
  | derive {t t' : Expr Float} (h : Produced scalar lang t) (ev : Evaluator Float) (x : String)
      (depth drawn drawn' : Nat) (ht' : (t.derive ev x depth).run.run drawn = (.ok t', drawn')) :
      Produced scalar lang t'
  | integrate {t t' : Expr Float} (h : Produced scalar lang t) (limit : CallLimit) (x : String)
      (depth : Nat) (hx : lang.parse x = .ok (.var x)) (ht' : t.integrate limit x depth = .ok t') :
      Produced scalar lang t'

variable {scalar : Scalar Float} {lang : Language} {t : Expr Float}

/-- The names of a tree that is read are read as what they are. -/
theorem Language.named_of_parse (hmarks : lang.format.HasPlainMarks)
    (hregistry : lang.registry.Defined) {text : String} (h : lang.parse text = .ok t) :
    t.Follows (lang.named fun _ => True) :=
  (((formula_of_parse hmarks h).readable).follows hregistry.isName).mono (fun _ _ => trivial)
    (fun _ => id) fun _ => id

/-- The names of a produced tree are read as what they are. -/
theorem Produced.follows (hmarks : lang.format.HasPlainMarks) (hregistry : lang.registry.Defined)
    (h : Produced scalar lang t) : t.Follows (lang.named fun _ => True) := by
  have hany : ∀ v, (lang.named fun _ => True).const v := fun _ => trivial
  induction h with
  | parse h => exact Language.named_of_parse hmarks hregistry h
  | optimize _ ev drawn ih => exact ih.run hany ev drawn
  | derive _ ev x depth drawn drawn' ht' ih => exact ih.derive hany ev x depth drawn _ drawn' ht'
  | integrate _ limit x depth hx ht' ih =>
    have hvar := Language.named_of_parse hmarks hregistry hx
    cases hvar with
    | var hname => exact ih.integrate hany hname ht'

/-- Folding makes a constant of a foldable tree with a finite value. -/
theorem Produced.const_of_value {lib : ElementaryLibrary} (h : Produced lib.scalar lang t)
    {v : Value Float} (ev : Evaluator Float) (hconst : t.isConst = false)
    (hfoldable : t.isFoldable = true)
    (hv : letI := lib.scalar; ev.evalAt .empty 5 t = pure v)
    (hfinite : letI := lib.scalar; v.isFinite = true) : Produced lib.scalar lang (.const v) := by
  let _ := lib.scalar
  have hfolded := h.optimize ev 0
  rwa [Folding.run_of_value ev hconst hfoldable hv hfinite] at hfolded

/-- A truth value is read as what it is if its word does not begin like a registered name. -/
theorem Grammar.unprefixed_booleanText {b : Bool}
    (h : lang.registry.lookup? (Value.booleanText b).toList = none) :
    Unprefixed lang (Value.booleanText b).toList := by
  cases b with
  | true => exact ⟨not_wrapped_of_head (by decide), by decide, by decide, h⟩
  | false => exact ⟨not_wrapped_of_head (by decide), by decide, by decide, h⟩

/-- The text of a produced tree is read, where the limit of nesting allows as many levels as it has,
if its numbers are finite and its truth values are not captured by the name of a registered
function. It is read as the tree with its constants respelled, which has the outcomes of the tree in
every scope and for all draws, up to the limit of depth that an evaluator may have, if the complex
constants keep their zeros. -/
theorem Produced.reads_back (lib : ElementaryLibrary) (hmarks : lang.format.HasPlainMarks)
    (hregistry : lang.registry.Defined) (h : Produced lib.scalar lang t)
    (hfinite : ∀ x ∈ t.numbers, Binary64.isFinite x = true)
    (hwords : ∀ b origin, .const (.boolean b) origin ∈ t.nodes →
      lang.registry.lookup? (Value.booleanText b).toList = none)
    (depth : Int) (hdepth : (t.nesting : Int) ≤ depth) :
    letI := lib.scalar
    { lang with maxDepth := depth, maxPending := none }.parse (t.render lang.format) =
        .ok t.respelled ∧
      ((∀ z origin, .const (.complex z) origin ∈ t.nodes → z.KeepsZeros) →
        ∀ (ev : Evaluator Float) (scope : Scope Float) (n : Nat),
          (ev.IsLimited ∧ ((ev.evaluate scope t.respelled).outcome n).1 = .error .tooDeep) ∨
            (ev.evaluate scope t.respelled).outcome n = (ev.evaluate scope t).outcome n) := by
  let _ := lib.scalar
  have hnamed := h.follows hmarks hregistry
  have hnumbers : ∀ v origin, .const v origin ∈ t.nodes →
      ∀ x ∈ v.numbers, Binary64.isFinite x = true :=
    fun v origin hv x hx => hfinite x (Expr.mem_numbers.2 ⟨v, origin, hv, hx⟩)
  constructor
  · have hraised : t.Follows
        ({ lang with maxDepth := depth, maxPending := none } : Language).writable := by
      refine hnamed.narrow (fun v origin hv _ => ⟨hnumbers v origin hv, ?_⟩)
        (fun name hname => ⟨hname.1.of_registry rfl, hname.2⟩) fun _ => id
      rintro b rfl
      exact (unprefixed_booleanText (hwords b origin hv)).of_registry rfl
    exact hraised.parse_rendered hmarks rfl hregistry hdepth
  · intro hzeros ev scope n
    have hrecoverable : t.Follows recoverable := by
      refine hnamed.narrow (fun v origin hv _ => ⟨hnumbers v origin hv, ?_⟩) (fun _ _ => trivial)
        fun _ _ => trivial
      rintro z rfl
      exact hzeros z origin hv
    exact (hrecoverable.refines_respelled lib ev).within scope 2 n

/-! ## A sum and its opposite -/

section Opposite

variable {b : Char} {y : Float}

/-- `-(4+bi)` for a digit `b`. -/
theorem formula_opposite (hb : Unprefixed { maxPending := none } [b, 'i']) (hbare : Bare [b])
    (hy : NumberFormat.standard.read [b] = .ok y) :
    Formula { maxPending := none } ("-(4+".toList ++ [b, 'i', ')'])
      (.unary .neg (.binary .add (.const (.real 4.0)) (.const (.complex ⟨0.0, y⟩)))) := by
  have hfour : Atom { maxPending := none } ['4'] (.const (.real 4.0)) :=
    .number ⟨not_wrapped_of_head (by decide), by decide, by decide, by decide⟩
      (.outside (by decide) (by decide) .nil) rfl
  have hi : Atom { maxPending := none } [b, 'i'] (.const (.complex ⟨0.0, y⟩)) :=
    .imaginary (s := [b]) hb hbare hy
  have hsum : Atom { maxPending := none } ("(4+".toList ++ [b, 'i', ')'])
      (.binary .add (.const (.real 4.0)) (.const (.complex ⟨0.0, y⟩))) :=
    .wrapped .round (.mk (.part (.part (by simp)
      (.join .add rfl (.part (.part (.part hfour))) (.part (.part hi))))))
  exact .mk (.part (.part (by simp) (.minus rfl (.part (.part hsum)))))

end Opposite

/-- The opposite of `4+2i`, folded, has a text that is read as a difference. -/
theorem Produced.reads_back_opposite :
    letI := ElementaryLibrary.platform.scalar
    let lang : Language := { maxPending := none }
    let t : Expr Float := .const (.complex ⟨-4.0, -2.0⟩)
    Produced ElementaryLibrary.platform.scalar lang t ∧
      { lang with maxDepth := 1 }.parse "(-4-2i)" = .ok
        (.binary .sub (.unary .neg (.const (.real 4.0))) (.const (.complex ⟨0.0, 2.0⟩))) ∧
      ∀ (ev : Evaluator Float) (scope : Scope Float) (n : Nat),
        (ev.IsLimited ∧ ((ev.evaluate scope t.respelled).outcome n).1 = .error .tooDeep) ∨
          (ev.evaluate scope t.respelled).outcome n = (ev.evaluate scope t).outcome n := by
  intro lang t
  have hparse : lang.parse "-(4+2i)" = .ok _ :=
    Language.parse_of_formula NumberFormat.hasPlainMarks_standard rfl (by decide)
      (formula_opposite (b := '2') (y := 2.0)
        ⟨not_wrapped_of_head (by decide), by decide, by decide, by decide⟩
        (.outside (by decide) (by decide) .nil) rfl)
  have ht : Produced ElementaryLibrary.platform.scalar lang t :=
    (Produced.parse hparse).const_of_value { draw := fun _ => 0.5 } rfl rfl rfl (by decide)
  have hrender : t.render .standard = "(-4-2i)" := by decide +kernel
  have h := Produced.reads_back .platform NumberFormat.hasPlainMarks_standard .empty ht
    (by decide) (by simp [t, nodes]) 1 (by decide)
  refine ⟨ht, ?_, h.2 ?_⟩
  · rw [← hrender]
    exact h.1
  · intro z origin hz
    obtain ⟨rfl, -⟩ : z = ⟨-4.0, -2.0⟩ ∧ origin = none := by simpa [t, nodes] using hz
    decide

/-- The opposite of `4+0i` has a negative zero, and the text that it is written as has a positive
one. -/
theorem Produced.negative_zero_lost :
    letI := ElementaryLibrary.platform.scalar
    let lang : Language := { maxPending := none }
    let ev : Evaluator Float := { draw := fun _ => 0.5 }
    let t : Expr Float := .const (.complex ⟨-4.0, -0.0⟩)
    Produced ElementaryLibrary.platform.scalar lang t ∧ t.render lang.format = "(-4-0i)" ∧
      lang.parse "(-4-0i)" = .ok t.respelled ∧
      (ev.evaluate .empty t).outcome 0 = (.ok (.complex ⟨-4.0, -0.0⟩), 0) ∧
      (ev.evaluate .empty t.respelled).outcome 0 = (.ok (.complex ⟨-4.0, 0.0⟩), 0) ∧
      Binary64.isNegative (-0.0) = true ∧ Binary64.isNegative 0.0 = false := by
  intro lang ev t
  have hparse : lang.parse "-(4+0i)" = .ok _ :=
    Language.parse_of_formula NumberFormat.hasPlainMarks_standard rfl (by decide)
      (formula_opposite (b := '0') (y := 0.0)
        ⟨not_wrapped_of_head (by decide), by decide, by decide, by decide⟩
        (.outside (by decide) (by decide) .nil) rfl)
  have ht : Produced ElementaryLibrary.platform.scalar lang t :=
    (Produced.parse hparse).const_of_value { draw := fun _ => 0.5 } rfl rfl rfl (by decide)
  have hrender : t.render lang.format = "(-4-0i)" := by decide +kernel
  have hconst : lang.writable.const (.complex ⟨-4.0, -0.0⟩) := ⟨by decide, nofun⟩
  have hwritable : t.Follows lang.writable := .const hconst none
  refine ⟨ht, hrender, ?_, rfl, rfl, by decide, by decide⟩
  rw [← hrender]
  exact hwritable.parse_rendered NumberFormat.hasPlainMarks_standard rfl .empty (by decide)

end Formulary
