import Formulary.Proofs.Engine
import Formulary.Proofs.Syntax.Sums
import Formulary.Proofs.Syntax.Writing

/-!
# Reading rendered formulas

A tree that was read is rendered as a text that is read as the same tree, with its imaginary
constants as sums (`Expr.widened`): such a tree can be written (`Readable.writable`), and as its
numbers have no signs, there is nothing else that it is respelled with.

There may be no room to render a tree that was read and can be evaluated
(`Engine.exhausted_render_sum`).
-/

namespace Formulary

open Grammar

namespace Grammar

variable {lang : Language} {t : Expr Float}

/-- The names of a readable tree are read as what they are, and so are its constants. -/
theorem Readable.follows
    (hnames : ∀ d ∈ lang.registry.definitions, Syntax.isName d.name.toList = true)
    (h : Readable lang t) : t.Follows (lang.named fun v => Readable lang (.const v)) := by
  induction h with
  | boolean hs =>
    refine .const ?_ none
    exact Readable.boolean hs
  | real hx =>
    refine .const ?_ none
    exact Readable.real hx
  | imaginary hx =>
    refine .const ?_ none
    exact Readable.imaginary hx
  | «variable» hs hconstant hname =>
    refine .var ?_
    show Unprefixed lang (String.ofList _).toList ∧ _
    rw [String.toList_ofList]
    exact ⟨hs, hconstant, hname⟩
  | binary op _ _ ihl ihr => exact .binary op ihl ihr
  | unary f _ ih => exact .unary f ih
  | builtin f hf harity hloop _ ih => exact .builtin hf harity hloop ih
  | apply d hfunction hbuiltin hd harity _ ih =>
    exact .apply ⟨noFunction_call hfunction, noBuiltin_call hbuiltin,
      (lookup?_call hnames).trans hd⟩ harity ih

/-- A readable tree with finite numbers can be written. -/
theorem Readable.writable
    (hnames : ∀ d ∈ lang.registry.definitions, Syntax.isName d.name.toList = true)
    (h : Readable lang t) (hfinite : ∀ x ∈ t.numbers, Binary64.isFinite x = true) :
    t.Follows lang.writable := by
  refine (h.follows hnames).narrow (fun v origin hv hread => ⟨fun x hx => ?_, ?_⟩) (fun _ => id)
    fun _ => id
  · exact hfinite x (Expr.mem_numbers.2 ⟨v, origin, hv, hx⟩)
  · rintro b rfl
    cases hread with
    | boolean hs => exact hs

/-- Without signs, only imaginary constants are respelled. -/
theorem Readable.respelled_eq (h : Readable lang t) : t.respelled = t.widened := by
  have hnumber : ∀ {x : Float}, Binary64.isNegative x = false →
      signedNumber x = .const (.real x) := fun hx => by rw [signedNumber, hx]; rfl
  induction h with
  | boolean | «variable» => rfl
  | real hx => exact hnumber hx
  | @imaginary x hx =>
    have hzero : Binary64.isNegative 0.0 = false := by decide
    rw [Expr.respelled, Value.respelled, hnumber hzero, Binary64.unsigned_of_not_isNegative hx, hx]
    rfl
  | binary op _ _ ihl ihr => rw [Expr.respelled, Expr.widened, ihl, ihr]
  | unary f _ ih => rw [Expr.respelled, Expr.widened, ih]
  | builtin f _ _ _ _ ih =>
    rw [Expr.respelled, Expr.widened, Expr.respelledAll_eq, Expr.widenedAll_eq,
      List.map_congr_left ih]
  | apply d _ _ _ _ _ ih =>
    rw [Expr.respelled, Expr.widened, Expr.respelledAll_eq, Expr.widenedAll_eq,
      List.map_congr_left ih]

end Grammar

/-- Without a limit of nesting, the text of a readable tree is read as its widened tree. -/
theorem Grammar.Readable.parse_rendered {lang : Language} {t : Expr Float} (h : Readable lang t)
    (hmarks : lang.format.HasPlainMarks) (hpending : lang.maxPending = none)
    (hregistry : lang.registry.Defined)
    (hfinite : ∀ x ∈ t.numbers, Binary64.isFinite x = true)
    (hdepth : ((t.render lang.format).length : Int) ≤ lang.maxDepth) :
    lang.parse (t.render lang.format) = .ok t.widened := by
  have hwritable := h.writable hregistry.isName hfinite
  have hspells := hwritable.spells hmarks hregistry.isName
  rw [h.respelled_eq] at hspells
  refine Language.parse_of_formula hmarks hpending ?_ ?_
  · rw [hspells.compact_eq, String.length_toList]
    exact hdepth
  · rw [hspells.compact_eq]
    exact formula_of_logic (fun _ _ hA => hA.atom) hspells.logic

namespace Language

/-- Render, then read: where nesting is not limited, the text of a tree that was read is read as its
widened tree, which has the outcomes of the tree in every scope and for all draws, unless it is too
deep to evaluate. -/
theorem parse_render (lang : Language) (hmarks : lang.format.HasPlainMarks)
    (hregistry : lang.registry.Defined) (text : String) (t : Expr Float)
    (hparse : lang.parse text = .ok t)
    (hfinite : ∀ x ∈ t.numbers, Binary64.isFinite x = true)
    (depth : Int) (hdepth : ((t.render lang.format).length : Int) ≤ depth) :
    { lang with maxDepth := depth, maxPending := none }.parse (t.render lang.format) =
        .ok t.widened ∧
      ∀ (ev : Evaluator Float) (scope : Scope Float) (n : Nat),
        (ev.IsLimited ∧ ((ev.evaluate scope t.widened).outcome n).1 = .error .tooDeep) ∨
          (ev.evaluate scope t.widened).outcome n = (ev.evaluate scope t).outcome n := by
  have hreadable : Readable lang t := (formula_of_parse hmarks hparse).readable
  refine ⟨?_, fun ev scope n => (hreadable.refines_widened ev).within scope 2 n⟩
  have hraised : Readable { lang with maxDepth := depth, maxPending := none } t :=
    hreadable.of_registry rfl
  exact hraised.parse_rendered hmarks rfl hregistry hfinite hdepth

/-- An imaginary number is read back as a sum. -/
theorem parse_render_imaginary :
    ({ maxDepth := 8, maxPending := none } : Language).parse "x+(0+2i)" =
      .ok (.binary .add (.var "x")
        (.binary .add (.const (.real 0.0)) (.const (.complex ⟨0.0, 2.0⟩)))) := by
  have hx : Atom { maxPending := none } ['x'] (.var "x") :=
    .variable ⟨not_wrapped_of_head (by decide), by decide, by decide, by decide⟩ rfl (by decide)
  have hi : Atom { maxPending := none } ['2', 'i'] (.const (.complex ⟨0.0, 2.0⟩)) :=
    .imaginary (s := ['2']) ⟨not_wrapped_of_head (by decide), by decide, by decide, by decide⟩
      (.outside (by decide) (by decide) .nil) rfl
  have hsum : Sum (Atom { maxPending := none }) (['x'] ++ BinaryOp.add.symbol.toList ++ ['2', 'i'])
      (.binary .add (.var "x") (.const (.complex ⟨0.0, 2.0⟩))) :=
    .join .add rfl (.part (.part (.part hx))) (.part (.part hi))
  have hparse : ({ maxPending := none } : Language).parse "x + 2i" = .ok _ :=
    parse_of_formula NumberFormat.hasPlainMarks_standard rfl (by decide)
      (.mk (.part (.part (by decide) hsum)))
  have hrender : (Expr.binary .add (.var "x") (.const (.complex ⟨0.0, 2.0⟩))).render .standard =
      "x+(0+2i)" := by decide +kernel
  rw [← hrender]
  exact (parse_render { maxPending := none } NumberFormat.hasPlainMarks_standard .empty "x + 2i" _
    hparse (by decide) 8 (by rw [hrender]; decide)).1

end Language

/-- A long sum is read, but there is no room to render it, as that takes three calls for each
addition. -/
theorem Engine.exhausted_render_sum :
    let engine : Engine :=
      { language := { maxPending := none }, evaluator := { draw := fun _ => 0.5 } }
    ∃ t, engine.language.parse (String.ofList (Grammar.sumText 4000)) = .ok t ∧
      (render t).run.run engine = (.error .exhausted, engine) := by
  intro engine
  have hexhausted :
      engine.isExhausted (1 + ((Expr.var "y").added 4000 : Expr Float).renderCalls) = true := by
    rw [Expr.renderCalls_added]
    rfl
  refine ⟨_, Language.parse_sumText 4000, ?_⟩
  rw [run_render, if_pos hexhausted]

end Formulary
