import Formulary.Proofs.Evaluation.Refinement
import Formulary.Proofs.Expr.Nodes
import Formulary.Proofs.Syntax.Readable

/-!
# Imaginary constants as sums

An imaginary constant is written with its real part, so that what is read back is a sum of zero and
the constant. `Expr.widened` is the tree with all these sums. The sum has the value of the constant,
as adding zero changes no number without a sign, so a readable tree refines to its widened one: they
differ in the depth of a leaf and in nothing else.
-/

namespace Formulary

/-- The numbers that a value is written with. -/
def Value.numbers : Value Float → List Float
  | boolean _ => []
  | real x => [x]
  | complex z => [z.re, z.im]

namespace Expr

/-- The numbers that the constants of a tree are written with. -/
def numbers (t : Expr Float) : List Float :=
  t.nodes.flatMap fun e =>
    match e with
    | const v _ => v.numbers
    | _ => []

mutual

/-- The tree with a sum of zero and the constant for every complex constant. -/
def widened : Expr Float → Expr Float
  | const (.complex z) _ => binary .add (const (.real 0.0)) (const (.complex z))
  | const v _ => const v
  | var name => var name
  | binary op l r => binary op l.widened r.widened
  | unary f x => unary f x.widened
  | builtin f args => builtin f (widenedAll args)
  | apply d args => apply d (widenedAll args)

/-- The same for a list of trees. -/
def widenedAll : List (Expr Float) → List (Expr Float)
  | [] => []
  | e :: es => e.widened :: widenedAll es

end

theorem widenedAll_eq (es : List (Expr Float)) : widenedAll es = es.map widened := by
  induction es with
  | nil => rfl
  | cons e es ih => rw [widenedAll, ih, List.map_cons]

theorem mem_numbers {e : Expr Float} {x : Float} :
    x ∈ e.numbers ↔ ∃ v origin, const v origin ∈ e.nodes ∧ x ∈ v.numbers := by
  constructor
  · intro hx
    obtain ⟨n, hn, hx⟩ := List.mem_flatMap.1 hx
    cases n with
    | const v origin => exact ⟨v, origin, hn, hx⟩
    | _ => cases hx
  · rintro ⟨v, origin, hn, hx⟩
    exact List.mem_flatMap.2 ⟨_, hn, hx⟩

end Expr

/-! ## What a widened tree means -/

namespace Grammar

variable {lang : Language} {t : Expr Float}

/-- The sum of zero and an imaginary number is the imaginary number. -/
theorem applyBinary_add_imaginary {x : Float} (hx : Binary64.isNegative x = false) :
    (Value.real (0.0 : Float)).applyBinary .add (.complex ⟨0.0, x⟩) = .ok (.complex ⟨0.0, x⟩) := by
  have hre : (0.0 : Float) + 0.0 = 0.0 := Binary64.zero_add (by decide)
  have him : (0.0 : Float) + x = x := Binary64.zero_add hx
  show Except.ok (Value.complex ⟨(0.0 : Float) + 0.0, (0.0 : Float) + x⟩) = _
  rw [hre, him]

/-- A readable tree has the outcomes of its widened one, up to the limit of depth. -/
theorem Readable.refines_widened (h : Readable lang t) (ev : Evaluator Float) :
    ev.Refines t.widened t := by
  induction h with
  | boolean | real | «variable» => exact .refl _
  | imaginary hx => exact .binary_const (applyBinary_add_imaginary hx)
  | binary op _ _ ihl ihr =>
    rw [Expr.widened]
    exact .binary op ihl ihr
  | unary f _ ih =>
    rw [Expr.widened]
    exact .unary f ih
  | builtin f _ _ _ _ ih =>
    rw [Expr.widened, Expr.widenedAll_eq]
    exact .builtin f (List.forall₂_map_left_iff.2 (List.forall₂_same.2 ih))
  | apply d _ _ _ _ _ ih =>
    rw [Expr.widened, Expr.widenedAll_eq]
    exact .apply d (List.forall₂_map_left_iff.2 (List.forall₂_same.2 ih))

end Grammar

end Formulary
