import Formulary.Proofs.Expr.Rules

/-!
# Well-formed trees

Evaluation takes the shape of a call for granted. Trees in which every call has that shape, also in
the bodies of the functions that they call, are `Expr.WellFormed`: they follow the rules that ask of
a callee that its body is well-formed. So what keeps rules keeps trees well-formed.
-/

namespace Formulary

variable {α : Type}

namespace Expr

/-- Every call has the shape that evaluation takes for granted. -/
inductive WellFormed : Expr α → Prop where
  | const (v : Value α) (origin : Option Origin) : WellFormed (.const v origin)
  | var (name : String) : WellFormed (.var name)
  | binary (op : BinaryOp) {l r : Expr α} (hl : WellFormed l) (hr : WellFormed r) :
      WellFormed (.binary op l r)
  | unary (f : UnaryOp) {x : Expr α} (hx : WellFormed x) : WellFormed (.unary f x)
  | builtin {f : Builtin} {args : List (Expr α)} (hf : f ∈ Builtin.all)
      (harity : f.minArgs ≤ args.length ∧ args.length ≤ f.maxArgs)
      (hloop : f.isSeries = true → ∃ k rest, args = .var k :: rest)
      (hargs : ∀ e ∈ args, WellFormed e) : WellFormed (.builtin f args)
  | apply {d : Definition (Expr α)} {args : List (Expr α)} (harity : args.length = d.arity)
      (hbody : WellFormed d.body) (hargs : ∀ e ∈ args, WellFormed e) : WellFormed (.apply d args)

/-- Any leaves, and calls of functions with well-formed bodies. -/
def wellFormedRules : Rules α := { callee := fun d => d.body.WellFormed }

theorem wellFormed_iff_follows {e : Expr α} : e.WellFormed ↔ e.Follows wellFormedRules := by
  constructor
  · intro h
    induction h with
    | const v origin => exact .const trivial origin
    | var name => exact .var trivial
    | binary op _ _ ihl ihr => exact .binary op ihl ihr
    | unary f _ ih => exact .unary f ih
    | builtin hf harity hloop _ ih => exact .builtin hf harity hloop ih
    | apply harity hbody _ _ ih => exact .apply hbody harity ih
  · intro h
    induction h with
    | const _ origin => exact .const _ origin
    | var _ => exact .var _
    | binary op _ _ ihl ihr => exact .binary op ihl ihr
    | unary f _ ih => exact .unary f ih
    | builtin hf harity hloop _ ih => exact .builtin hf harity hloop ih
    | apply hbody harity _ ih => exact .apply harity hbody ih

/-- A tree is well-formed if it follows rules by which the bodies of its callees are. -/
theorem Follows.wellFormed {rules : Rules α} {e : Expr α} (h : e.Follows rules)
    (hcallee : ∀ d, rules.callee d → d.body.WellFormed) : e.WellFormed :=
  wellFormed_iff_follows.2 (h.mono (fun _ _ => trivial) (fun _ _ => trivial) hcallee)

theorem WellFormed.of_mem_nodes {e n : Expr α} (h : e.WellFormed) (hn : n ∈ e.nodes) :
    n.WellFormed :=
  wellFormed_iff_follows.2 ((wellFormed_iff_follows.1 h).of_mem_nodes hn)

theorem WellFormed.identify {e : Expr α} (h : e.WellFormed) (next : Nat) :
    (e.identify next).1.WellFormed :=
  wellFormed_iff_follows.2 ((wellFormed_iff_follows.1 h).identify next)

variable [Scalar α]

/-- What folding leaves of a tree is well-formed, also where it fails in the middle. -/
theorem WellFormed.run {e : Expr α} (h : e.WellFormed) (ev : Evaluator α) (drawn : Nat) :
    ((Folding.run ev e).run drawn).1.tree.WellFormed :=
  wellFormed_iff_follows.2 ((wellFormed_iff_follows.1 h).run (fun _ => trivial) ev drawn)

/-- Derivatives of well-formed trees are well-formed. -/
theorem WellFormed.derive {e : Expr α} (h : e.WellFormed) (ev : Evaluator α) (x : String)
    (depth : Nat) : (derive ev x depth e).Yields WellFormed := fun n e' m he' =>
  wellFormed_iff_follows.2
    ((wellFormed_iff_follows.1 h).derive (fun _ => trivial) ev x depth n e' m he')

/-- Antiderivatives of well-formed trees are well-formed. -/
theorem WellFormed.integrate {e e' : Expr α} {limit : CallLimit} {x : String} {depth : Nat}
    (h : e.WellFormed) (he : e.integrate limit x depth = .ok e') : e'.WellFormed :=
  wellFormed_iff_follows.2
    ((wellFormed_iff_follows.1 h).integrate (fun _ => trivial) trivial he)

end Expr

end Formulary
