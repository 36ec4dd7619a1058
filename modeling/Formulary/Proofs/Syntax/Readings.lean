import Formulary.Proofs.Syntax.Passes

/-!
# Readings that succeed

What it takes for a part of the reader to return a tree, said once for each part: the form of an
atom that was found (`ReadsAtom`, `atom_eq_ok_iff`), the list of a call, and the first term of a
sum. Proofs about trees that are read go by these forms and not by the checks that the reader makes.
-/

namespace Formulary.Syntax

variable {lang : Language} {inner : Segment → Parsed} {s : Segment} {t : Expr Float}

/-! ## Calls -/

/-- A list is read if it is wrapped on its own: as nothing if there is nothing in it, and else by
its parts. -/
theorem arguments_eq_ok_iff {name : String} {args : List (Expr Float)} :
    arguments lang inner name s = .ok args ↔
      ((s.drop name.length).text.head? = some '(' ∧ isWrapped (s.drop name.length).text = true) ∧
        ((s.drop name.length).inner.text = [] ∧ args = [] ∨
          (s.drop name.length).inner.text ≠ [] ∧
            ∃ parts, (s.drop name.length).inner.split [⟨lang.format.argument, ()⟩] [] = .ok parts ∧
              parts.parts.mapM inner = .ok args) := by
  unfold arguments
  dsimp only
  split
  · next hlist =>
    split
    · next hempty =>
      have hnil := List.isEmpty_iff.1 hempty
      simp [hlist, hnil, pure, Except.pure, eq_comm]
    · next hempty =>
      have hne : (s.drop name.length).inner.text ≠ [] := fun hnil => hempty (List.isEmpty_iff.2 hnil)
      simp [hlist, hne, bind_eq_ok]
  · next hlist => simp [hlist]

theorem builtinCall_eq_ok_iff {f : Builtin} :
    builtinCall lang inner f s = .ok t ↔
      ∃ args, arguments lang inner f.name s = .ok args ∧
        (f.minArgs ≤ args.length ∧ args.length ≤ f.maxArgs) ∧
        (f.isSeries = true → args.head?.any isVar = true) ∧ t = .builtin f args := by
  unfold builtinCall
  rw [bind_eq_ok]
  refine exists_congr fun args => and_congr_right fun _ => ?_
  split
  · next harity => exact ⟨by rintro ⟨⟩, by rintro ⟨h, -, -⟩; omega⟩
  · next harity =>
    split
    · next hloop =>
      rw [Bool.and_eq_true, Bool.not_eq_true'] at hloop
      exact ⟨by rintro ⟨⟩, fun h => absurd (h.2.1 hloop.1) (by simp [hloop.2])⟩
    · next hloop =>
      refine ⟨?_, by rintro ⟨-, -, rfl⟩; rfl⟩
      rintro ⟨⟩
      exact ⟨⟨by omega, by omega⟩, fun hseries => by simpa [hseries] using hloop, rfl⟩

theorem userCall_eq_ok_iff {d : Definition (Expr Float)} :
    userCall lang inner d s = .ok t ↔
      ∃ args, arguments lang inner d.name s = .ok args ∧ args.length = d.arity ∧
        t = .apply d args := by
  unfold userCall
  rw [bind_eq_ok]
  refine exists_congr fun args => and_congr_right fun _ => ?_
  split
  · next harity => exact ⟨by rintro ⟨⟩, fun h => absurd h.1 harity⟩
  · next harity =>
    refine ⟨?_, by rintro ⟨-, rfl⟩; rfl⟩
    rintro ⟨⟩
    exact ⟨not_not.1 harity, rfl⟩

/-! ## Atoms -/

/-- The forms of an atom. Each one is taken if none of those in front of it fits. -/
inductive ReadsAtom (lang : Language) (inner : Nat → Segment → Parsed) (pending : Nat) (s : Segment) :
    Expr Float → Prop where
  | wrapped {t : Expr Float} (h : isWrapped s.text = true) (ht : inner (pending + 1) s.inner = .ok t) :
      ReadsAtom lang inner pending s t
  | function {f : UnaryOp} {rest : List Char} {v : Expr Float} (hwrapped : isWrapped s.text = false)
      (h : UnaryOp.match? s.text = some (f, rest)) (hrest : rest ≠ [])
      (hv : inner (pending + 1) (s.drop f.name.length) = .ok v) :
      ReadsAtom lang inner pending s (.unary f v)
  | builtin {f : Builtin} {t : Expr Float} (hwrapped : isWrapped s.text = false)
      (hfunction : UnaryOp.match? s.text = none) (h : Builtin.match? s.text = some f)
      (ht : builtinCall lang (inner (pending + 4)) f s = .ok t) : ReadsAtom lang inner pending s t
  | apply {d : Definition (Expr Float)} {t : Expr Float} (hwrapped : isWrapped s.text = false)
      (hfunction : UnaryOp.match? s.text = none) (hbuiltin : Builtin.match? s.text = none)
      (h : lang.registry.lookup? s.text = some d)
      (ht : userCall lang (inner (pending + 4)) d s = .ok t) :
      ReadsAtom lang inner pending s t
  | constant {v : Value Float} (hwrapped : isWrapped s.text = false)
      (hfunction : UnaryOp.match? s.text = none) (hbuiltin : Builtin.match? s.text = none)
      (hregistered : lang.registry.lookup? s.text = none) (h : constant? s.text = some v) :
      ReadsAtom lang inner pending s (.const v)
  | variable (hwrapped : isWrapped s.text = false)
      (hfunction : UnaryOp.match? s.text = none) (hbuiltin : Builtin.match? s.text = none)
      (hregistered : lang.registry.lookup? s.text = none) (hconstant : constant? s.text = none)
      (h : isName s.text = true) : ReadsAtom lang inner pending s (.var s.shown)
  | number {t : Expr Float} (hwrapped : isWrapped s.text = false)
      (hfunction : UnaryOp.match? s.text = none) (hbuiltin : Builtin.match? s.text = none)
      (hregistered : lang.registry.lookup? s.text = none) (hconstant : constant? s.text = none)
      (hname : isName s.text = false) (ht : number lang s = .ok t) : ReadsAtom lang inner pending s t

variable {inner : Nat → Segment → Parsed} {pending : Nat}

/-- A text is read as an atom if it has one of the forms. -/
theorem atom_eq_ok_iff :
    atom lang inner pending s = .ok t ↔ s.text ≠ [] ∧ ReadsAtom lang inner pending s t := by
  unfold atom
  constructor
  · intro h
    split at h
    · cases h
    next hne =>
    refine ⟨fun hnil => hne (List.isEmpty_iff.2 hnil), ?_⟩
    split at h
    · next hwrapped => exact .wrapped hwrapped h
    next hwrapped =>
    have hwrapped := Bool.eq_false_iff.2 hwrapped
    split at h
    · next f rest hfunction =>
      split at h
      · cases h
      · next hrest =>
        obtain ⟨v, hv, h⟩ := bind_eq_ok.1 h
        cases h
        exact .function hwrapped hfunction (fun hnil => hrest (List.isEmpty_iff.2 hnil)) hv
    next hfunction =>
    split at h
    · next f hbuiltin => exact .builtin hwrapped hfunction hbuiltin h
    next hbuiltin =>
    split at h
    · next d hregistered => exact .apply hwrapped hfunction hbuiltin hregistered h
    next hregistered =>
    split at h
    · next v hconstant =>
      cases h
      exact .constant hwrapped hfunction hbuiltin hregistered hconstant
    next hconstant =>
    split at h
    · next hname =>
      cases h
      exact .variable hwrapped hfunction hbuiltin hregistered hconstant hname
    · next hname =>
      exact .number hwrapped hfunction hbuiltin hregistered hconstant (Bool.eq_false_iff.2 hname) h
  · rintro ⟨hne, h⟩
    rw [if_neg (by simpa using hne)]
    cases h with
    | wrapped h ht => rw [if_pos h, ht]
    | function hwrapped h hrest hv =>
      simp [hwrapped, h, hrest, hv, bind, Except.bind, pure, Except.pure]
    | builtin hwrapped hfunction h ht => simp [hwrapped, hfunction, h, ht]
    | apply hwrapped hfunction hbuiltin h ht => simp [hwrapped, hfunction, hbuiltin, h, ht]
    | constant hwrapped hfunction hbuiltin hregistered h =>
      simp [hwrapped, hfunction, hbuiltin, hregistered, h]
    | «variable» hwrapped hfunction hbuiltin hregistered hconstant h =>
      simp [hwrapped, hfunction, hbuiltin, hregistered, hconstant, h]
    | number hwrapped hfunction hbuiltin hregistered hconstant hname ht =>
      simp [hwrapped, hfunction, hbuiltin, hregistered, hconstant, hname, ht]

/-! ## Sums -/

/-- A sum is read from its first term, which a minus sign may stand in front of. -/
theorem sum_eq_ok_iff :
    sum lang inner pending s = .ok t ↔
      ∃ parts, s.split sumOperators [] = .ok parts ∧
        ((parts.first.text = [] ∧ ∃ d part rest v, parts.rest = (d, part) :: rest ∧
            product lang inner (pending + 1) part = .ok v ∧
            foldLeft (product lang inner (pending + 3)) (.unary .neg v) rest = .ok t) ∨
          (parts.first.text = [] → parts.rest = []) ∧
            ∃ v, product lang inner (pending + 3) parts.first = .ok v ∧
              foldLeft (product lang inner (pending + 3)) v parts.rest = .ok t) := by
  unfold sum
  rw [bind_eq_ok]
  refine exists_congr fun parts => and_congr_right fun _ => ?_
  split
  · next d part rest hnil hcons =>
    rw [bind_eq_ok, hnil, hcons]
    simp
  · next hother =>
    have hfirst : parts.first.text = [] → parts.rest = [] := by
      intro hnil
      cases hrest : parts.rest with
      | nil => rfl
      | cons x rest => exact absurd hrest (hother x.1 x.2 rest hnil)
    rw [bind_eq_ok]
    constructor
    · exact fun h => .inr ⟨hfirst, h⟩
    · rintro (⟨hnil, d, part, rest, v, hcons, -⟩ | ⟨-, h⟩)
      · rw [hfirst hnil] at hcons
        cases hcons
      · exact h

end Formulary.Syntax
