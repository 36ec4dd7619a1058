import Formulary.Proofs.Syntax.Names
import Formulary.Syntax.Definition

/-!
# Registries that definitions make

A registry is `Defined` if it is empty or comes from a defined one by one more definition that was
read. It need not have been read in the language that it is registered in, but the functions of the
language that it was read in are of the same making. So the functions of a defined registry are
named by lowercase words, and their bodies are formulas that were read and need their parameters
only.
-/

namespace Formulary

/-- Registries that are made by registering definitions, one after the other. -/
inductive Registry.Defined : Registry → Prop where
  | empty : Defined {}
  | register {source lang lang' : Language} {text : String} {d : Definition (Expr Float)}
      (hsource : Defined source.registry) (hread : source.parseDefinition text = .ok d)
      (hlang : Defined lang.registry) (hregister : lang.register d = .ok lang') :
      Defined lang'.registry

/-! ## Names that differ -/

section Names

variable {α : Type} [BEq α]

theorem length_eraseDups_le (xs : List α) : xs.eraseDups.length ≤ xs.length := by
  match xs with
  | [] => simp
  | x :: xs =>
    have hfilter := xs.length_filter_le fun y => !y == x
    have hrest := length_eraseDups_le (xs.filter fun y => !y == x)
    rw [List.eraseDups_cons, List.length_cons, List.length_cons]
    omega
termination_by xs.length
decreasing_by exact Nat.lt_succ_of_le (List.length_filter_le _ xs)

/-- Elements that stay as many without their repetitions differ. -/
theorem nodup_of_length_eraseDups [LawfulBEq α] {xs : List α} (h : xs.eraseDups.length = xs.length) :
    xs.Nodup := by
  induction xs with
  | nil => exact .nil
  | cons x xs ih =>
    rw [List.eraseDups_cons, List.length_cons, List.length_cons, Nat.succ_inj] at h
    have hfilter := xs.length_filter_le fun y => !y == x
    have hrest := length_eraseDups_le (xs.filter fun y => !y == x)
    -- nothing is left out, so nothing equals the first element
    have hall := List.length_filter_eq_length_iff.1 (Nat.le_antisymm hfilter (h ▸ hrest))
    rw [List.filter_eq_self.2 hall] at h
    refine List.nodup_cons.2 ⟨fun hmem => ?_, ih h⟩
    simpa using hall x hmem

end Names

theorem sortedNames_eq_nil_iff {names : List String} : sortedNames names = [] ↔ names = [] := by
  rw [sortedNames, ← List.length_eq_zero_iff, List.length_mergeSort, List.length_eq_zero_iff]
  cases names with
  | nil => simp
  | cons name names => simp [List.eraseDups_cons]

/-! ## What a definition establishes -/

namespace Syntax

theorem isName_of_signature? {text name params : List Char}
    (h : signature? text = some (name, params)) : isName name = true := by
  unfold signature? at h
  dsimp only at h
  split at h
  · next c rest _ hname _ =>
    have hlower : (text.takeWhile isLowercase).all isLowercase = true := List.all_takeWhile
    split at h
    · cases h
      rw [isName, hlower, hname]
      rfl
    · cases h
  · cases h

/-- Letters like these name no function and no constant. -/
theorem isReserved_letter {c : Char} (hc : c ∈ ['f', 'g', 'k', 'x', 'y']) :
    isReserved [c] = false := by
  have hfunction : Grammar.NoFunction [c] := by revert c; decide
  rw [isReserved, UnaryOp.match?_eq_none.2 hfunction]
  revert c
  decide

end Syntax

namespace Language

variable {lang lang' : Language} {text : String} {d : Definition (Expr Float)}

/-- A text without blanks that writes a definition: a signature whose name a formula reads as
nothing else, an equals sign, and a body that needs no binding but the parameters. -/
structure Writes (lang : Language) (text paramText : List Char) (d : Definition (Expr Float)) :
    Prop where
  signature : Syntax.signature? (text.takeWhile (· != '=')) = some (d.name.toList, paramText)
  free : Syntax.isReserved d.name.toList = false
  params : d.params = (if paramText.isEmpty then [] else
    Syntax.separate lang.format.argument 0 paramText).map String.ofList
  nodup : d.params.Nodup
  bodyText : (text.dropWhile (· != '=')).drop 1 = d.bodyText.toList
  body : lang.parse d.bodyText = .ok d.body
  room : Syntax.isExhausted lang d.body.height = false
  closed : ∀ name ∈ d.body.freeVars, name ∈ d.params

theorem exists_writes_of_parseDefinition (h : lang.parseDefinition text = .ok d) :
    ∃ paramText, lang.Writes (Text.compact text.toList) paramText d := by
  unfold parseDefinition at h
  dsimp only at h
  split at h
  · cases h
  · split at h
    · cases h
    · next name paramText hsignature =>
      split at h
      · cases h
      · next hfree =>
        generalize hparams : (if paramText.isEmpty = true then [] else _) = params at h
        split at h
        · cases h
        · split at h
          · cases h
          · next hdiffer =>
            obtain ⟨body, hbody, h⟩ := bind_eq_ok.1 h
            split at h
            · cases h
            next hroom =>
            split at h
            · next hunbound =>
              cases h
              have hnodup : (params.map String.ofList).Nodup :=
                List.Pairwise.map _ (fun _ _ hne heq => hne (String.ofList_injective heq))
                  (nodup_of_length_eraseDups (not_not.1 hdiffer))
              refine ⟨paramText, ?_, ?_, hparams ▸ rfl, hnodup, String.toList_ofList.symm, hbody,
                Bool.eq_false_iff.2 hroom, fun name hmem => ?_⟩
              · rwa [String.toList_ofList]
              · rw [String.toList_ofList]
                exact Bool.eq_false_iff.2 hfree
              · by_contra hnot
                have hfilter := sortedNames_eq_nil_iff.1 hunbound
                exact List.filter_eq_nil_iff.1 hfilter name hmem (by simpa using hnot)
            · cases h

/-- What reading a definition establishes: its name is a lowercase word, its parameters differ, and
its body is a formula that needs no binding but theirs. -/
theorem parseDefinition_eq_ok (h : lang.parseDefinition text = .ok d) :
    Syntax.isName d.name.toList = true ∧ d.params.Nodup ∧
      (∀ name ∈ d.body.freeVars, name ∈ d.params) ∧ lang.parse d.bodyText = .ok d.body := by
  obtain ⟨paramText, hwrites⟩ := exists_writes_of_parseDefinition h
  exact ⟨Syntax.isName_of_signature? hwrites.signature, hwrites.nodup, hwrites.closed, hwrites.body⟩

/-- A definition is read if formulas leave its name and its parameters alone, the parameters differ,
and its body is a formula that needs no binding but theirs, which there is room to find out. -/
theorem parseDefinition_of_parse {name paramText bodyText : List Char} {params : List (List Char)}
    {body : Expr Float}
    (hsignature : Syntax.signature? ((Text.compact text.toList).takeWhile (· != '=')) =
      some (name, paramText))
    (hname : Syntax.isReserved name = false)
    (hparams : (if paramText.isEmpty then [] else
      Syntax.separate lang.format.argument 0 paramText) = params)
    (hplain : ∀ p ∈ params, Syntax.isName p = true ∧ Syntax.isReserved p = false)
    (hdiffer : params.eraseDups.length = params.length)
    (hbodyText : ((Text.compact text.toList).dropWhile (· != '=')).drop 1 = bodyText)
    (hbody : lang.parse (String.ofList bodyText) = .ok body)
    (hroom : Syntax.isExhausted lang body.height = false)
    (hclosed : ∀ v ∈ body.freeVars, v ∈ params.map String.ofList) :
    lang.parseDefinition text =
      .ok ⟨String.ofList name, params.map String.ofList, body, String.ofList bodyText⟩ := by
  have hnonempty : bodyText.isEmpty = false := by
    cases bodyText with
    | nil => cases hbody
    | cons c cs => rfl
  have hfind : params.find? (fun p => !Syntax.isName p || Syntax.isReserved p) = none := by
    rw [List.find?_eq_none]
    intro p hp
    simp [hplain p hp]
  have hunbound : sortedNames (body.freeVars.filter (· ∉ params.map String.ofList)) = [] :=
    sortedNames_eq_nil_iff.2 (List.filter_eq_nil_iff.2 fun v hv => by simpa using hclosed v hv)
  unfold parseDefinition
  simp only [hbodyText, hnonempty, hsignature, hname, hparams, hfind, hdiffer, hbody]
  simp only [bind, Except.bind, hroom, hunbound]
  simp [pure, Except.pure]

/-- A definition is registered last, and its name was not taken before. -/
theorem register_eq_ok (h : lang.register d = .ok lang') :
    d.name ∉ lang.registry.names ∧ lang' = { lang with registry := lang.registry.push d } := by
  unfold register at h
  split at h
  · cases h
  · next hnone =>
    cases h
    refine ⟨fun hmem => ?_, rfl⟩
    obtain ⟨d', hd', hname⟩ := List.mem_map.1 hmem
    exact List.find?_eq_none.1 hnone d' hd' (beq_iff_eq.2 hname)

end Language

namespace Registry

/-- Whatever holds of every definition that is read, in a registry where it holds already, holds of
the functions of a defined registry. -/
theorem Defined.forall_mem {r : Registry} {P : Definition (Expr Float) → Prop} (h : Defined r)
    (hread : ∀ (lang : Language) (text : String) (d : Definition (Expr Float)),
      (∀ d' ∈ lang.registry.definitions, P d') → lang.parseDefinition text = .ok d → P d) :
    ∀ d ∈ r.definitions, P d := by
  induction h with
  | empty =>
    intro d hd
    cases hd
  | @register source lang lang' text d _ hd _ hregister ihsource ih =>
    obtain ⟨-, rfl⟩ := Language.register_eq_ok hregister
    intro d' hd'
    rcases List.mem_append.1 hd' with hold | hnew
    · exact ih d' hold
    · rw [List.mem_singleton.1 hnew]
      exact hread source text d ihsource hd

/-- Defined functions are named by lowercase words. -/
theorem Defined.isName {r : Registry} (h : Defined r) :
    ∀ d ∈ r.definitions, Syntax.isName d.name.toList = true :=
  h.forall_mem fun _ _ _ _ hd => (Language.parseDefinition_eq_ok hd).1

end Registry

end Formulary
