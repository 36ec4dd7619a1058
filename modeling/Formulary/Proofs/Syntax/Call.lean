import Formulary.Proofs.Syntax.Extension
import Formulary.Proofs.Syntax.Placement
import Formulary.Proofs.Syntax.Separators

/-!
# Calls of defined functions

A function that was defined can be called with any arguments that can be read
(`Language.parse_of_call`): the name, and the texts of the arguments between brackets and
separators, are read as the call of that function with the trees of the arguments.

Two facts make this work. The name of a defined function is read as nothing else, so the call is
found in the registry. And the argument list is cut between the arguments only, as they hold no
separator outside brackets, so they are read there as they are read alone.
-/

open Formulary.Grammar

namespace Formulary

namespace Language

open Syntax

variable {lang : Language}

/-! ## Texts that are read -/

/-- What is read at all is read as a formula without its blanks, which is not empty. -/
theorem exists_formula_of_parse {text : String} {t : Expr Float} (h : lang.parse text = .ok t) :
    Text.compact text.toList ≠ [] ∧
      formula lang lang.levels 0 ⟨Text.compact text.toList, 0⟩ = .ok t := by
  unfold parse at h
  split at h
  · cases h
  · next compact hne => exact ⟨hne, h⟩

/-- What is read as a formula has balanced brackets. -/
theorem balanced_of_parse {text : String} {t : Expr Float} (h : lang.parse text = .ok t) :
    Balanced (Text.compact text.toList) := by
  by_contra hunbalanced
  have hformula := (exists_formula_of_parse h).2
  obtain ⟨e, he, -⟩ := @formula_unbalanced lang ⟨_, 0⟩ lang.levels hunbalanced
  cases hformula.symm.trans he

/-- A token is a single part of a pass. -/
theorem readSplit_of_token (level : Level) {read : Segment → Parsed} {s : List Char} {t : Expr Float}
    (hlevel : level ≠ .sum) (htoken : IsToken (level.before ++ level.marks) s)
    (hread : ∀ offset, read ⟨s, offset⟩ = .ok t) (offset : Nat) :
    readSplit level.delimiters level.lone read ⟨s, offset⟩ = .ok t := by
  have hjoined : Joined level (fun u v => u = s ∧ v = t) s t := .part ⟨rfl, rfl⟩
  refine readSplit_complete level hlevel hjoined ?_
  rintro u v - ⟨rfl, rfl⟩
  exact ⟨htoken, hread⟩

/-- A token that is read as an atom is read as a formula. -/
theorem formula_of_token {s : List Char} {t : Expr Float} {levels pending : Nat}
    (htoken : IsToken Level.atom.before s) (hbang : s.head? ≠ some '!')
    (hroom : isExhausted lang pending = false)
    (h : ∀ pending offset, atom lang (formula lang levels) pending ⟨s, offset⟩ = .ok t)
    (offset : Nat) : formula lang (levels + 1) pending ⟨s, offset⟩ = .ok t := by
  have hpower (pending offset : Nat) : power lang (formula lang levels) pending ⟨s, offset⟩ = .ok t :=
    readSplit_of_token .power (by decide) (htoken.mono (by decide)) (h _) offset
  have hproduct (pending offset : Nat) :
      product lang (formula lang levels) pending ⟨s, offset⟩ = .ok t :=
    readSplit_of_token .product (by decide) (htoken.mono (by decide)) (hpower _) offset
  have hsum (pending offset : Nat) : sum lang (formula lang levels) pending ⟨s, offset⟩ = .ok t := by
    have hjoined : Joined .sum (fun u v => u = s ∧ v = t) s t := .part ⟨rfl, rfl⟩
    refine readSum_complete hjoined ?_
    rintro u v - ⟨rfl, rfl⟩
    exact ⟨htoken.mono (by decide), hproduct⟩
  have hoperand (pending offset : Nat) :
      operand lang (formula lang levels) pending offset s = .ok t := by
    obtain ⟨c, cs, rfl⟩ := List.exists_cons_of_ne_nil htoken.ne_nil
    rw [operand, if_neg (by simpa using hbang)]
    exact hsum _ offset
  rw [formula, if_neg (by simp [hroom])]
  exact readSplit_of_token .logic (by decide) (htoken.mono (by decide)) (hoperand _) offset

/-! ## Names of defined functions -/

/-- A word without the bracket of a call that begins the call begins its name. -/
theorem prefix_of_call {word name rest : List Char} (hword : '(' ∉ word)
    (h : word <+: name ++ '(' :: rest) : word <+: name := by
  have hshort := (prefix_call fun hmem => hword ((List.dropLast_sublist _).subset hmem)).1 h
  rcases List.prefix_concat_iff.1 hshort with rfl | hprefix
  · exact absurd (by simp) hword
  · exact hprefix

/-- A name and the bracket of its call begin no other call. -/
theorem eq_of_call {word name rest : List Char} (hword : '(' ∉ word) (hname : '(' ∉ name)
    (h : word ++ ['('] <+: name ++ '(' :: rest) : word = name := by
  obtain ⟨behind, rfl⟩ := prefix_of_call hword ((List.prefix_append _ _).trans h)
  rw [List.append_assoc, List.prefix_append_right_inj] at h
  cases behind with
  | nil => simp
  | cons c behind =>
    obtain ⟨rfl, -⟩ := List.cons_prefix_cons.1 h
    exact absurd (by simp) hname

/-- A registered function is found by its name if no name before it begins its own. -/
theorem lookup?_of_append {before after : List (Definition (Expr Float))} {d : Definition (Expr Float)}
    (hregistry : lang.registry.definitions = before ++ d :: after)
    (hbefore : ∀ d' ∈ before, ¬ d'.name.toList <+: d.name.toList)
    (hnames : ∀ d' ∈ lang.registry.definitions, isName d'.name.toList = true) (rest : List Char) :
    lang.registry.lookup? (d.name.toList ++ '(' :: rest) = some d := by
  refine List.find?_eq_some_iff_append.2 ⟨by simp, before, after, hregistry, fun d' hd' => ?_⟩
  have hname : '(' ∉ d'.name.toList :=
    not_bracket_of_isName (hnames d' (by simp [hregistry, hd']))
  have hnot : ¬ d'.name.toList <+: d.name.toList ++ '(' :: rest :=
    fun h => hbefore d' hd' (prefix_of_call hname h)
  rw [Bool.not_eq_true', ← Bool.not_eq_true, List.isPrefixOf_iff_prefix]
  exact hnot

section Names

variable (hdefined : lang.registry.Defined) {d : Definition (Expr Float)}
  (hd : d ∈ lang.registry.definitions) (rest : List Char)

include hdefined hd

/-- The name of a defined function is read as nothing else. -/
theorem isReserved_of_defined : isReserved d.name.toList = false := by
  have hall : ∀ d ∈ lang.registry.definitions, isReserved d.name.toList = false :=
    hdefined.forall_mem fun _ _ _ _ hread =>
      have ⟨_, hwrites⟩ := exists_writes_of_parseDefinition hread
      hwrites.free
  exact hall d hd

/-- A call of a defined function is no application of a unary one. -/
theorem noFunction_of_defined : NoFunction (d.name.toList ++ '(' :: rest) := by
  have hfree := isReserved_of_defined hdefined hd
  simp only [isReserved, Bool.or_eq_false_iff, Option.isSome_eq_false_iff, Option.isNone_iff_eq_none]
    at hfree
  intro f hf hstarts
  have hname : '(' ∉ f.name.toList := fun hmem => by
    have := function_name_plain _ hmem
    exact absurd this (by decide)
  exact UnaryOp.match?_eq_none.1 hfree.1.2 f hf (prefix_of_call hname hstarts)

/-- A call of a defined function is no call of a builtin one. -/
theorem noBuiltin_of_defined : NoBuiltin (d.name.toList ++ '(' :: rest) := by
  have hfree := isReserved_of_defined hdefined hd
  simp only [isReserved, Bool.or_eq_false_iff] at hfree
  intro f hf hstarts
  have hname : '(' ∉ f.name.toList := fun hmem => by
    have := (builtin_name_plain hf).2 _ hmem
    exact absurd this (by decide)
  have hword := eq_of_call hname (not_bracket_of_isName (hdefined.isName d hd)) hstarts
  have hother := List.any_eq_false.1 hfree.2 f hf
  rw [← hword, String.ofList_toList] at hother
  exact hother (beq_self_eq_true _)

end Names

/-! ## Texts of calls -/

/-- A call with arguments that hold no separator outside brackets is a token. -/
theorem isToken_call {name : String} {texts : List (List Char)}
    (hargument : lang.format.HasPlainArgument) (hname : isName name.toList = true)
    (hseparated : Separated lang texts) : IsToken Level.atom.before (argumentList lang name texts) := by
  have htoken := isToken_of_isName hname
  rw [argumentList_eq]
  refine ⟨⟨htoken.clear.append ((hseparated.balanced hargument).bracketed .round), fun _ => ?_⟩, ?_⟩
  · rw [← List.append_assoc, List.getLast?_concat]
    decide
  · exact List.append_ne_nil_of_left_ne_nil htoken.ne_nil _

/-- Blanks are dropped part by part. -/
theorem compact_append (s t : List Char) :
    Text.compact (s ++ t) = Text.compact s ++ Text.compact t :=
  List.filter_append s t

/-- Blanks are dropped from the separators and the parts. -/
theorem compact_intercalate (mark : List Char) (texts : List (List Char)) :
    Text.compact (mark.intercalate texts) =
      (Text.compact mark).intercalate (texts.map Text.compact) := by
  induction texts with
  | nil => rfl
  | cons text texts ih =>
    cases texts with
    | nil => simp
    | cons text' texts =>
      rw [List.map_cons] at ih
      rw [List.map_cons, List.map_cons, List.intercalate_cons_cons, List.intercalate_cons_cons,
        compact_append, compact_append, ih]

/-- A name has no blanks to drop. -/
theorem compact_of_isName {s : List Char} (h : isName s = true) : Text.compact s = s := by
  simp only [isName, Bool.and_eq_true] at h
  exact List.filter_eq_self.2 fun c hc => by
    rw [not_isBlank_of_isLowercase (List.all_eq_true.1 h.2 c hc)]
    rfl

/-- The text of a call without its blanks. -/
theorem compact_call {name : String} (texts : List String)
    (hargument : lang.format.HasPlainArgument) (hname : isName name.toList = true) :
    Text.compact (name ++ "(" ++ lang.format.argumentText.intercalate texts ++ ")").toList =
      argumentList lang name (texts.map fun text => Text.compact text.toList) := by
  have hmark : Text.compact lang.format.argument = lang.format.argument := by
    obtain ⟨mark, hmark, hplain⟩ := hargument
    rw [hmark]
    exact List.filter_eq_self.2 fun c hc => by
      rw [List.mem_singleton.1 hc, hplain.not_blank]
      rfl
  have hopen : Text.compact "(".toList = ['('] := by decide
  have hclose : Text.compact ")".toList = [')'] := by decide
  rw [String.toList_append, String.toList_append, String.toList_append, compact_append,
    compact_append, compact_append, compact_of_isName hname, hopen, hclose, String.toList_intercalate,
    compact_intercalate, NumberFormat.argumentText, String.toList_ofList, hmark, List.map_map,
    argumentList, List.append_assoc name.toList]
  rfl

/-! ## Calls -/

/-- A text without blanks that is read as a tree, if nesting may be as deep as it takes. -/
structure ReadsAlone (lang : Language) (s : List Char) (t : Expr Float) : Prop where
  ne_nil : s ≠ []
  balanced : Balanced s
  reads : ∃ depth levels, formula (lang.allowing depth) levels 0 ⟨s, 0⟩ = .ok t

section Calls

variable {d : Definition (Expr Float)} {before after : List (Definition (Expr Float))}
  {texts : List (List Char)} {args : List (Expr Float)}
  (hargument : lang.format.HasPlainArgument) (hargs : List.Forall₂ (ReadsAlone lang) texts args)

include hargument hargs

/-- Arguments that can be read hold no separator outside brackets. -/
theorem separated_of_readsAlone
    (hnames : ∀ d ∈ lang.registry.definitions, isName d.name.toList = true) :
    Separated lang texts := by
  have hall : List.Forall₂ (fun s t => Clear lang.format.argument s ∧ ReadsAlone lang s t)
      texts args := by
    refine hargs.imp fun s t hread => ⟨?_, hread⟩
    obtain ⟨depth, levels, hformula⟩ := hread.reads
    have hshields : Shields (lang.allowing depth) (formula (lang.allowing depth) levels 0) :=
      @shields_formula (lang.allowing depth) hargument hnames levels 0
    exact hshields _ t hread.balanced hformula
  exact ((List.forall₂_and_left _ _).1 hall).1

/-- They are read in the argument list of a call as well, with as many levels as it has characters.
-/
theorem arguments_of_readsAlone {name : String} {depth : Int} {levels pending offset : Nat}
    (hseparated : Separated lang texts) (hlength : (argumentList lang name texts).length ≤ levels) :
    arguments (lang.allowing depth) (formula (lang.allowing depth) levels pending) name
      ⟨argumentList lang name texts, offset⟩ = .ok args := by
  have hmem : List.Forall₂ (fun s t => s ∈ texts ∧ ReadsAlone lang s t) texts args :=
    (List.forall₂_and_left _ _).2 ⟨fun _ hs => hs, hargs⟩
  have hne : List.Forall₂ (fun s t => s ≠ [] ∧ ReadsAlone lang s t) texts args :=
    hargs.imp fun _ _ hread => ⟨hread.ne_nil, hread⟩
  refine @arguments_complete (lang.allowing depth) _ _ _ _ _ hargument rfl hseparated
    ((List.forall₂_and_left _ _).1 hne).1 ?_
  refine hmem.imp fun s t ⟨hs, hread⟩ offset => ?_
  obtain ⟨own, ownLevels, hformula⟩ := hread.reads
  have hshort : s.length ≤ levels := (length_lt_argumentList name hs).le.trans hlength
  exact rereads_formula (lang.allowing own) depth ownLevels levels 0 pending s 0 offset t hshort
    hformula

/-- The call of a defined function is read, with one level more for the call itself. -/
theorem formula_of_call (hdefined : lang.registry.Defined)
    (hregistry : lang.registry.definitions = before ++ d :: after)
    (hbefore : ∀ d' ∈ before, ¬ d'.name.toList <+: d.name.toList) (harity : args.length = d.arity)
    {depth : Int} {levels : Nat} (hlength : (argumentList lang d.name texts).length ≤ levels) :
    formula (lang.allowing depth) (levels + 1) 0 ⟨argumentList lang d.name texts, 0⟩ =
      .ok (.apply d args) := by
  have hd : d ∈ lang.registry.definitions := by simp [hregistry]
  have hname := hdefined.isName d hd
  have hseparated := separated_of_readsAlone hargument hargs hdefined.isName
  have htoken := isToken_call hargument hname hseparated
  have hcall := @argumentList_eq lang d.name texts
  obtain ⟨c, cs, hcs, hc⟩ := exists_cons_of_isName hname
  have hatom (pending offset : Nat) :
      atom (lang.allowing depth) (formula (lang.allowing depth) levels) pending
        ⟨argumentList lang d.name texts, offset⟩ = .ok (.apply d args) := by
    refine atom_apply htoken.clear.balanced ?_ ?_ ?_ ?_ harity
      (arguments_of_readsAlone hargument hargs hseparated hlength)
    · exact hcall ▸ hcs ▸ not_wrapped_of_head (not_isBracket_of_isLowercase hc)
    · exact hcall ▸ noFunction_of_defined hdefined hd _
    · exact hcall ▸ noBuiltin_of_defined hdefined hd _
    · exact hcall ▸ lookup?_of_append hregistry hbefore hdefined.isName _
  have hhead : (argumentList lang d.name texts).head? ≠ some '!' := by
    rw [hcall, hcs]
    rintro ⟨⟩
    cases hc
  exact formula_of_token htoken hhead rfl hatom 0

end Calls

/-- A defined function can be called with any arguments that can be read: where no function before
it has a name that its own name begins with, the text of the call is read as the call of that
function with the trees of the arguments, if nesting is not limited below the length of the text. -/
theorem parse_of_call (hargument : lang.format.HasPlainArgument) (hdefined : lang.registry.Defined)
    {before after : List (Definition (Expr Float))} {d : Definition (Expr Float)}
    (hregistry : lang.registry.definitions = before ++ d :: after)
    (hbefore : ∀ d' ∈ before, ¬ d'.name.toList <+: d.name.toList)
    {texts : List String} {args : List (Expr Float)} (harity : texts.length = d.arity)
    (hargs : List.Forall₂ (fun text t => ∃ depth, (lang.allowing depth).parse text = .ok t) texts args)
    {depth : Int}
    (hdepth : ((d.name ++ "(" ++ lang.format.argumentText.intercalate texts ++ ")").length : Int) ≤
      depth) :
    (lang.allowing depth).parse
        (d.name ++ "(" ++ lang.format.argumentText.intercalate texts ++ ")") =
      .ok (.apply d args) := by
  have hd : d ∈ lang.registry.definitions := by simp [hregistry]
  have hcompact := compact_call texts hargument (hdefined.isName d hd)
  have hread : List.Forall₂ (ReadsAlone lang) (texts.map fun text => Text.compact text.toList) args :=
    List.forall₂_map_left_iff.2 <| hargs.imp fun text t ⟨own, hparse⟩ =>
      have ⟨hne, hformula⟩ := exists_formula_of_parse hparse
      ⟨hne, balanced_of_parse hparse, own, _, hformula⟩
  have hcount : args.length = d.arity := hargs.length_eq.symm.trans harity
  -- blanks only add to the length
  have hlength : (argumentList lang d.name (texts.map fun text => Text.compact text.toList)).length ≤
      depth.toNat := by
    have hblanks := List.length_filter_le (!Text.isBlank ·)
      (d.name ++ "(" ++ lang.format.argumentText.intercalate texts ++ ")").toList
    rw [String.length_toList] at hblanks
    rw [← hcompact, Text.compact]
    omega
  have hlevels : (lang.allowing depth).levels = depth.toNat + 1 := by
    unfold levels
    dsimp only
    omega
  have hformula := @formula_of_call lang _ _ _ _ _ hargument hread hdefined hregistry hbefore hcount
    depth _ hlength
  unfold parse
  rw [hcompact]
  split
  · next hnil => simp [argumentList] at hnil
  · rw [hlevels]
    exact hformula

/-- A call of the second one of two functions, with a call of the first one as its argument. -/
theorem parse_of_call_nested :
    let f : Definition (Expr Float) := ⟨"f", ["x"], .binary .pow (.var "x") (.var "x"), "x^x"⟩
    let g : Definition (Expr Float) := ⟨"g", ["y"], .apply f [.var "y"], "f(y)"⟩
    let lang : Language := { registry := ⟨[f, g]⟩ }
    lang.format.HasPlainArgument ∧ lang.registry.Defined ∧
      (∀ d ∈ [f], ¬ d.name.toList <+: g.name.toList) ∧
      (lang.allowing 100).parse "f(y)" = .ok (.apply f [.var "y"]) ∧
      (("g" ++ "(" ++ lang.format.argumentText.intercalate ["f(y)"] ++ ")").length : Int) ≤ 7 ∧
      (lang.allowing 7).parse ("g" ++ "(" ++ lang.format.argumentText.intercalate ["f(y)"] ++ ")") =
        .ok (.apply g [.apply f [.var "y"]]) := by
  intro f g lang
  have hargument : lang.format.HasPlainArgument := NumberFormat.hasPlainMarks_standard.argument
  have hx : Atom { maxPending := none } ['x'] (.var "x") :=
    .variable ⟨not_wrapped_of_head (by decide), by decide, by decide, by decide⟩ rfl (by decide)
  have hbody : ({ maxPending := none } : Language).parse "x^x" = .ok f.body :=
    parse_of_formula NumberFormat.hasPlainMarks_standard rfl (by decide)
      (.mk (.part (.part (by decide) (.part (.part (.join .pow rfl (.part hx) hx))))))
  have hf : ({ maxPending := none } : Language).parseDefinition "f(x)=x^x" = .ok f :=
    @parseDefinition_of_parse _ _ ['f'] ['x'] _ [['x']] _ rfl (isReserved_letter (by decide)) rfl
      (by simp [isName, isLowercase, isReserved_letter]) (by decide) rfl hbody
      (isExhausted_of_none rfl _) (by decide)
  have hfirst : ({ maxPending := none } : Language).register f =
      .ok { registry := ⟨[f]⟩, maxPending := none } := rfl
  have hsecond : ({ registry := ⟨[f]⟩ } : Language).register g = .ok lang := rfl
  have hone : Registry.Defined ⟨[f]⟩ := .register .empty hf .empty hfirst
  have hdefined : lang.registry.Defined :=
    .register hone (parseDefinition_call "x" f.body f.bodyText) hone hsecond
  have hbefore : ∀ d ∈ [f], ¬ d.name.toList <+: g.name.toList := by decide
  have hparse : (lang.allowing 100).parse "f(y)" = .ok (.apply f [.var "y"]) := by
    refine @parse_push g _ _ _ (by decide) (by decide) (by decide)
      (parse_call "x" f.body f.bodyText) fun name hname => ?_
    obtain rfl : name = "y" := by simpa [Expr.nodes, Expr.nodesOfAll] using hname
    decide
  have hdepth : (("g" ++ "(" ++ lang.format.argumentText.intercalate ["f(y)"] ++ ")").length : Int) ≤
      7 := by decide
  exact ⟨hargument, hdefined, hbefore, hparse, hdepth,
    @parse_of_call lang hargument hdefined [f] [] g rfl hbefore ["f(y)"] _ rfl
      (.cons ⟨100, hparse⟩ .nil) 7 hdepth⟩

end Language

end Formulary
