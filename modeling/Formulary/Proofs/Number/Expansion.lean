import Formulary.Proofs.Number.Unsigned

/-!
# Decimal expansions

A rational number that has finitely many decimal places is written in one way only, if there are no
zeros in front of its digits and none behind its places (`IsExpansion.unique`), and its digits are
put into groups in one way only (`InThrees.unique`). The digits of `Binary64.fixed` are this
expansion (`isExpansion_places`) and these groups (`inThrees_groupThousands`).

A text with grouped digits is a whole part in the sense of the reader, and without the grouping
marks the digits are left (`NumberFormat.isWhole_of_inThrees`).
-/

namespace Formulary

open Text

/-! ## Values of digits -/

/-- Digits in front count once for every digit behind them. -/
theorem digitsValue_append (s t : List Char) :
    digitsValue (s ++ t) = digitsValue s * 10 ^ t.length + digitsValue t := by
  induction t using List.reverseRecOn with
  | nil => simp [digitsValue]
  | append_singleton t c ih =>
    have hstep (u : List Char) : digitsValue (u ++ [c]) =
        10 * digitsValue u + (digitValue? c).getD 0 := by
      rw [digitsValue, List.foldl_append]
      rfl
    rw [← List.append_assoc, hstep, hstep, ih, List.length_append, List.length_singleton, pow_succ]
    ring

/-- The value of a digit in front of others. -/
theorem digitsValue_cons (c : Char) (ds : List Char) :
    digitsValue (c :: ds) = digitsValue [c] * 10 ^ ds.length + digitsValue ds :=
  digitsValue_append [c] ds

/-- Zeros have the value zero. -/
theorem digitsValue_replicate_zero (n : ℕ) : digitsValue (List.replicate n '0') = 0 := by
  have hzero : digitsValue ['0'] = 0 := rfl
  induction n with
  | zero => rfl
  | succ n ih => rw [List.replicate_succ, digitsValue_cons, hzero, ih, Nat.zero_mul]

/-- A digit is the text of its value. -/
theorem digitsOf_digitsValue_singleton {c : Char} (hc : c ∈ digitCharacters) :
    digitsOf (digitsValue [c]) = [c] ∧ digitsValue [c] < 10 := by
  have hall : digitCharacters.all
      (fun c => digitsOf (digitsValue [c]) = [c] ∧ digitsValue [c] < 10) = true := by rfl
  exact of_decide_eq_true (List.all_eq_true.1 hall c hc)

/-- Only the digit zero has the value zero. -/
theorem eq_zero_of_digitsValue {c : Char} (hc : c ∈ digitCharacters) (hzero : digitsValue [c] = 0) :
    c = '0' := by
  have hdigit := (digitsOf_digitsValue_singleton hc).1
  rw [hzero, digitsOf, Nat.toDigits_zero, List.cons.injEq] at hdigit
  exact hdigit.1.symm

/-- So many digits are below this power of ten. -/
theorem digitsValue_lt {ds : List Char} (h : ∀ c ∈ ds, c ∈ digitCharacters) :
    digitsValue ds < 10 ^ ds.length := by
  induction ds using List.reverseRecOn with
  | nil => simp [digitsValue]
  | append_singleton ds c ih =>
    have hrest := ih fun d hd => h d (by simp [hd])
    have hdigit := (digitsOf_digitsValue_singleton (h c (by simp))).2
    rw [digitsValue_append, List.length_append, List.length_singleton, pow_one, pow_succ]
    omega

/-! ## Digits without zeros in front -/

/-- Digits behind those of a number that is not zero. -/
theorem digitsOf_append {ds : List Char} (h : ∀ c ∈ ds, c ∈ digitCharacters) {n : ℕ} (hn : 0 < n) :
    digitsOf n ++ ds = digitsOf (n * 10 ^ ds.length + digitsValue ds) := by
  induction ds generalizing n with
  | nil => simp [digitsValue]
  | cons c ds ih =>
    obtain ⟨hc, hds⟩ := List.forall_mem_cons.1 h
    obtain ⟨hdigit, hlt⟩ := digitsOf_digitsValue_singleton hc
    have hstep : digitsOf n ++ digitsOf (digitsValue [c]) = digitsOf (10 * n + digitsValue [c]) :=
      Nat.toDigits_append_toDigits (by norm_num) hn hlt
    calc digitsOf n ++ c :: ds = digitsOf n ++ digitsOf (digitsValue [c]) ++ ds := by simp [hdigit]
      _ = digitsOf ((10 * n + digitsValue [c]) * 10 ^ ds.length + digitsValue ds) := by
        rw [hstep, ih hds (by omega)]
      _ = digitsOf (n * 10 ^ (c :: ds).length + digitsValue (c :: ds)) := by
        rw [digitsValue_cons c ds, List.length_cons]
        congr 1
        ring

/-- Digits without a zero in front are those of their value. -/
theorem digitsOf_digitsValue {ds : List Char} (h : ∀ c ∈ ds, c ∈ digitCharacters) (hne : ds ≠ [])
    (hzero : ds.head? = some '0' → ds = ['0']) : digitsOf (digitsValue ds) = ds := by
  obtain ⟨c, ds, rfl⟩ := List.exists_cons_of_ne_nil hne
  obtain ⟨hc, hds⟩ := List.forall_mem_cons.1 h
  have hdigit := (digitsOf_digitsValue_singleton hc).1
  by_cases hpos : 0 < digitsValue [c]
  · rw [digitsValue_cons c ds, ← digitsOf_append hds hpos, hdigit, List.singleton_append]
  · have hc := eq_zero_of_digitsValue hc (Nat.eq_zero_of_not_pos hpos)
    rw [hzero (by rw [List.head?_cons, hc])]
    rfl

/-- Digits of one length are determined by their value. -/
theorem eq_of_digitsValue_eq {s t : List Char} (hs : ∀ c ∈ s, c ∈ digitCharacters)
    (ht : ∀ c ∈ t, c ∈ digitCharacters) (hlength : s.length = t.length)
    (hvalue : digitsValue s = digitsValue t) : s = t := by
  -- behind a one, so that no zero is in front
  have hone : digitsOf 1 ++ s = digitsOf 1 ++ t := by
    rw [digitsOf_append hs one_pos, digitsOf_append ht one_pos, hlength, hvalue]
  exact List.append_cancel_left hone

/-- No number has a zero in front of its digits. -/
theorem head?_digitsOf (n : ℕ) : (digitsOf n).head? = some '0' → digitsOf n = ['0'] := by
  induction n using Nat.strongRecOn with
  | ind n ih =>
    intro hhead
    by_cases hsmall : n < 10
    · rw [digitsOf, Nat.toDigits_of_lt_base hsmall, List.head?_cons, Option.some.injEq] at hhead
      rw [digitsOf, Nat.toDigits_of_lt_base hsmall, hhead]
    · have hdigits : digitsOf n = digitsOf (n / 10) ++ [Nat.digitChar (n % 10)] :=
        Nat.toDigits_of_base_le (by norm_num) (not_lt.1 hsmall)
      have hne : digitsOf (n / 10) ≠ [] := Nat.toDigits_ne_nil
      rw [hdigits, List.head?_append_of_ne_nil _ hne] at hhead
      have hzero : digitsValue (digitsOf (n / 10)) = digitsValue ['0'] := by
        rw [ih (n / 10) (by omega) hhead]
      rw [digitsValue_digitsOf] at hzero
      have : digitsValue ['0'] = 0 := rfl
      omega

/-- No zero is left at the end. -/
theorem getLast?_dropTrailingZeros (ds : List Char) : (dropTrailingZeros ds).getLast? ≠ some '0' := by
  intro hlast
  have hhead := List.head?_dropWhile_not (· == '0') ds.reverse
  rw [dropTrailingZeros, List.getLast?_reverse] at hlast
  rw [hlast] at hhead
  simp at hhead

/-! ## Expansions -/

/-- The digits of a number before and after the separator: no zeros in front but a single one for an
integer part of zero, and no zeros at the end of the places. -/
structure IsExpansion (q : ℚ) (whole fraction : List Char) : Prop where
  whole_digits : ∀ c ∈ whole, c ∈ digitCharacters
  fraction_digits : ∀ c ∈ fraction, c ∈ digitCharacters
  whole_ne_nil : whole ≠ []
  no_leading_zero : whole.head? = some '0' → whole = ['0']
  no_trailing_zero : fraction.getLast? ≠ some '0'
  value : (digitsValue (whole ++ fraction) : ℚ) / 10 ^ fraction.length = q

namespace IsExpansion

variable {q : ℚ} {w v f g : List Char}

/-- Of two expansions of one number, none has more places. -/
theorem length_le (h : IsExpansion q w f) (h' : IsExpansion q v g) : f.length ≤ g.length := by
  by_contra hlt
  rw [not_le] at hlt
  -- more places than another expansion end in a zero
  have hvalue : digitsValue (w ++ f) = digitsValue (v ++ g) * 10 ^ (f.length - g.length) := by
    have heq := h.value.trans h'.value.symm
    rw [div_eq_div_iff (by positivity) (by positivity)] at heq
    have hpow : 10 ^ f.length = 10 ^ (f.length - g.length) * 10 ^ g.length := by
      rw [← pow_add, Nat.sub_add_cancel hlt.le]
    have heq : digitsValue (w ++ f) * 10 ^ g.length = digitsValue (v ++ g) * 10 ^ f.length := by
      exact_mod_cast heq
    rw [hpow, ← mul_assoc] at heq
    exact Nat.eq_of_mul_eq_mul_right (by positivity) heq
  have hne : f ≠ [] := by
    rintro rfl
    simp at hlt
  obtain ⟨init, c, rfl⟩ : ∃ init c, f = init ++ [c] :=
    ⟨f.dropLast, f.getLast hne, (List.dropLast_append_getLast hne).symm⟩
  have hdvd : 10 ∣ digitsValue (w ++ (init ++ [c])) := by
    rw [hvalue]
    exact Dvd.dvd.mul_left (dvd_pow_self 10 (Nat.sub_ne_zero_of_lt hlt)) _
  rw [← List.append_assoc, digitsValue_append, List.length_singleton, pow_one] at hdvd
  have hdigit : 10 ∣ digitsValue [c] := (Nat.dvd_add_right (Dvd.intro_left _ rfl)).1 hdvd
  have hc := h.fraction_digits c (by simp)
  have hlt := (digitsOf_digitsValue_singleton hc).2
  have hzero := eq_zero_of_digitsValue hc (by omega)
  exact h.no_trailing_zero (by simp [hzero])

/-- A number has one expansion. -/
theorem unique (h : IsExpansion q w f) (h' : IsExpansion q v g) : w = v ∧ f = g := by
  have hlength : f.length = g.length := le_antisymm (h.length_le h') (h'.length_le h)
  have hvalue : digitsValue (w ++ f) = digitsValue (v ++ g) := by
    have heq := h.value.trans h'.value.symm
    rw [hlength, div_left_inj' (by positivity)] at heq
    exact_mod_cast heq
  rw [digitsValue_append, digitsValue_append, hlength] at hvalue
  have hf := digitsValue_lt h.fraction_digits
  have hg := digitsValue_lt h'.fraction_digits
  rw [hlength] at hf
  have hpos : 0 < 10 ^ g.length := by positivity
  have hwhole : digitsValue w = digitsValue v := by
    calc digitsValue w = (digitsValue w * 10 ^ g.length + digitsValue f) / 10 ^ g.length := by
          rw [mul_comm, Nat.mul_add_div hpos, Nat.div_eq_of_lt hf, Nat.add_zero]
      _ = digitsValue v := by
        rw [hvalue, mul_comm, Nat.mul_add_div hpos, Nat.div_eq_of_lt hg, Nat.add_zero]
  have hfraction : digitsValue f = digitsValue g := by
    rw [hwhole] at hvalue
    exact Nat.add_left_cancel hvalue
  constructor
  · rw [← digitsOf_digitsValue h.whole_digits h.whole_ne_nil h.no_leading_zero, hwhole,
      digitsOf_digitsValue h'.whole_digits h'.whole_ne_nil h'.no_leading_zero]
  · exact eq_of_digitsValue_eq h.fraction_digits h'.fraction_digits hlength hfraction

end IsExpansion

/-- The places of a number, of which there are as many as are asked for. -/
theorem length_padLeft_digitsOf {places r : ℕ} (hplaces : 0 < places) (hr : r < 10 ^ places) :
    (padLeft places (digitsOf r)).length = places := by
  have hle : (digitsOf r).length ≤ places := (Nat.length_toDigits_le_iff (by norm_num) hplaces).2 hr
  rw [padLeft, List.length_append, List.length_replicate]
  omega

/-- Zeros at the end of a fraction do not matter. -/
theorem value_dropTrailingZeros (w ds : List Char) :
    (digitsValue (w ++ dropTrailingZeros ds) : ℚ) / 10 ^ (dropTrailingZeros ds).length =
      digitsValue (w ++ ds) / 10 ^ ds.length := by
  have hdigits := dropTrailingZeros_append ds
  generalize ds.length - (dropTrailingZeros ds).length = zeros at hdigits
  generalize dropTrailingZeros ds = f at hdigits ⊢
  subst hdigits
  rw [← List.append_assoc, digitsValue_append (w ++ f), digitsValue_replicate_zero, Nat.add_zero,
    List.length_append, List.length_replicate, pow_add]
  push_cast
  field_simp

/-- The digits that a number of last places is written with. -/
theorem isExpansion_places (n places : ℕ) : IsExpansion (n / 10 ^ places)
    (digitsOf (n / tenTo places))
    (dropTrailingZeros (padLeft places (digitsOf (n % tenTo places)))) := by
  have hten : tenTo places = 10 ^ places := rfl
  have hdigits : ∀ c ∈ padLeft places (digitsOf (n % tenTo places)), c ∈ digitCharacters :=
    fun c hc => mem_digitCharacters_of_mem_padLeft hc
  refine ⟨fun c hc => mem_digitCharacters_of_mem_digitsOf hc, fun c hc => hdigits c ?_,
    Nat.toDigits_ne_nil, head?_digitsOf _, getLast?_dropTrailingZeros _, ?_⟩
  · rw [dropTrailingZeros, List.mem_reverse] at hc
    exact List.mem_reverse.1 ((List.dropWhile_sublist _).mem hc)
  · rw [value_dropTrailingZeros, digitsValue_append, digitsValue_digitsOf, digitsValue_padLeft, hten]
    rcases Nat.eq_zero_or_pos places with rfl | hplaces
    · have hlength : (padLeft 0 (digitsOf (n % 10 ^ 0))).length = 1 := by
        rw [pow_zero, Nat.mod_one]
        rfl
      rw [hlength, pow_zero, Nat.mod_one, Nat.div_one]
      push_cast
      ring
    · rw [length_padLeft_digitsOf hplaces (Nat.mod_lt _ (by positivity)), Nat.div_add_mod']

/-! ## Groups of three digits -/

/-- Digits in groups of three, counted from the right, with a mark in front of every group but the
first. -/
inductive InThrees (mark : Char) : List Char → List Char → Prop where
  | first {ds : List Char} (hne : ds ≠ []) (hlength : ds.length ≤ 3) : InThrees mark ds ds
  | group {ds text : List Char} (a b c : Char) (h : InThrees mark ds text) :
    InThrees mark (ds ++ [a, b, c]) (text ++ [mark, a, b, c])

namespace InThrees

variable {mark : Char} {ds s t : List Char}

/-- Groups of digits are not empty. -/
theorem ne_nil (h : InThrees mark ds s) : ds ≠ [] := by
  cases h with
  | first hne => exact hne
  | group => simp

/-- A group is put behind other digits. -/
theorem not_length_le {a b c : Char} (h : InThrees mark ds s) : ¬ (ds ++ [a, b, c]).length ≤ 3 := by
  have hpos := List.length_pos_of_ne_nil h.ne_nil
  rw [List.length_append, not_le]
  exact Nat.lt_add_of_pos_left hpos

/-- The groups are determined by the digits. -/
theorem unique (hs : InThrees mark ds s) (ht : InThrees mark ds t) : s = t := by
  induction hs generalizing t with
  | first hne hlength =>
    cases ht with
    | first => rfl
    | group _ _ _ h => exact absurd hlength h.not_length_le
  | @group ds' text a b c h ih =>
    generalize hds : ds' ++ [a, b, c] = ds at ht
    cases ht with
    | first hne hlength => exact absurd (hds ▸ hlength) h.not_length_le
    | group a' b' c' h' =>
      obtain ⟨rfl, hgroup⟩ := List.append_inj' hds rfl
      cases hgroup
      rw [ih h']

end InThrees

/-- A further group does not change those in front of it. -/
theorem groupThousands_append (mark a b c : Char) {ds : List Char} (hne : ds ≠ []) :
    groupThousands mark (ds ++ [a, b, c]) = groupThousands mark ds ++ [mark, a, b, c] := by
  induction ds with
  | nil => exact absurd rfl hne
  | cons d ds ih =>
    have hmod : (ds ++ [a, b, c]).length % 3 = ds.length % 3 := by simp
    by_cases hds : ds = []
    · subst hds
      simp [groupThousands]
    · rw [List.cons_append, groupThousands, groupThousands, ih hds, hmod]
      by_cases hfull : ds.length % 3 = 0
      · simp [hfull, hds]
      · simp [hfull]

/-- The marks are put in front of every third digit from the right. -/
theorem inThrees_groupThousands (mark : Char) {ds : List Char} (hne : ds ≠ []) :
    InThrees mark ds (groupThousands mark ds) := by
  induction hlength : ds.length using Nat.strongRecOn generalizing ds with
  | ind n ih =>
    by_cases hshort : n ≤ 3
    · have hsame : groupThousands mark ds = ds := by
        match ds with
        | [] | [_] | [_, _] | [_, _, _] => simp [groupThousands]
        | _ :: _ :: _ :: _ :: _ =>
          simp at hlength
          omega
      rw [hsame]
      exact .first hne (hlength.trans_le hshort)
    · -- the last three digits are a group
      have hinit : ds.take (n - 3) ≠ [] := by
        rw [ne_eq, List.take_eq_nil_iff, or_iff_left hne]
        omega
      have hlast : (ds.drop (n - 3)).length = 3 := by
        rw [List.length_drop]
        omega
      obtain ⟨a, b, c, habc⟩ := List.length_eq_three.1 hlast
      rw [← List.take_append_drop (n - 3) ds, habc, groupThousands_append _ _ _ _ hinit]
      exact .group a b c (ih (ds.take (n - 3)).length (by rw [List.length_take]; omega) hinit rfl)

namespace NumberFormat

variable {f : NumberFormat} {whole text : List Char}

/-- One more group of three digits behind the others. -/
theorem isTriples_append {mark a b c : Char} (ha : isDecimalDigit a = true)
    (hb : isDecimalDigit b = true) (hc : isDecimalDigit c = true) : ∀ {rest : List Char},
    isTriples mark rest = true → isTriples mark (rest ++ [mark, a, b, c]) = true
  | [], _ => by simp [isTriples, ha, hb, hc]
  | m :: x :: y :: z :: rest, h => by
    rw [isTriples, Bool.and_eq_true] at h
    rw [List.cons_append, List.cons_append, List.cons_append, List.cons_append, isTriples, h.1,
      isTriples_append ha hb hc h.2, Bool.and_true]
  | [_], h | [_, _], h | [_, _, _], h => nomatch h

/-- Grouped digits are a first group, and then groups with marks in front. -/
theorem exists_isTriples {mark : Char} (h : InThrees mark whole text)
    (hwhole : ∀ c ∈ whole, isDecimalDigit c = true) :
    ∃ first rest, text = first ++ rest ∧ (∀ c ∈ first, isDecimalDigit c = true) ∧ first ≠ [] ∧
      first.length ≤ 3 ∧ isTriples mark rest = true := by
  induction h with
  | @first ds hne hlength => exact ⟨ds, [], by simp, hwhole, hne, hlength, rfl⟩
  | @group ds text a b c h ih =>
    obtain ⟨first, rest, rfl, hfirst, hne, hlength, hrest⟩ := ih fun d hd => hwhole d (by simp [hd])
    have hgroup : isTriples mark (rest ++ [mark, a, b, c]) = true :=
      isTriples_append (hwhole a (by simp)) (hwhole b (by simp)) (hwhole c (by simp)) hrest
    exact ⟨first, rest ++ [mark, a, b, c], by simp, hfirst, hne, hlength, hgroup⟩

/-- Grouped digits are the part of a number before the decimal separator. -/
theorem isWhole_of_inThrees (hused : f.groupingUsed = true) (h : InThrees f.grouping whole text)
    (hwhole : ∀ c ∈ whole, isDecimalDigit c = true) : f.isWhole text = true := by
  obtain ⟨first, rest, rfl, hfirst, hne, hlength, hrest⟩ := exists_isTriples h hwhole
  by_cases hnil : rest = []
  · rw [hnil, List.append_nil]
    exact f.isWhole_digits hfirst hne
  · have hhead : ∀ c ∈ rest.head?, isDecimalDigit c = false := by
      match rest, hrest with
      | m :: _ :: _ :: _ :: _, hrest =>
        rw [isTriples, Bool.and_eq_true, Bool.and_eq_true, Bool.and_eq_true, Bool.and_eq_true,
          beq_iff_eq] at hrest
        intro c hc
        rw [List.head?_cons, Option.mem_some_iff] at hc
        by_contra hdigit
        exact (f.ne_mark (by simpa using hdigit)).2 (hc ▸ hrest.1.1.1.1)
    obtain ⟨htake, hdrop⟩ := span_append hfirst hhead
    have hpos : 1 ≤ first.length := List.length_pos_of_ne_nil hne
    have hgrouped : isGrouped f.grouping (first ++ rest) = true := by
      simp only [isGrouped, htake, hdrop, hrest, decide_eq_true hpos, decide_eq_true hlength]
      simpa using hnil
    simp [isWhole, hused, hgrouped]

/-- The digits are left when the marks are taken out. -/
theorem normalized_of_inThrees (hused : f.groupingUsed = true) (h : InThrees f.grouping whole text)
    (hwhole : ∀ c ∈ whole, isDecimalDigit c = true) : f.normalized text = whole := by
  have hmark : f.normalized [f.grouping] = [] := by
    simp [normalized, hused]
  induction h with
  | first => exact f.normalized_digits hwhole
  | @group ds text a b c h ih =>
    have hgroup : f.normalized [a, b, c] = [a, b, c] :=
      f.normalized_digits fun d hd => hwhole d (List.mem_append_right _ hd)
    rw [normalized_append, ih fun d hd => hwhole d (by simp [hd]), ← List.singleton_append,
      normalized_append, hmark, hgroup, List.nil_append]

end NumberFormat

end Formulary
