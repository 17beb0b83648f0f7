import Mathlib
import Calculator.Text.Lowercase

/-!
# Lower-case texts

A lower-case form consists of characters that lower-casing leaves alone, so lower case is reached in
one step (`lowercase_lowercase`). Which lower-case form a text has does not depend on the case of
its Latin letters (`lowercase_eq_of_recased`). A capital sigma looks for other letters around it, but
only at what is the same for both forms of a Latin letter: that it has a case and is not
case-ignorable.
-/

namespace Calculator

namespace Text

/-! ## Characters that are left alone -/

/-- Lower-casing leaves the character alone, wherever it stands. -/
def Fixed (c : Char) : Prop :=
  c ≠ capitalSigma ∧ lowercaseChar c = [c]

instance : DecidablePred Fixed :=
  fun _ => inferInstanceAs (Decidable (_ ∧ _))

theorem lowercaseAfter_of_fixed (before : List Char) {s : List Char} (fixed : ∀ c ∈ s, Fixed c) :
    lowercaseAfter before s = s := by
  induction s generalizing before with
  | nil => rfl
  | cons c s ih =>
    obtain ⟨⟨noSigma, same⟩, rest⟩ := List.forall_mem_cons.1 fixed
    rw [lowercaseAfter, if_neg noSigma, same, ih (c :: before) rest]
    rfl

/-! ## Letters of the table -/

theorem CaseRange.pairs_iff {r : CaseRange} {c : Char} :
    r.pairs c = true ↔
      (r.first ≤ c.toNat ∧ c.toNat ≤ r.last) ∧ (c.toNat - r.first) % r.step = 0 := by
  simp only [pairs, CodeRange.covers, Bool.and_eq_true, decide_eq_true_eq]

/-- The partners of the letters of a range. -/
def CaseRange.partners (r : CaseRange) : CaseRange :=
  ⟨⟨(r.first + r.offset).toNat, (r.last + r.offset).toNat⟩, r.step, -r.offset⟩

/-- The two ranges have no letter in common: one of them lies before the other, or the letters of
`r` are in the gaps that `r'` has after each of its letters. -/
def CaseRange.apart (r r' : CaseRange) : Bool :=
  r.last.blt r'.first || r'.last.blt r.first ||
    (r'.step == 2 && (r.step == 2 || r.first == r.last) && (r.first + r'.first) % 2 == 1)

theorem CaseRange.not_pairs_of_apart {r r' : CaseRange} (apart : r.apart r' = true) {c : Char}
    (paired : r.pairs c = true) : ¬ r'.pairs c = true := by
  simp only [CaseRange.apart, Bool.or_eq_true, Bool.and_eq_true, Nat.blt_eq, beq_iff_eq] at apart
  rw [pairs_iff] at paired ⊢
  obtain ⟨⟨first, last⟩, place⟩ := paired
  rintro ⟨⟨first', last'⟩, place'⟩
  rcases apart with (before | behind) | ⟨⟨two', two | single⟩, odd⟩
  · omega
  · omega
  · rw [two] at place
    rw [two'] at place'
    omega
  · rw [two'] at place'
    omega

theorem CaseRange.partners_pairs {r : CaseRange} (first : 0 ≤ r.first + r.offset) {c d : Char}
    (paired : r.pairs c = true) (partner : d.toNat = (c.toNat + r.offset).toNat) :
    r.partners.pairs d = true := by
  rw [pairs_iff] at paired ⊢
  obtain ⟨between, place⟩ := paired
  have same : (c.toNat + r.offset).toNat - (r.first + r.offset).toNat = c.toNat - r.first := by
    omega
  refine ⟨?_, by rw [partner, partners, same, place]⟩
  dsimp only [partners]
  omega

/-- The letters that lower-casing changes: those of the table, and the two that are not in it. -/
def changedRanges : List CaseRange :=
  ⟨⟨0x130, 0x130⟩, 1, -199⟩ :: ⟨⟨0x3a3, 0x3a3⟩, 1, 32⟩ :: lowercaseRanges

theorem fixed_of_not_pairs {c : Char} (unpaired : ∀ r ∈ changedRanges, ¬ r.pairs c = true) :
    Fixed c := by
  obtain ⟨noDotted, unpaired⟩ := List.forall_mem_cons.1 unpaired
  obtain ⟨noSigma, unpaired⟩ := List.forall_mem_cons.1 unpaired
  have plain : c ≠ 'İ' := by
    rintro rfl
    exact noDotted (by decide)
  refine ⟨?_, by rw [lowercaseChar, if_neg plain, List.find?_eq_none.2 unpaired]⟩
  rintro rfl
  exact noSigma (by decide)

theorem apart_of_mem_lowercaseRanges {r r' : CaseRange} (listed : r ∈ lowercaseRanges)
    (listed' : r' ∈ changedRanges) : r.partners.apart r' = true := by
  have all : (lowercaseRanges.all fun r => changedRanges.all r.partners.apart) = true := by
    decide +kernel
  exact List.all_eq_true.1 (List.all_eq_true.1 all r listed) r' listed'

theorem first_of_mem_lowercaseRanges : ∀ r ∈ lowercaseRanges, 0 ≤ r.first + r.offset := by
  decide +kernel

theorem toNat_ofNat_eq (n : Nat) : (Char.ofNat n).toNat = n ∨ Char.ofNat n = '\x00' := by
  unfold Char.ofNat
  split
  · exact .inl rfl
  · exact .inr rfl

/-- The partner of a letter in the table is none of the letters that have partners. -/
theorem fixed_of_pairs {r : CaseRange} (listed : r ∈ lowercaseRanges) {c : Char}
    (paired : r.pairs c = true) : Fixed (Char.ofNat (c.toNat + r.offset).toNat) := by
  rcases toNat_ofNat_eq (c.toNat + r.offset).toNat with partner | zero
  · have found := CaseRange.partners_pairs (first_of_mem_lowercaseRanges r listed) paired partner
    exact fixed_of_not_pairs fun r' listed' =>
      CaseRange.not_pairs_of_apart (apart_of_mem_lowercaseRanges listed listed') found
  · -- A number that is no code point would stand for the null character, which is left alone too.
    rw [zero]
    decide +kernel

theorem fixed_of_mem_lowercaseChar {c d : Char} (noSigma : c ≠ capitalSigma)
    (listed : d ∈ lowercaseChar c) : Fixed d := by
  unfold lowercaseChar at listed
  split at listed
  · rcases List.mem_pair.1 listed with rfl | rfl <;> decide +kernel
  · next plain =>
    split at listed
    · next r found =>
      have paired := List.find?_some found
      obtain rfl := List.mem_singleton.1 listed
      exact fixed_of_pairs (List.mem_of_find?_eq_some found) paired
    · next missing =>
      obtain rfl := List.mem_singleton.1 listed
      exact ⟨noSigma, by rw [lowercaseChar, if_neg plain, missing]⟩

/-! ## Lower case of lower case -/

theorem fixed_of_mem_lowercaseAfter (before s : List Char) :
    ∀ c ∈ lowercaseAfter before s, Fixed c := by
  induction s generalizing before with
  | nil => exact nofun
  | cons c s ih =>
    rw [lowercaseAfter]
    refine List.forall_mem_append.2 ⟨?_, ih (c :: before)⟩
    split
    · unfold lowercaseSigma
      split <;> exact List.forall_mem_singleton.2 (by decide +kernel)
    · next noSigma => exact fun d listed => fixed_of_mem_lowercaseChar noSigma listed

theorem fixed_of_mem_lowercase (s : List Char) : ∀ c ∈ lowercase s, Fixed c :=
  fixed_of_mem_lowercaseAfter [] s

theorem lowercase_lowercase (s : List Char) : lowercase (lowercase s) = lowercase s :=
  lowercaseAfter_of_fixed [] (fixed_of_mem_lowercase s)

/-! ## Latin letters -/

theorem isUpper_iff {c : Char} : c.isUpper = true ↔ 65 ≤ c.toNat ∧ c.toNat ≤ 90 := by
  simp only [Char.isUpper, decide_eq_true_eq, ge_iff_le, UInt32.le_iff_toNat_le]
  rfl

theorem isAlpha_iff {c : Char} :
    c.isAlpha = true ↔ 65 ≤ c.toNat ∧ c.toNat ≤ 90 ∨ 97 ≤ c.toNat ∧ c.toNat ≤ 122 := by
  rw [Char.isAlpha, Bool.or_eq_true, isUpper_iff]
  simp only [Char.isLower, Bool.and_eq_true, decide_eq_true_eq, ge_iff_le, UInt32.le_iff_toNat_le]
  rfl

/-- The capital letters are the only ASCII characters that lower-casing changes. -/
theorem first_of_mem_changedRanges :
    ∀ r ∈ changedRanges, r.first = 65 ∧ r.last = 90 ∨ 128 ≤ r.first := by
  decide +kernel

theorem find?_of_isUpper {c : Char} (upper : c.isUpper = true) :
    lowercaseRanges.find? (·.pairs c) = some ⟨⟨0x41, 0x5a⟩, 1, 32⟩ :=
  List.find?_cons_of_pos (CaseRange.pairs_iff.2 ⟨isUpper_iff.1 upper, Nat.mod_one _⟩)

theorem lowercaseChar_ascii {c : Char} (ascii : c.toNat < 128) :
    lowercaseChar c = [c.toLower] := by
  by_cases upper : c.isUpper
  · have plain : c ≠ 'İ' := by
      rintro rfl
      exact absurd ascii (by decide)
    rw [lowercaseChar, if_neg plain, find?_of_isUpper upper, Char.toLower_eq_of_isUpper upper]
    rfl
  · rw [Char.toLower_eq_of_not_isUpper upper]
    refine (fixed_of_not_pairs fun r listed => ?_).2
    rw [isUpper_iff] at upper
    rw [CaseRange.pairs_iff]
    have := first_of_mem_changedRanges r listed
    omega

theorem lowercaseAfter_ascii (before : List Char) {s : List Char} (ascii : ∀ c ∈ s, c.toNat < 128) :
    lowercaseAfter before s = s.map Char.toLower := by
  induction s generalizing before with
  | nil => rfl
  | cons c s ih =>
    obtain ⟨first, rest⟩ := List.forall_mem_cons.1 ascii
    have noSigma : c ≠ capitalSigma := by
      rintro rfl
      exact absurd first (by decide)
    rw [lowercaseAfter, if_neg noSigma, lowercaseChar_ascii first, ih (c :: before) rest]
    rfl

theorem lowercase_ascii {s : List Char} (ascii : ∀ c ∈ s, c.toNat < 128) :
    lowercase s = s.map Char.toLower :=
  lowercaseAfter_ascii [] ascii

theorem Fixed.isUpper {c : Char} (fixed : Fixed c) : c.isUpper = false := by
  refine Bool.eq_false_iff.2 fun upper => ?_
  have ascii : c.toNat < 128 := by
    have := isUpper_iff.1 upper
    omega
  have same : [c.toLower] = [c] := (lowercaseChar_ascii ascii).symm.trans fixed.2
  rw [← List.singleton_inj.1 same, Char.isUpper_toLower_eq_false] at upper
  cases upper

theorem isUpper_lowercase (s : List Char) : ∀ c ∈ lowercase s, c.isUpper = false :=
  fun c listed => (fixed_of_mem_lowercase s c listed).isUpper

theorem toLower_of_not_isAlpha {c : Char} (noLetter : ¬ c.isAlpha = true) : c.toLower = c :=
  Char.toLower_eq_of_not_isUpper fun upper => noLetter (by rw [Char.isAlpha, upper, Bool.true_or])

/-- What is the same for all Latin letters does not depend on the case of a letter. -/
theorem apply_toLower {α : Type} (f : Char → α) {a : α}
    (same : ∀ c : Char, c.isAlpha = true → f c = a) (c : Char) : f c.toLower = f c := by
  by_cases letter : c.isAlpha
  · rw [same c letter, same c.toLower (by rwa [Char.isAlpha_toLower_eq_isAlpha])]
  · rw [toLower_of_not_isAlpha letter]

theorem isCased_toLower (c : Char) : isCased c.toLower = isCased c := by
  refine apply_toLower isCased (a := true) (fun c letter => List.any_eq_true.2 ?_) c
  rcases isAlpha_iff.1 letter with capital | small
  · exact ⟨⟨0x41, 0x5a⟩, by simp [casedRanges], decide_eq_true capital⟩
  · exact ⟨⟨0x61, 0x7a⟩, by simp [casedRanges], decide_eq_true small⟩

theorem last_of_mem_caseIgnorableRanges :
    ∀ r ∈ caseIgnorableRanges, r.last < 65 ∨ 90 < r.first ∧ r.last < 97 ∨ 122 < r.first := by
  decide +kernel

theorem isCaseIgnorable_toLower (c : Char) : isCaseIgnorable c.toLower = isCaseIgnorable c := by
  refine apply_toLower isCaseIgnorable (a := false)
    (fun c letter => List.any_eq_false.2 fun r listed => ?_) c
  have := isAlpha_iff.1 letter
  have := last_of_mem_caseIgnorableRanges r listed
  simp only [CodeRange.covers, decide_eq_true_eq]
  omega

theorem toLower_eq_capitalSigma (c : Char) : c.toLower = capitalSigma ↔ c = capitalSigma := by
  refine iff_of_eq (apply_toLower (· = capitalSigma) (a := False) (fun c letter => ?_) c)
  refine eq_false ?_
  rintro rfl
  exact absurd letter (by decide)

theorem lowercaseChar_toLower (c : Char) : lowercaseChar c.toLower = lowercaseChar c := by
  by_cases letter : c.isAlpha
  · have form (d : Char) (letter : d.isAlpha = true) : lowercaseChar d = [d.toLower] := by
      refine lowercaseChar_ascii ?_
      have := isAlpha_iff.1 letter
      omega
    rw [form c letter, form c.toLower (by rwa [Char.isAlpha_toLower_eq_isAlpha]),
      Char.toLower_toLower_eq_toLower]
  · rw [toLower_of_not_isAlpha letter]

theorem leadsToCased_map_toLower (s : List Char) :
    leadsToCased (s.map Char.toLower) = leadsToCased s := by
  simp only [leadsToCased, List.find?_map, Option.any_map, Function.comp_def, isCased_toLower,
    isCaseIgnorable_toLower]

theorem lowercaseAfter_map_toLower (before s : List Char) :
    lowercaseAfter (before.map Char.toLower) (s.map Char.toLower) = lowercaseAfter before s := by
  induction s generalizing before with
  | nil => rfl
  | cons c s ih =>
    have rest := ih (c :: before)
    rw [List.map_cons] at rest
    simp only [List.map_cons, lowercaseAfter, lowercaseSigma, leadsToCased_map_toLower,
      lowercaseChar_toLower, toLower_eq_capitalSigma, rest]

theorem lowercase_map_toLower (s : List Char) : lowercase (s.map Char.toLower) = lowercase s :=
  lowercaseAfter_map_toLower [] s

/-- The text `t` is the text `s` with the case of some Latin letters changed. -/
def Recased (s t : List Char) : Prop :=
  List.Forall₂ (fun c d => d = c ∨ c.isAlpha ∧ (d = c.toLower ∨ d = c.toUpper)) s t

instance (s t : List Char) : Decidable (Recased s t) :=
  inferInstanceAs (Decidable (List.Forall₂ _ s t))

theorem Recased.map_toLower {s t : List Char} (recased : Recased s t) :
    t.map Char.toLower = s.map Char.toLower := by
  induction recased with
  | nil => rfl
  | cons letter _ ih =>
    rw [List.map_cons, List.map_cons, ih]
    rcases letter with rfl | ⟨-, rfl | rfl⟩
    · rfl
    · rw [Char.toLower_toLower_eq_toLower]
    · rw [Char.toLower_toUpper_eq_toLower]

theorem lowercase_eq_of_recased {s t : List Char} (recased : Recased s t) :
    lowercase t = lowercase s := by
  rw [← lowercase_map_toLower t, recased.map_toLower, lowercase_map_toLower]

end Text

end Calculator
