import Calculator.Proofs.Binary64.Integers
import Calculator.RandomSource

/-!
# The numbers of a random source

Every number drawn is a multiple of `2 ^ -53` in `[0, 1)`, with nothing lost in the arithmetic of
doubles (`hasValue_draw`, `draw_bounds`). No two draws have anything to do with each other: for any
choice of such multiples, one for each place, there is a source that gives just these
(`exists_source`).
-/

namespace Calculator

open Binary64 (HasValue)

namespace RandomSource

/-- The multiple of `2 ^ -53` that is drawn. -/
def numerator (source : RandomSource) : Nat :=
  (source.word [] >>> 11).toNat

theorem numerator_eq (source : RandomSource) :
    source.numerator = (source.word []).toNat / 2 ^ 11 := by
  rw [numerator, UInt64.toNat_shiftRight]
  exact Nat.shiftRight_eq_div_pow ..

theorem numerator_lt (source : RandomSource) : source.numerator < 2 ^ 53 := by
  have word := (source.word []).toNat_lt
  rw [numerator_eq]
  omega

theorem hasValue_draw (source : RandomSource) :
    HasValue source.draw (source.numerator / 2 ^ 53) := by
  have short := source.numerator_lt
  have integral : Binary64.Representable source.numerator :=
    Binary64.representable_int (n := source.numerator) (by rw [Nat.abs_cast]; omega)
  have scale : HasValue 9007199254740992 (2 ^ 53) :=
    Binary64.hasValue_of_ofFloat (m := 2 ^ 52) (e := 1) (by decide +kernel) (by norm_num)
  refine (Binary64.hasValue_toFloat integral).div scale (by norm_num) ?_
  have scaled := Binary64.representable_scaled (n := source.numerator) (e := -53) (by omega)
    (by decide) (by decide)
  rwa [zpow_neg, ← div_eq_mul_inv] at scaled

/-- Every number drawn is in `[0, 1)`. -/
theorem draw_bounds (source : RandomSource) :
    0 ≤ source.draw ∧ source.draw < 1 := by
  have value := source.hasValue_draw
  have short : (source.numerator : ℚ) < 2 ^ 53 := by exact_mod_cast source.numerator_lt
  constructor
  · rw [Binary64.hasValue_zero.le_iff value]
    positivity
  · rwa [value.lt_iff Binary64.hasValue_one, div_lt_one (by norm_num)]

/-- The source at the end of a path of splits. -/
def descend (source : RandomSource) (path : List Nat) : RandomSource :=
  path.foldl child source

theorem word_descend (source : RandomSource) (path rest : List Nat) :
    (source.descend path).word rest = source.word (path ++ rest) := by
  induction path generalizing source with
  | nil => rfl
  | cons i path ih => exact ih (source.child i)

/-- The source with the given upper bits at each place. -/
def ofNumerators (numerators : List Nat → Nat) : RandomSource :=
  ⟨fun path => UInt64.ofNat (numerators path * 2 ^ 11)⟩

theorem numerator_ofNumerators {numerators : List Nat → Nat} {path : List Nat}
    (short : numerators path < 2 ^ 53) :
    ((ofNumerators numerators).descend path).numerator = numerators path := by
  have word : numerators path * 2 ^ 11 < UInt64.size := by
    change _ < 2 ^ 64
    omega
  rw [numerator_eq, word_descend, List.append_nil, ofNumerators, UInt64.toNat_ofNat_of_lt' word]
  exact Nat.mul_div_cancel _ (by norm_num)

/-- Any numbers can be drawn, at all places independently of each other. -/
theorem exists_source (numerators : List Nat → Nat) (short : ∀ path, numerators path < 2 ^ 53) :
    ∃ source : RandomSource, ∀ path,
      HasValue (source.descend path).draw (numerators path / 2 ^ 53) := by
  refine ⟨ofNumerators numerators, fun path => ?_⟩
  have drawn := ((ofNumerators numerators).descend path).hasValue_draw
  rwa [numerator_ofNumerators (short path)] at drawn

end RandomSource

end Calculator
