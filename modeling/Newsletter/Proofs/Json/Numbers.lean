/-
Numbers of JSON values as numerals. Main statement: every number is read back from the numeral that
it is written as, an integer as that integer and a double as that double.
-/
import Newsletter.Json.Number
import Newsletter.Proofs.Binary.Printed

namespace Newsletter.Json.Number

/-! ## Integers -/

theorem integer?_integerNumeral (n : Integer) : integer? (integerNumeral n.value) = some n := by
  obtain ⟨value, least, below⟩ := n
  have hsame : (if decide (value < 0) = true then -(value.natAbs : Int) else value.natAbs) = value := by
    split
    · rename_i h
      rw [decide_eq_true_iff] at h
      omega
    · rename_i h
      rw [decide_eq_true_iff] at h
      omega
  have hsign : ¬(decide (value < 0) = true ∧ value.natAbs = 0) := by
    rw [decide_eq_true_iff]
    omega
  unfold integer? integerNumeral
  dsimp only
  rw [dif_pos ⟨rfl, rfl, hsign, by omega, by omega⟩]
  simp only [hsame]

/-! ## Doubles -/

theorem integer?_eq_none {n : Numeral} (h : n.fraction ≠ [] ∨ n.exponent ≠ none) :
    integer? n = none := by
  refine dif_neg fun hinteger => ?_
  rcases h with hfraction | hexponent
  · exact hfraction hinteger.1
  · exact hexponent hinteger.2.1

/-- A double is written with a fraction or an exponent, and so never as an integer. -/
theorem integer?_numeral (x : Double) : integer? (layout.numeral x) = none := by
  apply integer?_eq_none
  unfold Layout.numeral
  split
  · exact .inl (List.cons_ne_nil _ _)
  · dsimp only
    split
    · unfold Layout.positional
      split
      · exact .inl (List.cons_ne_nil _ _)
      · exact .inl (Digits.places_ne_nil (by omega) _)
    · exact .inr (Option.some_ne_none _)

/-- The doubles are far from magnitudes of more than 400 places. -/
theorem double_range : (2 : ℚ) ^ (53 + 971 : ℤ) < 10 ^ (400 : ℤ) ∧
    (10 : ℚ) ^ (-400 : ℤ) < 2 ^ (-1074 - 1 : ℤ) := by
  have hgreatest : (2 : ℕ) ^ 1024 < 10 ^ 400 := by decide +kernel
  have hleast : (2 : ℕ) ^ 1075 < 10 ^ 400 := by decide +kernel
  constructor
  · show (2 : ℚ) ^ ((1024 : ℕ) : ℤ) < 10 ^ ((400 : ℕ) : ℤ)
    rw [zpow_natCast, zpow_natCast]
    exact_mod_cast hgreatest
  · show (10 : ℚ) ^ (-(400 : ℕ) : ℤ) < 2 ^ (-(1075 : ℕ) : ℤ)
    rw [zpow_neg, zpow_neg, zpow_natCast, zpow_natCast, inv_lt_inv₀ (by positivity) (by positivity)]
    exact_mod_cast hleast

/-- A decimal that is rounded to a double other than zero is neither too long nor too short to be
rounded at all. -/
theorem nearestDouble?_of_readsBack {x : Double} {d : Decimal} (hx : x.mantissa ≠ 0)
    (h : x.ReadsBack d) : nearestDouble? x.negative d = some x := by
  have hdigits := Binary.digits_ne_zero hx h
  obtain ⟨hsmall, hlarge⟩ := Binary.bounds_of_nearest? hx d.ratio_pos h
  obtain ⟨hlow, hhigh⟩ := Decimal.bounds_point hdigits
  rw [d.ratio_value] at hsmall hlarge
  have habove : ¬400 < d.point := by
    intro hpoint
    have hle : (10 : ℚ) ^ (400 : ℤ) ≤ 10 ^ (d.point - 1) :=
      zpow_le_zpow_right₀ (by norm_num) (by omega)
    exact absurd (hle.trans (hlow.trans hlarge.le)) double_range.1.not_ge
  have hbelow : ¬d.point < -400 := by
    intro hpoint
    have hle : (10 : ℚ) ^ d.point ≤ 10 ^ (-400 : ℤ) :=
      zpow_le_zpow_right₀ (by norm_num) (by omega)
    exact absurd (hsmall.trans (hhigh.le.trans hle)) double_range.2.not_ge
  unfold nearestDouble?
  rw [if_neg hdigits, if_neg habove, if_neg hbelow]
  exact h

theorem nearestDouble?_numeral (x : Double) :
    nearestDouble? (layout.numeral x).negative (layout.numeral x).magnitude = some x := by
  by_cases hx : x.mantissa = 0
  · have hzero : x.isZero = true := by
      unfold Binary.isZero
      rw [hx]
      rfl
    unfold Layout.numeral
    rw [if_pos hzero]
    exact congrArg some (Binary.eq_zero hx).symm
  · obtain ⟨hsign, hread⟩ := layout.readsBack_numeral hx
    rw [hsign]
    exact nearestDouble?_of_readsBack hx hread

/-- Every number is read back from its numeral. -/
theorem ofNumeral?_toNumeral (n : Number) : ofNumeral? n.toNumeral = some n := by
  cases n with
  | integer n =>
    unfold toNumeral ofNumeral?
    dsimp only
    rw [integer?_integerNumeral]
  | float x =>
    unfold toNumeral ofNumeral?
    dsimp only
    rw [integer?_numeral, nearestDouble?_numeral, Option.map_some]

end Newsletter.Json.Number
