/-
Rounding of fractions to binary numbers. Main facts: what a fraction is rounded to depends on its
value alone; the magnitude of a number is rounded to that number; and a fraction that is rounded to a
number other than zero is neither below half of the least number nor beyond the greatest one.
-/
import Newsletter.Binary.Basic
import Mathlib.Algebra.Order.Field.Power
import Mathlib.Algebra.Order.Ring.Rat
import Mathlib.Tactic.FieldSimp
import Mathlib.Tactic.Linarith
import Mathlib.Tactic.NormNum
import Mathlib.Tactic.Positivity
import Mathlib.Tactic.Ring

namespace Newsletter.Binary

variable {f : Format}

theorem two_zpow_pos (e : ℤ) : (0 : ℚ) < 2 ^ e := zpow_pos (by norm_num) e

/-! ## Rounding to integers -/

section

variable {num den num' den' : ℕ}

theorem roundQuotient_mul {c : ℕ} (hc : 0 < c) (num den : ℕ) :
    roundQuotient (c * num) (c * den) = roundQuotient num den := by
  have hlt : ∀ a b : ℕ, c * a < c * b ↔ a < b := fun a b => Nat.mul_lt_mul_left hc
  unfold roundQuotient
  rw [Nat.mul_div_mul_left _ _ hc, Nat.mul_mod_mul_left]
  simp only [Nat.mul_left_comm 2 c, hlt]

/-- Equal fractions are rounded to the same integer. -/
theorem roundQuotient_congr (hden : 0 < den) (hden' : 0 < den')
    (h : (num : ℚ) / den = num' / den') : roundQuotient num den = roundQuotient num' den' := by
  rw [div_eq_div_iff (by positivity) (by positivity)] at h
  have hcross : num * den' = num' * den := by exact_mod_cast h
  rw [← roundQuotient_mul hden' num den, ← roundQuotient_mul hden num' den', Nat.mul_comm den' num,
    hcross, Nat.mul_comm num', Nat.mul_comm den' den]

/-- An integer is rounded to itself. -/
theorem roundQuotient_natCast (hden : 0 < den) {n : ℕ} (h : (num : ℚ) / den = n) :
    roundQuotient num den = n := by
  have hone : roundQuotient n 1 = n := by
    unfold roundQuotient
    simp [Nat.mod_one]
  rw [← hone]
  refine roundQuotient_congr hden Nat.one_pos ?_
  rw [h, Nat.cast_one, div_one]

/-- Less than a half is rounded to zero. -/
theorem roundQuotient_eq_zero (hden : 0 < den) (h : (num : ℚ) / den < 1 / 2) :
    roundQuotient num den = 0 := by
  rw [div_lt_div_iff₀ (by positivity) (by norm_num), one_mul] at h
  have hlt : num * 2 < den := by exact_mod_cast h
  have hmod : num % den = num := Nat.mod_eq_of_lt (by omega)
  unfold roundQuotient
  rw [hmod, if_pos (by omega)]
  exact Nat.div_eq_of_lt (by omega)

/-! ## The grid of a fraction -/

theorem descale_pos (hden : 0 < den) (num : ℕ) (e : ℤ) : 0 < (descale num den e).2 :=
  Nat.mul_pos hden (Nat.two_pow_pos _)

/-- A fraction in units of `2 ^ e`. -/
theorem descale_value (num den : ℕ) (e : ℤ) :
    ((descale num den e).1 : ℚ) / (descale num den e).2 = num / den / 2 ^ e := by
  unfold descale
  simp only [Nat.pow_eq, Nat.cast_mul, Nat.cast_pow, Nat.cast_ofNat]
  rcases Int.eq_nat_or_neg e with ⟨n, rfl | rfl⟩
  · rw [Int.toNat_natCast, Int.toNat_neg_natCast, pow_zero, mul_one, zpow_natCast, div_div]
  · rw [neg_neg, Int.toNat_natCast, Int.toNat_neg_natCast, pow_zero, mul_one, zpow_neg,
      zpow_natCast, div_inv_eq_mul, mul_div_right_comm]

/-- The finest grid `2 ^ e` of a format on which a fraction has a mantissa that fits. -/
structure Fits (f : Format) (r : ℚ) (e : ℤ) : Prop where
  lowest_le : f.lowest ≤ e
  lt : r < 2 ^ (f.precision + e)
  finest : e = f.lowest ∨ 2 ^ (f.precision + e - 1) ≤ r

theorem Fits.le {r : ℚ} {e e' : ℤ} (h : Fits f r e) (h' : Fits f r e') : e ≤ e' := by
  rcases h.finest with hlowest | hle
  · rw [hlowest]
    exact h'.lowest_le
  · have hlt := (zpow_lt_zpow_iff_right₀ one_lt_two).1 (hle.trans_lt h'.lt)
    omega

theorem Fits.unique {r : ℚ} {e e' : ℤ} (h : Fits f r e) (h' : Fits f r e') : e = e' :=
  le_antisymm (h.le h') (h'.le h)

/-- A fraction on a grid, in units of the grid. -/
theorem fits_iff {r : ℚ} {e : ℤ} : Fits f r e ↔ f.lowest ≤ e ∧ r / 2 ^ e < 2 ^ f.precision ∧
    (e = f.lowest ∨ 2 ^ (f.precision - 1) ≤ r / 2 ^ e) := by
  have hpos := two_zpow_pos e
  have hprecision := f.precision_pos
  have hbound : (2 : ℚ) ^ (f.precision + e) = 2 ^ f.precision * 2 ^ e := by
    rw [zpow_add₀ two_ne_zero, zpow_natCast]
  have hleast : (2 : ℚ) ^ (f.precision + e - 1) = 2 ^ (f.precision - 1) * 2 ^ e := by
    rw [← zpow_natCast, ← zpow_add₀ two_ne_zero]
    congr 1
    omega
  rw [div_lt_iff₀ hpos, le_div_iff₀ hpos, ← hbound, ← hleast]
  exact ⟨fun h => ⟨h.lowest_le, h.lt, h.finest⟩, fun h => ⟨h.1, h.2.1, h.2.2⟩⟩

/-- A fraction is as large as the lengths of its parts say, up to a factor of two. -/
theorem log2_bounds (hnum : num ≠ 0) (hden : 0 < den) :
    (2 : ℚ) ^ ((num.log2 : ℤ) - den.log2 - 1) ≤ num / den ∧
      (num : ℚ) / den < 2 ^ ((num.log2 : ℤ) - den.log2 + 1) := by
  have hnumLow : (2 : ℚ) ^ num.log2 ≤ num := by exact_mod_cast Nat.log2_self_le hnum
  have hnumHigh : (num : ℚ) < 2 ^ (num.log2 + 1) := by
    exact_mod_cast Nat.lt_log2_self (n := num)
  have hdenLow : (2 : ℚ) ^ den.log2 ≤ den := by exact_mod_cast Nat.log2_self_le hden.ne'
  have hdenHigh : (den : ℚ) < 2 ^ (den.log2 + 1) := by
    exact_mod_cast Nat.lt_log2_self (n := den)
  have hpos : (0 : ℚ) < den := by exact_mod_cast hden
  constructor
  · rw [le_div_iff₀ hpos]
    calc (2 : ℚ) ^ ((num.log2 : ℤ) - den.log2 - 1) * den
        ≤ 2 ^ ((num.log2 : ℤ) - den.log2 - 1) * 2 ^ (den.log2 + 1) := by gcongr
      _ = 2 ^ num.log2 := by
        rw [← zpow_natCast, ← zpow_natCast, ← zpow_add₀ two_ne_zero]
        congr 1
        push_cast
        ring
      _ ≤ num := hnumLow
  · rw [div_lt_iff₀ hpos]
    calc (num : ℚ) < 2 ^ (num.log2 + 1) := hnumHigh
      _ = 2 ^ ((num.log2 : ℤ) - den.log2 + 1) * 2 ^ den.log2 := by
        rw [← zpow_natCast, ← zpow_natCast, ← zpow_add₀ two_ne_zero]
        congr 1
        push_cast
        ring
      _ ≤ 2 ^ ((num.log2 : ℤ) - den.log2 + 1) * den := by gcongr

theorem quotient_lt_iff (hden : 0 < den) (num : ℕ) (p : ℕ) (e : ℤ) :
    (descale num den e).1 / (descale num den e).2 < Nat.pow 2 p ↔
      (num : ℚ) / den < 2 ^ (p + e) := by
  have hpos := descale_pos hden num e
  have hvalue := descale_value num den e
  generalize descale num den e = scaled at hpos hvalue
  rw [Nat.div_lt_iff_lt_mul hpos, zpow_add₀ two_ne_zero, zpow_natCast, ← div_lt_iff₀ (two_zpow_pos e),
    ← hvalue, div_lt_iff₀ (by exact_mod_cast hpos), Nat.pow_eq]
  exact_mod_cast Iff.rfl

/-- Fractions are rounded on the finest grid. -/
theorem fits_gridExponent (f : Format) (hnum : num ≠ 0) (hden : 0 < den) :
    Fits f (num / den) (gridExponent f num den) := by
  obtain ⟨hlow, hhigh⟩ := log2_bounds hnum hden
  have hquotient := quotient_lt_iff hden num f.precision
    (max f.lowest ((num.log2 : ℤ) - den.log2 - f.precision))
  unfold gridExponent
  rw [if_neg hnum]
  dsimp only
  split
  · rename_i hlt
    refine ⟨le_max_left _ _, hquotient.1 hlt, ?_⟩
    rcases max_choice f.lowest ((num.log2 : ℤ) - den.log2 - f.precision) with hmax | hmax
    · exact .inl hmax
    · refine .inr (le_of_eq_of_le ?_ hlow)
      rw [hmax]
      congr 1
      ring
  · rename_i hge
    have hle := le_max_right f.lowest ((num.log2 : ℤ) - den.log2 - f.precision)
    have hlowest := le_max_left f.lowest ((num.log2 : ℤ) - den.log2 - f.precision)
    rw [hquotient, not_lt] at hge
    refine ⟨by omega, hhigh.trans_le (zpow_le_zpow_right₀ one_le_two (by omega)), .inr ?_⟩
    refine le_of_eq_of_le ?_ hge
    congr 1
    ring

/-! ## Rounding to numbers -/

theorem gridExponent_congr (f : Format) (hden : 0 < den) (hden' : 0 < den')
    (h : (num : ℚ) / den = num' / den') : gridExponent f num den = gridExponent f num' den' := by
  have hzero : num = 0 ↔ num' = 0 := by
    rw [div_eq_div_iff (by positivity) (by positivity)] at h
    constructor <;> rintro rfl <;> simp at h <;> omega
  by_cases hnum : num = 0
  · unfold gridExponent
    rw [if_pos hnum, if_pos (hzero.1 hnum)]
  · have hfits := fits_gridExponent f hnum hden
    rw [h] at hfits
    exact hfits.unique (fits_gridExponent f (hnum ∘ hzero.2) hden')

/-- What a fraction is rounded to depends on its value alone. -/
theorem nearest?_congr (negative : Bool) (hden : 0 < den) (hden' : 0 < den')
    (h : (num : ℚ) / den = num' / den') :
    nearest? (f := f) negative num den = nearest? negative num' den' := by
  have hgrid := gridExponent_congr f hden hden' h
  have hround : roundQuotient (descale num den (gridExponent f num' den')).1
        (descale num den (gridExponent f num' den')).2 =
      roundQuotient (descale num' den' (gridExponent f num' den')).1
        (descale num' den' (gridExponent f num' den')).2 := by
    refine roundQuotient_congr (descale_pos hden _ _) (descale_pos hden' _ _) ?_
    rw [descale_value, descale_value, h]
  unfold nearest?
  simp only [hgrid, hround]

/-- The magnitude of a number. -/
def magnitude (x : Binary f) : ℚ := x.mantissa * 2 ^ x.exponent

theorem magnitude_eq_zero_iff {x : Binary f} : x.magnitude = 0 ↔ x.mantissa = 0 := by
  have hpos := two_zpow_pos x.exponent
  unfold magnitude
  rw [mul_eq_zero, or_iff_left hpos.ne', Nat.cast_eq_zero]

/-- There is one zero for each sign. -/
theorem eq_zero {x : Binary f} (h : x.mantissa = 0) : x = zero x.negative := by
  obtain ⟨negative, mantissa, exponent, hlt, hlowest, hhighest, hnormal⟩ := x
  subst h
  have hexponent : exponent = f.lowest :=
    hnormal.resolve_right fun hle => absurd hle (Nat.not_le.2 (Nat.two_pow_pos _))
  subst hexponent
  rfl

theorem ratio_pos (x : Binary f) : 0 < x.ratio.2 := Nat.two_pow_pos _

theorem ratio_value (x : Binary f) : (x.ratio.1 : ℚ) / x.ratio.2 = x.magnitude := by
  unfold ratio magnitude
  simp only [Nat.pow_eq, Nat.cast_mul, Nat.cast_pow, Nat.cast_ofNat]
  rcases Int.eq_nat_or_neg x.exponent with ⟨n, hn | hn⟩
  · rw [hn, Int.toNat_natCast, Int.toNat_neg_natCast, pow_zero, div_one, zpow_natCast]
  · rw [hn, neg_neg, Int.toNat_natCast, Int.toNat_neg_natCast, pow_zero, mul_one, zpow_neg,
      zpow_natCast, div_eq_mul_inv]

theorem fits_magnitude (x : Binary f) : Fits f x.magnitude x.exponent := by
  have hunits : x.magnitude / 2 ^ x.exponent = x.mantissa :=
    mul_div_cancel_right₀ _ (two_zpow_pos _).ne'
  refine fits_iff.2 ⟨x.lowest_le, ?_, x.normal.imp_right fun hnormal => ?_⟩
  · rw [hunits]
    exact_mod_cast x.mantissa_lt
  · rw [hunits]
    exact_mod_cast hnormal

theorem ofParts?_self (x : Binary f) : ofParts? x.negative x.mantissa x.exponent = some x :=
  dif_pos ⟨x.mantissa_lt, x.lowest_le, x.le_highest, x.normal⟩

theorem ofParts?_eq_some {negative : Bool} {mantissa : ℕ} {exponent : ℤ} {x : Binary f}
    (h : ofParts? negative mantissa exponent = some x) :
    x.mantissa = mantissa ∧ x.exponent = exponent := by
  unfold ofParts? at h
  split at h
  · cases h
    exact ⟨rfl, rfl⟩
  · cases h

/-- The magnitude of a number is rounded to that number. -/
theorem nearest?_magnitude {x : Binary f} (hx : x.mantissa ≠ 0) (hden : 0 < den)
    (h : (num : ℚ) / den = x.magnitude) : nearest? x.negative num den = some x := by
  have hnum : num ≠ 0 := by
    rintro rfl
    rw [Nat.cast_zero, zero_div] at h
    exact hx (magnitude_eq_zero_iff.1 h.symm)
  have hgrid : gridExponent f num den = x.exponent :=
    (fits_gridExponent f hnum hden).unique (h ▸ x.fits_magnitude)
  have hround : roundQuotient (descale num den x.exponent).1 (descale num den x.exponent).2 =
      x.mantissa := by
    refine roundQuotient_natCast (descale_pos hden _ _) ?_
    rw [descale_value, h, magnitude, mul_div_cancel_right₀ _ (two_zpow_pos _).ne']
  unfold nearest?
  simp only [hgrid, hround]
  rw [if_neg x.mantissa_lt.ne, ofParts?_self]

/-- What is rounded to a number other than zero is not too small and not too large for the format. -/
theorem bounds_of_nearest? {negative : Bool} {x : Binary f} (hx : x.mantissa ≠ 0) (hden : 0 < den)
    (h : nearest? negative num den = some x) :
    (2 : ℚ) ^ (f.lowest - 1) ≤ num / den ∧ (num : ℚ) / den < 2 ^ (f.precision + f.highest) := by
  unfold nearest? at h
  dsimp only at h
  constructor
  · by_contra hsmall
    rw [not_le] at hsmall
    -- so small a fraction is rounded on the finest grid of all, and there to zero
    have hgrid : gridExponent f num den = f.lowest := by
      by_cases hnum : num = 0
      · unfold gridExponent
        rw [if_pos hnum]
      · have hfits := fits_gridExponent f hnum hden
        refine hfits.finest.resolve_right fun hle => ?_
        have hlt := (zpow_lt_zpow_iff_right₀ one_lt_two).1 (hle.trans_lt hsmall)
        have hlowest := hfits.lowest_le
        have hprecision := f.precision_pos
        omega
    have hround : roundQuotient (descale num den f.lowest).1 (descale num den f.lowest).2 = 0 := by
      refine roundQuotient_eq_zero (descale_pos hden _ _) ?_
      rw [descale_value, div_lt_iff₀ (two_zpow_pos _)]
      refine hsmall.trans_eq ?_
      rw [zpow_sub₀ two_ne_zero, zpow_one]
      ring
    have hbits : 0 < Nat.pow 2 f.precision := Nat.two_pow_pos _
    rw [hgrid, hround, if_neg hbits.ne] at h
    exact hx (ofParts?_eq_some h).1
  · by_contra hlarge
    rw [not_lt] at hlarge
    have hnum : num ≠ 0 := by
      rintro rfl
      rw [Nat.cast_zero, zero_div] at hlarge
      exact absurd hlarge (two_zpow_pos _).not_ge
    have hlt := (fits_gridExponent f hnum hden).lt
    have hexponent := (zpow_lt_zpow_iff_right₀ one_lt_two).1 (hlarge.trans_lt hlt)
    have hle := x.le_highest
    split at h
    · rw [(ofParts?_eq_some h).2] at hle
      omega
    · rw [(ofParts?_eq_some h).2] at hle
      omega

end

end Newsletter.Binary
