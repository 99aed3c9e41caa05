/-
The rounding interval of a binary number: the magnitudes that lie no farther than halfway from it to
the numbers next to it. Main statement: a fraction is rounded to a number other than zero exactly if
it lies in the interval of that number.
-/
import Newsletter.Proofs.Binary.Rounding
import Mathlib.Algebra.Ring.Parity

namespace Newsletter.Binary

variable {f : Format} {x : Binary f}

/-! ## Rounding to integers -/

/-- The fraction `q` lies no farther than one half from the integer `n`, and exactly one half only if
`n` is even. -/
structure RoundsToNat (q : ℚ) (n : ℕ) : Prop where
  below : n - 1 / 2 < q ∨ n - 1 / 2 = q ∧ Even n
  above : q < n + 1 / 2 ∨ q = n + 1 / 2 ∧ Even n

theorem RoundsToNat.le {q : ℚ} {m n : ℕ} (hm : RoundsToNat q m) (hn : RoundsToNat q n) :
    n ≤ m := by
  by_contra hlt
  rw [not_le] at hlt
  have hle : (m : ℚ) + 1 ≤ n := by exact_mod_cast hlt
  -- the intervals of `m` and `n` share at most one end, and one of the two is odd
  rcases hm.above with habove | ⟨habove, hmEven⟩
  · rcases hn.below with hbelow | ⟨hbelow, -⟩ <;> linarith
  · rcases hn.below with hbelow | ⟨hbelow, hnEven⟩
    · linarith
    · have hsucc : n = m + 1 := by
        have : (n : ℚ) = m + 1 := by linarith
        exact_mod_cast this
      subst hsucc
      exact (Nat.even_add_one.1 hnEven) hmEven

theorem RoundsToNat.unique {q : ℚ} {m n : ℕ} (hm : RoundsToNat q m) (hn : RoundsToNat q n) :
    m = n :=
  le_antisymm (hn.le hm) (hm.le hn)

/-- A fraction is its integer part and what remains of it. -/
theorem div_eq_quotient_add (num : ℕ) {den : ℕ} (hden : 0 < den) :
    (num : ℚ) / den = (num / den : ℕ) + (num % den : ℕ) / (den : ℚ) ∧
      0 ≤ ((num % den : ℕ) : ℚ) / den ∧ ((num % den : ℕ) : ℚ) / den < 1 := by
  have hpos : (0 : ℚ) < den := by exact_mod_cast hden
  refine ⟨?_, by positivity, ?_⟩
  · rw [eq_comm, ← eq_sub_iff_add_eq', div_eq_iff hpos.ne', sub_mul, div_mul_cancel₀ _ hpos.ne',
      eq_sub_iff_add_eq']
    exact_mod_cast Nat.div_add_mod' num den
  · rw [div_lt_one hpos]
    exact_mod_cast Nat.mod_lt num hden

theorem div_lt_half_iff {r den : ℕ} (hden : 0 < den) : (r : ℚ) / den < 1 / 2 ↔ 2 * r < den := by
  rw [div_lt_div_iff₀ (Nat.cast_pos.2 hden) two_pos, one_mul, mul_comm]
  exact_mod_cast Iff.rfl

theorem half_lt_div_iff {r den : ℕ} (hden : 0 < den) : 1 / 2 < (r : ℚ) / den ↔ den < 2 * r := by
  rw [div_lt_div_iff₀ two_pos (Nat.cast_pos.2 hden), one_mul, mul_comm]
  exact_mod_cast Iff.rfl

theorem roundsToNat_roundQuotient {num den : ℕ} (hden : 0 < den) :
    RoundsToNat (num / den) (roundQuotient num den) := by
  obtain ⟨hsplit, hrest, hless⟩ := div_eq_quotient_add num hden
  have hlower := div_lt_half_iff (r := num % den) hden
  have hupper := half_lt_div_iff (r := num % den) hden
  rw [hsplit]
  unfold roundQuotient
  dsimp only
  generalize ((num % den : ℕ) : ℚ) / den = t at hrest hless hlower hupper
  generalize num / den = q
  split
  · rename_i h
    have := hlower.2 h
    exact ⟨.inl (by linarith), .inl (by linarith)⟩
  · split
    · rename_i h
      have := hupper.2 h
      exact ⟨.inl (by push_cast; linarith), .inl (by push_cast; linarith)⟩
    · rename_i hge hle
      have ht : t = 1 / 2 := le_antisymm (not_lt.1 (mt hupper.1 hle)) (not_lt.1 (mt hlower.1 hge))
      rcases Nat.mod_two_eq_zero_or_one q with hmod | hmod
      · rw [hmod, Nat.add_zero, ht]
        exact ⟨.inl (by linarith), .inr ⟨rfl, Nat.even_iff.2 hmod⟩⟩
      · rw [hmod, ht]
        exact ⟨.inr ⟨by push_cast; ring, Nat.even_iff.2 (by omega)⟩, .inl (by push_cast; linarith)⟩

theorem roundQuotient_eq_iff {num den n : ℕ} (hden : 0 < den) :
    roundQuotient num den = n ↔ RoundsToNat (num / den) n := by
  constructor
  · rintro rfl
    exact roundsToNat_roundQuotient hden
  · exact fun h => (roundsToNat_roundQuotient hden).unique h

/-! ## Rounding to numbers -/

/-- How far the number next below is, in units of the last bit: numbers lie twice as close below a
power of two, unless nothing finer than its last bit exists. -/
def gapBelow (x : Binary f) : ℚ :=
  if x.mantissa = 2 ^ (f.precision - 1) ∧ f.lowest < x.exponent then 1 / 2 else 1

/-- The magnitude `r` is rounded to `x`: it lies no farther than halfway from `x` to the numbers next
to it, and exactly halfway only if the mantissa of `x` is even. -/
structure RoundsTo (x : Binary f) (r : ℚ) : Prop where
  below : (x.mantissa - x.gapBelow / 2) * 2 ^ x.exponent < r ∨
    (x.mantissa - x.gapBelow / 2) * 2 ^ x.exponent = r ∧ Even x.mantissa
  above : r < (x.mantissa + 1 / 2) * 2 ^ x.exponent ∨
    r = (x.mantissa + 1 / 2) * 2 ^ x.exponent ∧ Even x.mantissa

theorem gapBelow_pos (x : Binary f) : 0 < x.gapBelow := by
  unfold gapBelow
  split <;> norm_num

theorem gapBelow_le (x : Binary f) : x.gapBelow ≤ 1 := by
  unfold gapBelow
  split <;> norm_num

/-- What lies between two magnitudes that are rounded to a number is rounded to it as well. -/
theorem RoundsTo.convex {r s t : ℚ} (hr : x.RoundsTo r) (ht : x.RoundsTo t) (hrs : r ≤ s)
    (hst : s ≤ t) : x.RoundsTo s := by
  constructor
  · rcases hr.below with h | ⟨h, heven⟩
    · exact .inl (h.trans_le hrs)
    · rcases hrs.eq_or_lt with heq | hlt
      · exact .inr ⟨h.trans heq, heven⟩
      · exact .inl (h.trans_lt hlt)
  · rcases ht.above with h | ⟨h, heven⟩
    · exact .inl (hst.trans_lt h)
    · rcases hst.eq_or_lt with heq | hlt
      · exact .inr ⟨heq.trans h, heven⟩
      · exact .inl (hlt.trans_eq h)

theorem roundsTo_magnitude (x : Binary f) : x.RoundsTo x.magnitude := by
  have hpos := two_zpow_pos x.exponent
  have hgap := x.gapBelow_pos
  unfold magnitude
  exact ⟨.inl (mul_lt_mul_of_pos_right (by linarith) hpos),
    .inl (mul_lt_mul_of_pos_right (by linarith) hpos)⟩

theorem RoundsTo.pos {r : ℚ} (hx : x.mantissa ≠ 0) (h : x.RoundsTo r) : 0 < r := by
  have hone : (1 : ℚ) ≤ x.mantissa := by exact_mod_cast Nat.one_le_iff_ne_zero.2 hx
  have hgap := x.gapBelow_le
  have hlow : 0 < (x.mantissa - x.gapBelow / 2) * (2 : ℚ) ^ x.exponent :=
    mul_pos (by linarith) (two_zpow_pos _)
  rcases h.below with h | ⟨h, -⟩
  · exact hlow.trans h
  · exact hlow.trans_eq h

/-- The interval of a number, in units of its last bit. -/
theorem roundsTo_iff {r : ℚ} : x.RoundsTo r ↔
    (x.mantissa - x.gapBelow / 2 < r / 2 ^ x.exponent ∨
      x.mantissa - x.gapBelow / 2 = r / 2 ^ x.exponent ∧ Even x.mantissa) ∧
    (r / 2 ^ x.exponent < x.mantissa + 1 / 2 ∨
      r / 2 ^ x.exponent = x.mantissa + 1 / 2 ∧ Even x.mantissa) := by
  have hpos := two_zpow_pos x.exponent
  rw [lt_div_iff₀ hpos, eq_div_iff hpos.ne', div_lt_iff₀ hpos, div_eq_iff hpos.ne']
  exact ⟨fun h => ⟨h.below, h.above⟩, fun h => ⟨h.1, h.2⟩⟩

/-- A fraction is rounded on the finest grid on which it fits. -/
theorem nearest?_eq_ofParts? {num den : ℕ} (hnum : num ≠ 0) (hden : 0 < den) {e : ℤ} {n : ℕ}
    (hfits : Fits f (num / den) e) (hround : RoundsToNat (num / den / 2 ^ e) n) (negative : Bool) :
    nearest? (f := f) negative num den =
      if n = 2 ^ f.precision then ofParts? negative (2 ^ (f.precision - 1)) (e + 1)
      else ofParts? negative n e := by
  have hgrid : gridExponent f num den = e := (fits_gridExponent f hnum hden).unique hfits
  have hquotient : roundQuotient (descale num den e).1 (descale num den e).2 = n := by
    rw [roundQuotient_eq_iff (descale_pos hden num e), descale_value]
    exact hround
  unfold nearest?
  dsimp only
  rw [hgrid, hquotient]
  rfl

/-! ## Grids of a number -/

section

variable {r : ℚ}

theorem two_pow_pred (hp : 2 ≤ f.precision) : (2 : ℚ) ^ f.precision = 2 * 2 ^ (f.precision - 1) ∧
    (2 : ℚ) ≤ 2 ^ (f.precision - 1) ∧ Even (2 ^ (f.precision - 1)) := by
  refine ⟨?_, ?_, Nat.even_pow.2 ⟨even_two, by omega⟩⟩
  · rw [← pow_succ']
    congr 1
    omega
  · exact le_self_pow₀ one_le_two (by omega)

/-- What is rounded on the grid of a number to its mantissa lies in the interval of the number. -/
theorem roundsTo_of_kept (hfits : Fits f r x.exponent)
    (hround : RoundsToNat (r / 2 ^ x.exponent) x.mantissa) : x.RoundsTo r := by
  refine roundsTo_iff.2 ⟨?_, hround.above⟩
  unfold gapBelow
  split
  · -- the grid is the finest one, so what lies below the power of two is not on it
    rename_i hpower
    have hle := (fits_iff.1 hfits).2.2.resolve_left (by omega)
    rw [hpower.1]
    push_cast
    exact .inl (by linarith)
  · exact hround.below

/-- What is rounded to the end of the next finer grid lies in the interval of the power of two there;
that grid exists, so the one of the number is not the finest. -/
theorem roundsTo_of_carried (hp : 2 ≤ f.precision) {e : ℤ} (hfits : Fits f r e)
    (hround : RoundsToNat (r / 2 ^ e) (2 ^ f.precision))
    (hmantissa : x.mantissa = 2 ^ (f.precision - 1)) (hexponent : x.exponent = e + 1) :
    x.RoundsTo r := by
  obtain ⟨hpow, -, heven⟩ := two_pow_pred hp
  obtain ⟨hlowest, hlt, -⟩ := fits_iff.1 hfits
  have hgap : x.gapBelow = 1 / 2 := if_pos ⟨hmantissa, by omega⟩
  have hhalf : r / 2 ^ x.exponent = r / 2 ^ e / 2 := by
    rw [hexponent, zpow_add_one₀ two_ne_zero, div_div]
  obtain ⟨hbelow, -⟩ := hround
  push_cast at hbelow
  rw [roundsTo_iff, hgap, hmantissa, hhalf]
  push_cast
  refine ⟨?_, .inl (by linarith)⟩
  rcases hbelow with hbelow | ⟨hbelow, -⟩
  · exact .inl (by linarith)
  · exact .inr ⟨by linarith, heven⟩

theorem RoundsTo.lt (h : x.RoundsTo r) : r / 2 ^ x.exponent < 2 ^ f.precision := by
  have hmantissa : (x.mantissa : ℚ) + 1 ≤ 2 ^ f.precision := by exact_mod_cast x.mantissa_lt
  rcases (roundsTo_iff.1 h).2 with h | ⟨h, -⟩ <;> linarith

/-- What lies in the interval of a number and fits on its grid is rounded there to its mantissa. -/
theorem RoundsTo.kept (h : x.RoundsTo r)
    (hfine : x.exponent = f.lowest ∨ (2 : ℚ) ^ (f.precision - 1) ≤ r / 2 ^ x.exponent) :
    Fits f r x.exponent ∧ RoundsToNat (r / 2 ^ x.exponent) x.mantissa := by
  obtain ⟨hbelow, habove⟩ := roundsTo_iff.1 h
  refine ⟨fits_iff.2 ⟨x.lowest_le, h.lt, hfine⟩, ?_, habove⟩
  unfold gapBelow at hbelow
  split at hbelow
  · rename_i hpower
    have hle := hfine.resolve_left (by omega)
    rw [hpower.1]
    push_cast
    exact .inl (by linarith)
  · exact hbelow

/-- The interval of a number reaches below its grid only at a power of two. -/
theorem RoundsTo.mantissa_eq (h : x.RoundsTo r) (hexponent : x.exponent ≠ f.lowest)
    (hsmall : r / 2 ^ x.exponent < 2 ^ (f.precision - 1)) :
    x.mantissa = 2 ^ (f.precision - 1) := by
  have hnormal := x.normal.resolve_left hexponent
  by_contra hne
  have hgap : x.gapBelow = 1 := if_neg fun hpower => hne hpower.1
  have hsucc : (2 : ℚ) ^ (f.precision - 1) + 1 ≤ x.mantissa := by
    exact_mod_cast lt_of_le_of_ne hnormal (Ne.symm hne)
  have hbelow := (roundsTo_iff.1 h).1
  rw [hgap] at hbelow
  rcases hbelow with h | ⟨h, -⟩ <;> linarith

/-- What lies in the interval of a number but below its grid is rounded to the end of the next finer
one. -/
theorem RoundsTo.carried (hp : 2 ≤ f.precision) (h : x.RoundsTo r)
    (hexponent : x.exponent ≠ f.lowest)
    (hsmall : r / 2 ^ x.exponent < 2 ^ (f.precision - 1)) :
    Fits f r (x.exponent - 1) ∧ RoundsToNat (r / 2 ^ (x.exponent - 1)) (2 ^ f.precision) := by
  obtain ⟨hpow, htwo, -⟩ := two_pow_pred hp
  have hmantissa := h.mantissa_eq hexponent hsmall
  have hlowest : f.lowest < x.exponent := lt_of_le_of_ne x.lowest_le (Ne.symm hexponent)
  have hgap : x.gapBelow = 1 / 2 := if_pos ⟨hmantissa, hlowest⟩
  have hdouble : r / 2 ^ (x.exponent - 1) = 2 * (r / 2 ^ x.exponent) := by
    rw [zpow_sub_one₀ two_ne_zero, div_mul_eq_div_div_swap]
    field_simp
  have hbelow := (roundsTo_iff.1 h).1
  rw [hgap, hmantissa] at hbelow
  push_cast at hbelow
  have hlow : (2 : ℚ) ^ (f.precision - 1) - 1 / 4 ≤ r / 2 ^ x.exponent := by
    rcases hbelow with h | ⟨h, -⟩ <;> linarith
  refine ⟨fits_iff.2 ⟨by omega, by rw [hdouble]; linarith, .inr (by rw [hdouble]; linarith)⟩, ?_⟩
  rw [hdouble]
  refine ⟨?_, .inl (by push_cast; linarith)⟩
  push_cast
  rcases hbelow with h | ⟨h, -⟩
  · exact .inl (by linarith)
  · exact .inr ⟨by linarith, Nat.even_pow.2 ⟨even_two, by omega⟩⟩

end

/-! ## Rounded fractions -/

section

variable {num den : ℕ}

/-- What is rounded to a number lies in its interval. -/
theorem roundsTo_of_nearest? (hp : 2 ≤ f.precision) (hx : x.mantissa ≠ 0) (hden : 0 < den)
    (h : nearest? x.negative num den = some x) : x.RoundsTo (num / den) := by
  have hnum : num ≠ 0 := by
    rintro rfl
    have hlow := (bounds_of_nearest? hx hden h).1
    rw [Nat.cast_zero, zero_div] at hlow
    exact absurd hlow (two_zpow_pos _).not_ge
  have hfits := fits_gridExponent f hnum hden
  generalize gridExponent f num den = e at hfits
  have hround : RoundsToNat ((num : ℚ) / den / 2 ^ e)
      (roundQuotient (descale num den e).1 (descale num den e).2) := by
    rw [← descale_value]
    exact roundsToNat_roundQuotient (descale_pos hden num e)
  rw [nearest?_eq_ofParts? hnum hden hfits hround] at h
  generalize roundQuotient (descale num den e).1 (descale num den e).2 = n at h hround
  split at h
  · rename_i hn
    obtain ⟨hmantissa, hexponent⟩ := ofParts?_eq_some h
    exact roundsTo_of_carried hp hfits (hn ▸ hround) hmantissa hexponent
  · obtain ⟨hmantissa, hexponent⟩ := ofParts?_eq_some h
    rw [← hexponent] at hfits hround
    rw [← hmantissa] at hround
    exact roundsTo_of_kept hfits hround

/-- What lies in the interval of a number is rounded to it. -/
theorem nearest?_of_roundsTo (hp : 2 ≤ f.precision) (hx : x.mantissa ≠ 0) (hden : 0 < den)
    (h : x.RoundsTo (num / den)) : nearest? x.negative num den = some x := by
  have hnum : num ≠ 0 := by
    rintro rfl
    have hpos := h.pos hx
    rw [Nat.cast_zero, zero_div] at hpos
    exact lt_irrefl _ hpos
  by_cases hfine : x.exponent = f.lowest ∨
      (2 : ℚ) ^ (f.precision - 1) ≤ num / den / 2 ^ x.exponent
  · obtain ⟨hfits, hround⟩ := h.kept hfine
    have hne : x.mantissa ≠ 2 ^ f.precision := x.mantissa_lt.ne
    rw [nearest?_eq_ofParts? hnum hden hfits hround, if_neg hne, ofParts?_self]
  · rw [not_or, not_le] at hfine
    obtain ⟨hexponent, hsmall⟩ := hfine
    obtain ⟨hfits, hround⟩ := h.carried hp hexponent hsmall
    rw [nearest?_eq_ofParts? hnum hden hfits hround, if_pos rfl, ← h.mantissa_eq hexponent hsmall,
      sub_add_cancel, ofParts?_self]

/-- A fraction is rounded to a number exactly if it lies in the number's interval. -/
theorem nearest?_eq_some_iff (hp : 2 ≤ f.precision) (hx : x.mantissa ≠ 0) (hden : 0 < den) :
    nearest? x.negative num den = some x ↔ x.RoundsTo (num / den) :=
  ⟨roundsTo_of_nearest? hp hx hden, nearest?_of_roundsTo hp hx hden⟩

end

end Newsletter.Binary
