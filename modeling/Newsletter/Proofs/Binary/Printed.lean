/-
Printed binary numbers. Main statement: however a number other than zero is laid out, the magnitude
of its numeral is rounded to that number again.
-/
import Newsletter.Binary.Layout
import Newsletter.Proofs.Binary.Rounding

namespace Newsletter

/-! ## Decimal digits -/

theorem Digits.length_ofNat_pos (n : ℕ) : 0 < (ofNat n).length :=
  List.length_pos_of_ne_nil (ofNat_ne_nil n)

/-- A number has as many digits as its size says. -/
theorem Digits.bounds_length_ofNat {n : ℕ} (h : n ≠ 0) :
    10 ^ ((ofNat n).length - 1) ≤ n ∧ n < 10 ^ (ofNat n).length := by
  fun_induction ofNat n with
  | case1 n hn =>
    simp only [List.length_singleton, Nat.sub_self, pow_zero, pow_one]
    omega
  | case2 n hn ih =>
    obtain ⟨hlow, hhigh⟩ := ih (by omega)
    obtain ⟨k, hk⟩ := Nat.exists_eq_succ_of_ne_zero (length_ofNat_pos (n / 10)).ne'
    rw [List.length_append, List.length_singleton, Nat.add_sub_cancel]
    rw [hk, Nat.succ_sub_one] at hlow
    rw [hk] at hhigh ⊢
    rw [Nat.succ_eq_add_one, pow_succ] at hhigh
    rw [Nat.succ_eq_add_one, pow_succ, pow_succ]
    omega

/-! ## Values of decimals -/

namespace Decimal

def value (d : Decimal) : ℚ := d.digits * 10 ^ d.exponent

theorem ten_zpow_pos (e : ℤ) : (0 : ℚ) < 10 ^ e := zpow_pos (by norm_num) e

theorem ratio_pos (d : Decimal) : 0 < d.ratio.2 := Nat.pow_pos (by decide)

theorem ratio_value (d : Decimal) : (d.ratio.1 : ℚ) / d.ratio.2 = d.value := by
  unfold ratio value
  simp only [Nat.pow_eq, Nat.cast_mul, Nat.cast_pow, Nat.cast_ofNat]
  rcases Int.eq_nat_or_neg d.exponent with ⟨n, hn | hn⟩
  · rw [hn, Int.toNat_natCast, Int.toNat_neg_natCast, pow_zero, div_one, zpow_natCast]
  · rw [hn, neg_neg, Int.toNat_natCast, Int.toNat_neg_natCast, pow_zero, mul_one, zpow_neg,
      zpow_natCast, div_eq_mul_inv]

/-- Moving zeros into the exponent keeps the value. -/
theorem value_strip (d : Decimal) : d.strip.value = d.value := by
  fun_induction strip d with
  | case1 d h =>
    unfold value
    rw [h, Nat.cast_zero, zero_mul, zero_mul]
  | case2 d h hzero ih =>
    have hdigits : d.digits = d.digits / 10 * 10 := by omega
    rw [ih]
    unfold value
    conv_rhs => rw [hdigits]
    rw [zpow_add_one₀ (by norm_num)]
    push_cast
    ring
  | case3 d h hzero => rfl

/-- A decimal with `count` digits lies in the decade that these and its exponent tell. -/
theorem bounds_of_digits {d : Decimal} {count : ℕ} (hcount : 0 < count)
    (hlow : 10 ^ (count - 1) ≤ d.digits) (hhigh : d.digits < 10 ^ count) :
    (10 : ℚ) ^ (count + d.exponent - 1) ≤ d.value ∧ d.value < 10 ^ (count + d.exponent) := by
  have hpos := ten_zpow_pos d.exponent
  unfold value
  constructor
  · calc (10 : ℚ) ^ (count + d.exponent - 1)
        = 10 ^ (count - 1) * 10 ^ d.exponent := by
          rw [← zpow_natCast, ← zpow_add₀ (by norm_num)]
          congr 1
          omega
      _ ≤ d.digits * 10 ^ d.exponent :=
        mul_le_mul_of_nonneg_right (by exact_mod_cast hlow) hpos.le
  · rw [zpow_add₀ (by norm_num), zpow_natCast]
    exact mul_lt_mul_of_pos_right (by exact_mod_cast hhigh) hpos

/-- The value lies in the decade of its point. -/
theorem bounds_point {d : Decimal} (h : d.digits ≠ 0) :
    (10 : ℚ) ^ (d.point - 1) ≤ d.value ∧ d.value < 10 ^ d.point := by
  obtain ⟨hlow, hhigh⟩ := Digits.bounds_length_ofNat h
  exact bounds_of_digits (Digits.length_ofNat_pos d.digits) hlow hhigh

end Decimal

/-! ## Shortest decimals -/

namespace Binary

variable {f : Format} {x : Binary f}

/-- Decimals of one value are rounded alike. -/
theorem ReadsBack.congr {d e : Decimal} (h : x.ReadsBack d) (hvalue : e.value = d.value) :
    x.ReadsBack e := by
  unfold ReadsBack
  rw [nearest?_congr x.negative e.ratio_pos d.ratio_pos
    (by rw [e.ratio_value, d.ratio_value, hvalue])]
  exact h

theorem value_expansion (x : Binary f) : x.expansion.value = x.magnitude := by
  unfold expansion magnitude
  split
  · rename_i h
    obtain ⟨n, hn⟩ := Int.eq_ofNat_of_zero_le h
    unfold Decimal.value
    rw [hn, zpow_natCast, Int.toNat_natCast]
    simp
  · rename_i h
    obtain ⟨n, hn⟩ : ∃ n : ℕ, x.exponent = -n := ⟨(-x.exponent).toNat, by omega⟩
    unfold Decimal.value
    rw [hn, neg_neg, Int.toNat_natCast, zpow_neg, zpow_neg, zpow_natCast, zpow_natCast]
    have hten : (10 : ℚ) ^ n = 5 ^ n * 2 ^ n := by rw [← mul_pow]; norm_num
    rw [hten, Nat.pow_eq]
    push_cast
    field_simp

theorem readsBack_expansion (hx : x.mantissa ≠ 0) : x.ReadsBack x.expansion :=
  nearest?_magnitude hx x.expansion.ratio_pos
    (x.expansion.ratio_value.trans x.value_expansion)

/-- The shortest decimal is rounded to the number, whichever of two equally near ones is taken. -/
theorem readsBack_shortest (tie : Tie) (hx : x.mantissa ≠ 0) : x.ReadsBack (x.shortest tie) := by
  unfold shortest
  dsimp only
  generalize hfound : (List.range 17).findSome? _ = found
  have hread : x.ReadsBack (found.getD x.expansion) := by
    cases found with
    | none => exact readsBack_expansion hx
    | some d =>
      obtain ⟨n, -, hn⟩ := List.exists_of_findSome?_eq_some hfound
      exact readsBack_of_neighbour? hn
  exact hread.congr (Decimal.value_strip _)

theorem digits_ne_zero {d : Decimal} (hx : x.mantissa ≠ 0) (h : x.ReadsBack d) : d.digits ≠ 0 := by
  intro hdigits
  have hvalue := (bounds_of_nearest? hx d.ratio_pos h).1
  rw [d.ratio_value, Decimal.value, hdigits, Nat.cast_zero, zero_mul] at hvalue
  exact absurd hvalue (two_zpow_pos _).not_ge

end Binary

/-! ## Numerals -/

namespace Layout

open Decimal

/-- The whole part and the places behind the point make up the digits. -/
theorem magnitude_split (negative : Bool) (digits count : ℕ) (exponent : Option ℤ) :
    Numeral.magnitude
      { negative, whole := digits / Nat.pow 10 count,
        fraction := Digits.places count (digits % Nat.pow 10 count), exponent } =
      ⟨digits, exponent.getD 0 - count⟩ := by
  have hlt : digits % Nat.pow 10 count < Nat.pow 10 count := Nat.mod_lt _ (Nat.pow_pos (by decide))
  unfold Numeral.magnitude
  rw [Digits.length_places, Digits.toNat_places hlt, Nat.mul_comm, Nat.div_add_mod]

theorem value_positional (l : Layout) (negative : Bool) (d : Decimal) :
    (l.positional negative d).magnitude.value = d.value := by
  unfold positional
  split
  · rename_i h
    obtain ⟨n, hn⟩ := Int.eq_ofNat_of_zero_le h
    unfold Numeral.magnitude Decimal.value
    rw [hn, Int.toNat_natCast, zpow_natCast]
    cases l.keepsPoint with
    | false => simp [Digits.toNat]
    | true => simp [Digits.toNat, Digit.zero]
  · rename_i h
    have hexponent : (none : Option ℤ).getD 0 - ((-d.exponent).toNat : ℤ) = d.exponent := by
      rw [Option.getD_none]
      omega
    dsimp only
    rw [magnitude_split, hexponent]

theorem magnitude_scientific (negative : Bool) (d : Decimal) :
    (scientific negative d).magnitude = d := by
  have hlength := Digits.length_ofNat_pos d.digits
  have hexponent : (some (d.point - 1)).getD 0 - (((Digits.ofNat d.digits).length - 1 : ℕ) : ℤ) =
      d.exponent := by
    rw [Option.getD_some, point]
    omega
  unfold scientific
  dsimp only
  rw [magnitude_split, hexponent]

/-- A number other than zero is written with its sign, and what is written reads back as it. -/
theorem readsBack_numeral {f : Format} (l : Layout) {x : Binary f} (hx : x.mantissa ≠ 0) :
    (l.numeral x).negative = x.negative ∧ x.ReadsBack (l.numeral x).magnitude := by
  have hshortest := Binary.readsBack_shortest l.tie hx
  have hzero : ¬x.isZero = true := by
    unfold Binary.isZero
    simpa using hx
  unfold numeral
  rw [if_neg hzero]
  dsimp only
  split
  · refine ⟨?_, hshortest.congr (l.value_positional _ _)⟩
    unfold positional
    split <;> rfl
  · rw [magnitude_scientific]
    exact ⟨rfl, hshortest⟩

end Layout

end Newsletter
