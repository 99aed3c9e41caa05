/-
The decimal that a binary number is printed with. Main statement: of the decimals that are rounded to
the number it is one with the fewest digits, of these the nearest one, and of two that are equally
near the one that the notation prefers; and no other decimal is all of this.
-/
import Newsletter.Proofs.Binary.Interval
import Newsletter.Proofs.Binary.Printed
import Mathlib.Data.Nat.Digits.Lemmas

namespace Newsletter

/-! ## Lengths of decimals -/

namespace Decimal

/-- The number of digits. -/
def length (d : Decimal) : ℕ := (Nat.digits 10 d.digits).length

theorem length_le_iff {d : Decimal} {count : ℕ} : d.length ≤ count ↔ d.digits < 10 ^ count :=
  Nat.digits_length_le_iff (by decide) _

theorem lt_length_iff {d : Decimal} {count : ℕ} : count < d.length ↔ 10 ^ count ≤ d.digits :=
  Nat.lt_digits_length_iff (by decide) _

theorem length_pos {d : Decimal} (h : d.digits ≠ 0) : 0 < d.length := by
  rw [lt_length_iff, pow_zero]
  exact Nat.one_le_iff_ne_zero.2 h

theorem length_strip_le (d : Decimal) : d.strip.length ≤ d.length := by
  fun_induction strip d with
  | case1 d h => exact length_le_iff.2 (pow_pos (by decide) _)
  | case2 d h hzero ih =>
    refine ih.trans (length_le_iff.2 ?_)
    exact (Nat.div_le_self _ _).trans_lt (length_le_iff.1 le_rfl)
  | case3 d h hzero => exact le_rfl

/-- Without its last zero a decimal is shorter. -/
theorem length_strip_le_of_mod {d : Decimal} {count : ℕ} (hmod : d.digits % 10 = 0)
    (h : d.digits < 10 ^ (count + 1)) : d.strip.length ≤ count := by
  by_cases hzero : d.digits = 0
  · rw [strip, if_pos hzero]
    exact length_le_iff.2 (pow_pos (by decide) _)
  · rw [strip, if_neg hzero, if_pos hmod]
    refine (length_strip_le _).trans (length_le_iff.2 ?_)
    exact Nat.div_lt_of_lt_mul (by rwa [pow_succ'] at h)

theorem strip_one (e : ℤ) : strip ⟨1, e⟩ = ⟨1, e⟩ := by
  rw [strip, if_neg Nat.one_ne_zero, if_neg (by norm_num)]

theorem strip_ten {d : Decimal} (h : d.digits = 10 ^ (0 + 1)) : d.strip = ⟨1, d.exponent + 1⟩ := by
  rw [strip, h, if_neg (by decide), if_pos (by decide)]
  exact strip_one _

/-- A decimal lies in the decade that its length and its exponent tell. -/
theorem bounds_length {d : Decimal} (h : d.digits ≠ 0) :
    (10 : ℚ) ^ (d.length + d.exponent - 1) ≤ d.value ∧ d.value < 10 ^ (d.length + d.exponent) := by
  have hlength := length_pos h
  have hlow : 10 ^ (d.length - 1) ≤ d.digits := lt_length_iff.1 (Nat.sub_lt hlength one_pos)
  exact bounds_of_digits hlength hlow (length_le_iff.1 le_rfl)

theorem value_lt_iff {m n : ℕ} {e : ℤ} : value ⟨m, e⟩ < value ⟨n, e⟩ ↔ m < n := by
  unfold value
  rw [mul_lt_mul_iff_left₀ (ten_zpow_pos e), Nat.cast_lt]

/-- A power of ten as a multiple of a smaller one. -/
theorem value_ten_pow (count : ℕ) {e e' : ℤ} (h : e' = count + e) :
    value ⟨10 ^ count, e⟩ = 10 ^ e' := by
  unfold value
  rw [h, zpow_add₀ (by norm_num), zpow_natCast]
  push_cast
  rfl

end Decimal

/-! ## The specification -/

open Decimal

/-- Whether the digits `taken` are preferred to the digits `other` of an equally near decimal. -/
def Tie.Prefers : Tie → ℕ → ℕ → Prop
  | .toEven, taken, _ => Even taken
  | .up, taken, other => other < taken

namespace Binary

variable {f : Format} {x : Binary f} {tie : Tie}

/-- How far a decimal is from the magnitude of a number. -/
def error (x : Binary f) (d : Decimal) : ℚ := |d.value - x.magnitude|

/-- The decimal that a number is printed with: it is rounded to the number, and no decimal that is so
has fewer digits, or as many and is nearer, or ends in the same place, is equally near and
preferred. -/
structure IsShortest (tie : Tie) (x : Binary f) (d : Decimal) : Prop where
  roundsTo : x.RoundsTo d.value
  fewest : ∀ other : Decimal, x.RoundsTo other.value → d.length ≤ other.length
  nearest : ∀ other : Decimal, x.RoundsTo other.value → other.length = d.length →
    x.error d ≤ x.error other
  tie : ∀ digits : ℕ, x.RoundsTo (value ⟨digits, d.exponent⟩) → digits ≠ d.digits →
    x.error ⟨digits, d.exponent⟩ = x.error d → tie.Prefers d.digits digits

/-! ## Two shortest decimals -/

theorem RoundsTo.digits_ne_zero {d : Decimal} (hx : x.mantissa ≠ 0) (h : x.RoundsTo d.value) :
    d.digits ≠ 0 := by
  intro hzero
  have hpos := h.pos hx
  rw [value, hzero, Nat.cast_zero, zero_mul] at hpos
  exact lt_irrefl _ hpos

theorem IsShortest.length_eq {d e : Decimal} (hd : IsShortest tie x d) (he : IsShortest tie x e) :
    d.length = e.length :=
  le_antisymm (hd.fewest e he.roundsTo) (he.fewest d hd.roundsTo)

theorem IsShortest.error_eq {d e : Decimal} (hd : IsShortest tie x d) (he : IsShortest tie x e) :
    x.error d = x.error e :=
  le_antisymm (hd.nearest e he.roundsTo (he.length_eq hd)) (he.nearest d hd.roundsTo (hd.length_eq he))

/-- Shortest decimals of one value end in the same place. -/
theorem IsShortest.exponent_le {d e : Decimal} (hx : x.mantissa ≠ 0) (hd : IsShortest tie x d)
    (he : IsShortest tie x e) (hvalue : d.value = e.value) : d.exponent ≤ e.exponent := by
  have hlow := (bounds_length (hd.roundsTo.digits_ne_zero hx)).1
  have hhigh := (bounds_length (he.roundsTo.digits_ne_zero hx)).2
  rw [hvalue, hd.length_eq he] at hlow
  have hlt := (zpow_lt_zpow_iff_right₀ (by norm_num)).1 (hlow.trans_lt hhigh)
  omega

theorem IsShortest.eq_of_value {d e : Decimal} (hx : x.mantissa ≠ 0) (hd : IsShortest tie x d)
    (he : IsShortest tie x e) (hvalue : d.value = e.value) : d = e := by
  have hexponent : d.exponent = e.exponent :=
    le_antisymm (hd.exponent_le hx he hvalue) (he.exponent_le hx hd hvalue.symm)
  obtain ⟨digits, exponent⟩ := d
  obtain ⟨digits', exponent'⟩ := e
  cases hexponent
  unfold value at hvalue
  rw [mul_left_inj' (ten_zpow_pos _).ne'] at hvalue
  rw [show digits = digits' by exact_mod_cast hvalue]

/-- No shortest decimal lies between two others that are equally far from the number, one on either
side. -/
theorem IsShortest.not_between {d e : Decimal} (hd : IsShortest tie x d)
    (he : IsShortest tie x e) (hsum : d.value + e.value = 2 * x.magnitude) (other : Decimal)
    (hlow : d.value < other.value) (hhigh : other.value < e.value) : d.length < other.length := by
  have hother : x.RoundsTo other.value := hd.roundsTo.convex he.roundsTo hlow.le hhigh.le
  refine lt_of_le_of_ne (hd.fewest other hother) fun hlength => ?_
  have hle := hd.nearest other hother hlength.symm
  unfold error at hle
  rw [abs_of_nonpos (by linarith)] at hle
  rcases abs_cases (other.value - x.magnitude) with ⟨h, -⟩ | ⟨h, -⟩ <;> linarith

section

variable {d e : Decimal} (hx : x.mantissa ≠ 0) (hd : IsShortest tie x d) (he : IsShortest tie x e)
  (hlt : d.value < e.value) (hsum : d.value + e.value = 2 * x.magnitude)
include hx hd he hlt hsum

omit hx in
/-- On one grid two shortest decimals would be next to each other, and one of them not preferred. -/
theorem IsShortest.exponent_ne_of_lt : e.exponent ≠ d.exponent := by
  intro hexponent
  have hlength := hd.length_eq he
  have herror := he.error_eq hd
  obtain ⟨digits, exponent⟩ := e
  cases hexponent
  have hdigits : d.digits < digits := value_lt_iff.1 hlt
  have hnext : digits = d.digits + 1 := by
    by_contra hne
    have hlonger := hd.not_between he hsum ⟨d.digits + 1, d.exponent⟩
      (value_lt_iff.2 (Nat.lt_succ_self _)) (value_lt_iff.2 (by omega))
    rw [hlength, lt_length_iff] at hlonger
    have hshort := (length_le_iff (d := ⟨digits, d.exponent⟩)).1 le_rfl
    have hle : digits < d.digits + 1 := hshort.trans_le hlonger
    omega
  subst hnext
  have hprefer := hd.tie (d.digits + 1) he.roundsTo (Nat.succ_ne_self _) herror
  have hprefer' := he.tie d.digits hd.roundsTo (Nat.succ_ne_self _).symm herror.symm
  cases tie with
  | toEven => exact (Nat.even_add_one.1 hprefer') hprefer
  | up => exact absurd hprefer (Nat.lt_succ_self _).not_gt

/-- The power of ten between shortest decimals on two grids has one digit, and so they have one. -/
theorem IsShortest.length_eq_one : d.length = 1 ∧ value ⟨10, d.exponent⟩ ≤ e.value := by
  obtain ⟨hdLow, hdHigh⟩ := bounds_length (hd.roundsTo.digits_ne_zero hx)
  obtain ⟨heLow, heHigh⟩ := bounds_length (he.roundsTo.digits_ne_zero hx)
  have hne := hd.exponent_ne_of_lt he hlt hsum
  have hdecade := (zpow_lt_zpow_iff_right₀ (by norm_num)).1 ((hdLow.trans_lt hlt).trans heHigh)
  have hten : (10 : ℚ) ^ (d.length + d.exponent) ≤ e.value := by
    refine (zpow_le_zpow_right₀ (by norm_num) ?_).trans heLow
    have := hd.length_eq he
    omega
  have hone : d.length = 1 := by
    refine le_antisymm ?_ (length_pos (hd.roundsTo.digits_ne_zero hx))
    have hround : x.RoundsTo (value ⟨10 ^ 0, d.length + d.exponent⟩) := by
      rw [value_ten_pow 0 (zero_add _).symm]
      exact hd.roundsTo.convex he.roundsTo hdHigh.le hten
    exact (hd.fewest _ hround).trans (length_le_iff.2 (by norm_num))
  refine ⟨hone, ?_⟩
  rwa [hone, ← value_ten_pow 1 rfl] at hten

/-- There are no two shortest decimals, one below the number and one above it. -/
theorem IsShortest.not_lt : False := by
  obtain ⟨hone, hten⟩ := hd.length_eq_one hx he hlt hsum
  have hbetween : ∀ other : Decimal, d.value < other.value → other.value < e.value →
      ¬other.digits < 10 ^ 1 := by
    intro other hlow hhigh hshort
    have hlonger := hd.not_between he hsum other hlow hhigh
    rw [hone] at hlonger
    exact absurd (length_le_iff.2 hshort) hlonger.not_ge
  have hsmall : d.digits < 10 ^ 1 := length_le_iff.1 hone.le
  have hnine : d.digits = 9 := by
    by_contra hne
    refine hbetween ⟨9, d.exponent⟩ (value_lt_iff.2 (by omega)) ?_ (by norm_num)
    exact (value_lt_iff.2 (by norm_num)).trans_le hten
  have heq : value ⟨10, d.exponent⟩ = e.value := by
    refine hten.eq_of_not_lt fun hlt => ?_
    have hvalue : value ⟨10 ^ 0, d.exponent + 1⟩ = value ⟨10 ^ 1, d.exponent⟩ := by
      rw [value_ten_pow 0 (zero_add _).symm, value_ten_pow 1 (add_comm _ _), Nat.cast_one]
    refine hbetween ⟨10 ^ 0, d.exponent + 1⟩ ?_ (hvalue.trans_lt hlt) (by norm_num)
    rw [hvalue]
    exact value_lt_iff.2 hsmall
  have hprefer := hd.tie 10 (by rw [heq]; exact he.roundsTo) (by omega)
    (by rw [← he.error_eq hd]; unfold error; rw [heq])
  rw [hnine] at hprefer
  cases tie with
  | toEven => exact absurd (show Even 9 from hprefer) (by decide)
  | up => exact absurd (show 10 < 9 from hprefer) (by decide)

end

/-- A number has one shortest decimal only. -/
theorem IsShortest.unique {d e : Decimal} (hx : x.mantissa ≠ 0) (hd : IsShortest tie x d)
    (he : IsShortest tie x e) : d = e := by
  have herror := hd.error_eq he
  unfold error at herror
  rcases abs_eq_abs.1 herror with hsame | hother
  · exact hd.eq_of_value hx he (by linarith)
  · have hsum : d.value + e.value = 2 * x.magnitude := by linarith
    rcases lt_trichotomy d.value e.value with hlt | heq | hgt
    · exact (hd.not_lt hx he hlt hsum).elim
    · exact hd.eq_of_value hx he heq
    · exact (he.not_lt hx hd hgt (by linarith)).elim

end Binary

end Newsletter
