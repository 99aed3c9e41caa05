/-
The search for the shortest decimal. Main statement: it finds the decimal that the number is to be
printed with, in every format whose mantissas stay below `10 ^ 16`.
-/
import Newsletter.Proofs.Binary.Shortest

namespace Newsletter.Binary

open Decimal

variable {f : Format} {x : Binary f} {tie : Tie}

/-! ## Multiples of a power of ten -/

/-- Reading back is being rounded. -/
theorem readsBack_iff (hp : 2 ≤ f.precision) (hx : x.mantissa ≠ 0) {d : Decimal} :
    x.ReadsBack d ↔ x.RoundsTo d.value := by
  rw [← d.ratio_value]
  exact nearest?_eq_some_iff hp hx d.ratio_pos

/-- The magnitude lies `t` of a step above the multiple `q` of a power of ten. -/
structure OnGrid (x : Binary f) (e : ℤ) (q : ℕ) (t : ℚ) : Prop where
  magnitude_eq : x.magnitude = (q + t) * 10 ^ e
  nonneg : 0 ≤ t
  lt_one : t < 1

theorem onGrid_onGrid (x : Binary f) (e : ℤ) : 0 < (x.onGrid e).2.2 ∧
    x.OnGrid e (x.onGrid e).1 ((x.onGrid e).2.1 / (x.onGrid e).2.2) := by
  have hden : 0 < x.ratio.2 * Nat.pow 10 e.toNat := Nat.mul_pos x.ratio_pos (Nat.pow_pos (by decide))
  have hvalue : ((x.ratio.1 * Nat.pow 10 (-e).toNat : ℕ) : ℚ) /
      (x.ratio.2 * Nat.pow 10 e.toNat : ℕ) * 10 ^ e = x.magnitude := by
    rw [← x.ratio_value]
    simp only [Nat.pow_eq, Nat.cast_mul, Nat.cast_pow, Nat.cast_ofNat]
    rcases Int.eq_nat_or_neg e with ⟨n, rfl | rfl⟩
    · rw [Int.toNat_natCast, Int.toNat_neg_natCast, pow_zero, mul_one, zpow_natCast]
      field_simp
    · rw [neg_neg, Int.toNat_natCast, Int.toNat_neg_natCast, pow_zero, mul_one, zpow_neg,
        zpow_natCast]
      field_simp
  obtain ⟨hsplit, hnonneg, hlt⟩ := div_eq_quotient_add (x.ratio.1 * Nat.pow 10 (-e).toNat) hden
  exact ⟨hden, (hsplit ▸ hvalue).symm, hnonneg, hlt⟩

namespace OnGrid

variable {e : ℤ} {q : ℕ} {t : ℚ} (h : x.OnGrid e q t)
include h

theorem error_eq (n : ℕ) : x.error ⟨n, e⟩ = |(n : ℚ) - (q + t)| * 10 ^ e := by
  unfold error value
  rw [h.magnitude_eq, ← sub_mul, abs_mul, abs_of_pos (ten_zpow_pos e)]

theorem error_of_le {n : ℕ} (hn : n ≤ q) : x.error ⟨n, e⟩ = (q - n + t) * 10 ^ e := by
  have hcast : (n : ℚ) ≤ q := by exact_mod_cast hn
  have hnonneg := h.nonneg
  rw [h.error_eq, abs_of_nonpos (by linarith)]
  ring

theorem error_of_lt {n : ℕ} (hn : q < n) : x.error ⟨n, e⟩ = (n - q - t) * 10 ^ e := by
  have hcast : (q : ℚ) + 1 ≤ n := by exact_mod_cast hn
  have hlt := h.lt_one
  rw [h.error_eq, abs_of_nonneg (by linarith)]
  ring

/-- The multiple just below the magnitude is rounded to the number if any below it is. -/
theorem roundsTo_lower {n : ℕ} (hn : n ≤ q) (hround : x.RoundsTo (value ⟨n, e⟩)) :
    x.RoundsTo (value ⟨q, e⟩) := by
  have hpos := ten_zpow_pos e
  refine hround.convex x.roundsTo_magnitude ?_ ?_
  · exact mul_le_mul_of_nonneg_right (by exact_mod_cast hn) hpos.le
  · rw [h.magnitude_eq]
    exact mul_le_mul_of_nonneg_right (by linarith [h.nonneg]) hpos.le

theorem roundsTo_upper {n : ℕ} (hn : q < n) (hround : x.RoundsTo (value ⟨n, e⟩)) :
    x.RoundsTo (value ⟨q + 1, e⟩) := by
  have hpos := ten_zpow_pos e
  refine x.roundsTo_magnitude.convex hround ?_ ?_
  · rw [h.magnitude_eq, value]
    push_cast
    exact mul_le_mul_of_nonneg_right (by linarith [h.lt_one]) hpos.le
  · exact mul_le_mul_of_nonneg_right (by exact_mod_cast hn) hpos.le

end OnGrid

/-- A decimal is the one that is taken among the multiples of its own power of ten. -/
structure NearestMultiple (tie : Tie) (x : Binary f) (d : Decimal) : Prop where
  roundsTo : x.RoundsTo d.value
  nearest : ∀ digits : ℕ, x.RoundsTo (value ⟨digits, d.exponent⟩) →
    x.error d ≤ x.error ⟨digits, d.exponent⟩
  tie : ∀ digits : ℕ, x.RoundsTo (value ⟨digits, d.exponent⟩) → digits ≠ d.digits →
    x.error ⟨digits, d.exponent⟩ = x.error d → tie.Prefers d.digits digits

namespace OnGrid

variable {e : ℤ} {q : ℕ} {t : ℚ} (h : x.OnGrid e q t)
include h

/-- The multiple below is taken if the one above is not rounded to the number, or not taken itself. -/
theorem nearestMultiple_lower (hlower : x.RoundsTo (value ⟨q, e⟩))
    (hupper : x.RoundsTo (value ⟨q + 1, e⟩) → t < 1 / 2 ∨ t = 1 / 2 ∧ tie.Prefers q (q + 1)) :
    NearestMultiple tie x ⟨q, e⟩ := by
  have hpos := ten_zpow_pos e
  have hself := h.error_of_le le_rfl
  refine ⟨hlower, fun n hn => ?_, fun n hn hne herror => ?_⟩
  · rw [hself]
    rcases le_or_gt n q with hle | hlt
    · have hcast : (n : ℚ) ≤ q := by exact_mod_cast hle
      rw [h.error_of_le hle]
      exact mul_le_mul_of_nonneg_right (by linarith) hpos.le
    · have hcast : (q : ℚ) + 1 ≤ n := by exact_mod_cast hlt
      rw [h.error_of_lt hlt]
      refine mul_le_mul_of_nonneg_right ?_ hpos.le
      rcases hupper (h.roundsTo_upper hlt hn) with hhalf | ⟨hhalf, -⟩ <;> linarith
  · rw [hself] at herror
    rcases le_or_gt n q with hle | hlt
    · rw [h.error_of_le hle, mul_left_inj' hpos.ne'] at herror
      have heq : (n : ℚ) = q := by linarith
      exact absurd (by exact_mod_cast heq) hne
    · have hcast : (q : ℚ) + 1 ≤ n := by exact_mod_cast hlt
      rw [h.error_of_lt hlt, mul_left_inj' hpos.ne'] at herror
      rcases hupper (h.roundsTo_upper hlt hn) with hhalf | ⟨hhalf, hprefer⟩
      · linarith
      · have heq : (n : ℚ) = q + 1 := by linarith
        rwa [show n = q + 1 by exact_mod_cast heq]

/-- The multiple above is taken if the one below is not rounded to the number, or not taken itself. -/
theorem nearestMultiple_upper (hupper : x.RoundsTo (value ⟨q + 1, e⟩))
    (hlower : x.RoundsTo (value ⟨q, e⟩) → 1 / 2 < t ∨ t = 1 / 2 ∧ tie.Prefers (q + 1) q) :
    NearestMultiple tie x ⟨q + 1, e⟩ := by
  have hpos := ten_zpow_pos e
  have hself := h.error_of_lt (Nat.lt_succ_self q)
  push_cast at hself
  refine ⟨hupper, fun n hn => ?_, fun n hn hne herror => ?_⟩
  · rw [hself]
    rcases le_or_gt n q with hle | hlt
    · have hcast : (n : ℚ) ≤ q := by exact_mod_cast hle
      rw [h.error_of_le hle]
      refine mul_le_mul_of_nonneg_right ?_ hpos.le
      rcases hlower (h.roundsTo_lower hle hn) with hhalf | ⟨hhalf, -⟩ <;> linarith
    · have hcast : (q : ℚ) + 1 ≤ n := by exact_mod_cast hlt
      rw [h.error_of_lt hlt]
      exact mul_le_mul_of_nonneg_right (by linarith) hpos.le
  · rw [hself] at herror
    rcases le_or_gt n q with hle | hlt
    · have hcast : (n : ℚ) ≤ q := by exact_mod_cast hle
      rw [h.error_of_le hle, mul_left_inj' hpos.ne'] at herror
      rcases hlower (h.roundsTo_lower hle hn) with hhalf | ⟨hhalf, hprefer⟩
      · linarith
      · have heq : (n : ℚ) = q := by linarith
        rwa [show n = q by exact_mod_cast heq]
    · rw [h.error_of_lt hlt, mul_left_inj' hpos.ne'] at herror
      have heq : (n : ℚ) = q + 1 := by linarith
      exact absurd (by exact_mod_cast heq) hne

end OnGrid

/-- The two multiples next to a magnitude, the one that is nearer or preferred first. -/
theorem neighbours_eq (tie : Tie) (x : Binary f) (e : ℤ) : ∃ q t, x.OnGrid e q t ∧
    (neighbours tie x e = [⟨q, e⟩, ⟨q + 1, e⟩] ∧ (t < 1 / 2 ∨ t = 1 / 2 ∧ tie.Prefers q (q + 1)) ∨
      neighbours tie x e = [⟨q + 1, e⟩, ⟨q, e⟩] ∧
        (1 / 2 < t ∨ t = 1 / 2 ∧ tie.Prefers (q + 1) q)) := by
  obtain ⟨hden, hgrid⟩ := x.onGrid_onGrid e
  refine ⟨_, _, hgrid, ?_⟩
  unfold neighbours
  generalize x.onGrid e = parts at hden
  obtain ⟨q, r, den⟩ := parts
  dsimp only at hden ⊢
  have hpos : (0 : ℚ) < den := by exact_mod_cast hden
  have hhalf : (r : ℚ) / den = 1 / 2 ↔ den = 2 * r := by
    rw [div_eq_div_iff hpos.ne' two_pos.ne', one_mul, mul_comm, eq_comm]
    exact_mod_cast Iff.rfl
  rw [div_lt_half_iff hden, half_lt_div_iff hden, hhalf]
  cases tie with
  | toEven =>
    dsimp only
    by_cases hfirst : den < 2 * r ∨ den = 2 * r ∧ q % 2 = 1
    · rw [if_pos (by simpa using hfirst)]
      exact .inr ⟨rfl, hfirst.imp_right fun h => ⟨h.1, Nat.even_iff.2 (by omega)⟩⟩
    · rw [if_neg (by simpa using hfirst)]
      refine .inl ⟨rfl, ?_⟩
      rcases Nat.lt_or_ge (2 * r) den with hlt | hge
      · exact .inl hlt
      · exact .inr ⟨by omega, Nat.even_iff.2 (by omega)⟩
  | up =>
    dsimp only
    by_cases hfirst : den ≤ 2 * r
    · rw [if_pos (by simpa using hfirst)]
      exact .inr ⟨rfl, hfirst.lt_or_eq.imp_right fun h => ⟨h, Nat.lt_succ_self q⟩⟩
    · rw [if_neg (by simpa using hfirst)]
      exact .inl ⟨rfl, .inl (not_le.1 hfirst)⟩

section

variable (hp : 2 ≤ f.precision) (hx : x.mantissa ≠ 0) {e : ℤ}
include hp hx

/-- Of two neighbours the second is accepted only where the first is not. -/
theorem neighbour?_eq_some {first second d : Decimal} (hlist : neighbours tie x e = [first, second])
    (hd : neighbour? tie x e = some d) : d = first ∧ x.RoundsTo first.value ∨
      d = second ∧ x.RoundsTo second.value ∧ ¬x.RoundsTo first.value := by
  rw [← readsBack_iff hp hx, ← readsBack_iff hp hx]
  unfold neighbour? at hd
  rw [hlist, List.find?_cons, List.find?_cons, List.find?_nil] at hd
  split at hd
  · rename_i hfirst
    exact .inl ⟨(Option.some.inj hd).symm, of_decide_eq_true hfirst⟩
  · rename_i hfirst
    split at hd
    · rename_i hsecond
      exact .inr ⟨(Option.some.inj hd).symm, of_decide_eq_true hsecond, of_decide_eq_false hfirst⟩
    · cases hd

/-- What the search accepts is taken among the multiples. -/
theorem nearestMultiple_of_neighbour? {d : Decimal} (hd : neighbour? tie x e = some d) :
    d.exponent = e ∧ NearestMultiple tie x d := by
  obtain ⟨q, t, hgrid, ⟨hlist, hfirst⟩ | ⟨hlist, hfirst⟩⟩ := neighbours_eq tie x e
  · rcases neighbour?_eq_some hp hx hlist hd with ⟨rfl, hround⟩ | ⟨rfl, hround, hnot⟩
    · exact ⟨rfl, hgrid.nearestMultiple_lower hround fun _ => hfirst⟩
    · exact ⟨rfl, hgrid.nearestMultiple_upper hround fun h => absurd h hnot⟩
  · rcases neighbour?_eq_some hp hx hlist hd with ⟨rfl, hround⟩ | ⟨rfl, hround, hnot⟩
    · exact ⟨rfl, hgrid.nearestMultiple_upper hround fun _ => hfirst⟩
    · exact ⟨rfl, hgrid.nearestMultiple_lower hround fun h => absurd h hnot⟩

/-- Where the search accepts nothing, no multiple is rounded to the number. -/
theorem not_roundsTo_of_neighbour? (hnone : neighbour? tie x e = none) (n : ℕ) :
    ¬x.RoundsTo (value ⟨n, e⟩) := by
  intro hround
  obtain ⟨q, t, hgrid, hlist⟩ := neighbours_eq tie x e
  have hmem : ∀ d ∈ neighbours tie x e, ¬x.RoundsTo d.value := by
    intro d hd
    have hnot := List.find?_eq_none.1 hnone d hd
    rwa [decide_eq_true_eq, readsBack_iff hp hx] at hnot
  have hlower : ¬x.RoundsTo (value ⟨q, e⟩) := hmem _ (by rcases hlist with h | h <;> simp [h.1])
  have hupper : ¬x.RoundsTo (value ⟨q + 1, e⟩) := hmem _ (by rcases hlist with h | h <;> simp [h.1])
  rcases le_or_gt n q with hle | hlt
  · exact hlower (hgrid.roundsTo_lower hle hround)
  · exact hupper (hgrid.roundsTo_upper hlt hround)

end

/-! ## The search -/

/-- A number lies in the decade of its expansion. -/
theorem bounds_expansion (hx : x.mantissa ≠ 0) :
    (10 : ℚ) ^ (x.expansion.point - 1) ≤ x.magnitude ∧ x.magnitude < 10 ^ x.expansion.point := by
  rw [← x.value_expansion]
  exact Decimal.bounds_point (digits_ne_zero hx (readsBack_expansion hx))

/-- A decimal that is rounded to the number may be replaced by a multiple of the power of ten that
leaves as many digits as it has, and that is no farther. -/
theorem exists_multiple (hx : x.mantissa ≠ 0) {d : Decimal} (h : x.RoundsTo d.value) :
    ∃ n : ℕ, x.RoundsTo (value ⟨n, x.expansion.point - d.length⟩) ∧
      x.error ⟨n, x.expansion.point - d.length⟩ ≤ x.error d := by
  obtain ⟨hlow, hhigh⟩ := bounds_expansion hx
  have hdigits := h.digits_ne_zero hx
  obtain ⟨hdLow, hdHigh⟩ := bounds_length hdigits
  have hlength := length_pos hdigits
  rcases lt_trichotomy (d.length + d.exponent) x.expansion.point with hlt | heq | hgt
  · -- the decimal lies below the decade, whose least number is a multiple
    have hvalue : value ⟨10 ^ (d.length - 1), x.expansion.point - d.length⟩ =
        10 ^ (x.expansion.point - 1) := value_ten_pow _ (by omega)
    have hle : d.value ≤ 10 ^ (x.expansion.point - 1) :=
      hdHigh.le.trans (zpow_le_zpow_right₀ (by norm_num) (by omega))
    refine ⟨10 ^ (d.length - 1), ?_, ?_⟩
    · rw [hvalue]
      exact h.convex x.roundsTo_magnitude hle hlow
    · unfold error
      rw [hvalue, abs_of_nonpos (by linarith), abs_of_nonpos (by linarith)]
      linarith
  · have hexponent : x.expansion.point - d.length = d.exponent := by omega
    rw [hexponent]
    exact ⟨d.digits, h, le_rfl⟩
  · -- the decimal lies above the decade, and the power of ten there is a multiple
    have hvalue : value ⟨10 ^ d.length, x.expansion.point - d.length⟩ = 10 ^ x.expansion.point :=
      value_ten_pow _ (by omega)
    have hle : 10 ^ x.expansion.point ≤ d.value :=
      (zpow_le_zpow_right₀ (by norm_num) (by omega)).trans hdLow
    refine ⟨10 ^ d.length, ?_, ?_⟩
    · rw [hvalue]
      exact x.roundsTo_magnitude.convex h hhigh.le hle
    · unfold error
      rw [hvalue, abs_of_nonneg (by linarith), abs_of_nonneg (by linarith)]
      linarith

/-- A multiple next to the magnitude is no farther than half a step. -/
theorem exists_error_le (x : Binary f) (e : ℤ) : ∃ n : ℕ, x.error ⟨n, e⟩ ≤ 1 / 2 * 10 ^ e := by
  obtain ⟨q, t, hgrid⟩ : ∃ q t, x.OnGrid e q t := ⟨_, _, (x.onGrid_onGrid e).2⟩
  have hnonneg := hgrid.nonneg
  have hless := hgrid.lt_one
  have hpos := ten_zpow_pos e
  rcases le_or_gt t (1 / 2) with hle | hlt
  · refine ⟨q, ?_⟩
    rw [hgrid.error_of_le le_rfl]
    exact mul_le_mul_of_nonneg_right (by linarith) hpos.le
  · refine ⟨q + 1, ?_⟩
    rw [hgrid.error_of_lt (Nat.lt_succ_self q)]
    push_cast
    exact mul_le_mul_of_nonneg_right (by linarith) hpos.le

/-- A magnitude is below `10 ^ 16` times the distance to the number next below. -/
theorem magnitude_lt_gap (hp : 2 ≤ f.precision) (hbits : 2 ^ f.precision < 10 ^ 16) (x : Binary f) :
    x.magnitude < 10 ^ 16 * (x.gapBelow * 2 ^ x.exponent) := by
  obtain ⟨hpow, -, -⟩ := two_pow_pred hp
  have hbound : (2 : ℚ) ^ f.precision < 10 ^ 16 := by exact_mod_cast hbits
  have hmantissa : (x.mantissa : ℚ) < 10 ^ 16 * x.gapBelow := by
    unfold gapBelow
    split
    · rename_i hpower
      rw [hpower.1]
      push_cast
      linarith
    · have hlt : (x.mantissa : ℚ) < 2 ^ f.precision := by exact_mod_cast x.mantissa_lt
      linarith
  unfold magnitude
  rw [← mul_assoc]
  exact mul_lt_mul_of_pos_right hmantissa (two_zpow_pos _)

/-- Seventeen digits are enough where the mantissa is below `10 ^ 16`. -/
theorem exists_roundsTo_seventeen (hp : 2 ≤ f.precision) (hbits : 2 ^ f.precision < 10 ^ 16)
    (hx : x.mantissa ≠ 0) : ∃ n : ℕ, x.RoundsTo (value ⟨n, x.expansion.point - 17⟩) := by
  obtain ⟨n, hn⟩ := exists_error_le x (x.expansion.point - 17)
  have hlow := (bounds_expansion hx).1
  have hlt := magnitude_lt_gap hp hbits x
  -- half a step is less than half the distance to the number next below
  have hstep : (10 : ℚ) ^ (x.expansion.point - 17) * 10 ^ 16 = 10 ^ (x.expansion.point - 1) := by
    rw [← zpow_natCast, ← zpow_add₀ (by norm_num)]
    congr 1
    push_cast
    ring
  have hsmall : 10 ^ (x.expansion.point - 17) < x.gapBelow * (2 : ℚ) ^ x.exponent := by linarith
  have hgap : x.gapBelow * (2 : ℚ) ^ x.exponent ≤ 2 ^ x.exponent :=
    mul_le_of_le_one_left (two_zpow_pos _).le x.gapBelow_le
  obtain ⟨hbelow, habove⟩ := abs_le.1 hn
  unfold magnitude at hbelow habove
  exact ⟨n, .inl (by linarith), .inl (by linarith)⟩

/-- The search stops at the first power of ten of which a multiple is accepted. -/
theorem findSome?_range_eq_some {α : Type} {g : ℕ → Option α} {bound : ℕ} {a : α}
    (h : (List.range bound).findSome? g = some a) : ∃ n, g n = some a ∧ ∀ m < n, g m = none := by
  obtain ⟨front, n, back, hsplit, hn, hnone⟩ := List.findSome?_eq_some_iff.1 h
  have hget : ∀ m : ℕ, (List.range bound)[m]? = (front ++ n :: back)[m]? := fun m => by rw [hsplit]
  have hlength : front.length < bound := by
    have := congrArg List.length hsplit
    rw [List.length_range, List.length_append, List.length_cons] at this
    omega
  have hlast := hget front.length
  rw [List.getElem?_range hlength, List.getElem?_append_right le_rfl, Nat.sub_self,
    List.getElem?_cons_zero, Option.some.injEq] at hlast
  refine ⟨n, hn, fun m hm => hnone m ?_⟩
  have hbefore := hget m
  rw [List.getElem?_range (by omega), List.getElem?_append_left (by omega)] at hbefore
  exact List.mem_of_getElem? hbefore.symm

/-- Above its decade a number is in no tie. -/
theorem eq_one_of_error_eq (hx : x.mantissa ≠ 0) {digits : ℕ}
    (hround : x.RoundsTo (value ⟨digits, x.expansion.point⟩))
    (h : x.error ⟨digits, x.expansion.point⟩ = x.error ⟨1, x.expansion.point⟩) : digits = 1 := by
  have hhigh := (bounds_expansion hx).2
  have hzero : digits ≠ 0 := hround.digits_ne_zero hx
  have hpos := ten_zpow_pos x.expansion.point
  by_contra hne
  have htwo : (2 : ℚ) ≤ digits := by exact_mod_cast (show 2 ≤ digits by omega)
  have hle := mul_le_mul_of_nonneg_right htwo hpos.le
  unfold error value at h
  dsimp only at h
  rw [Nat.cast_one, one_mul, abs_of_nonneg (by linarith), abs_of_nonneg (by linarith)] at h
  linarith

/-- Where multiples of greater powers of ten are not rounded to the number, no decimal with fewer
digits is. -/
theorem lt_length_of_roundsTo (hx : x.mantissa ≠ 0) {n : ℕ}
    (hbefore : ∀ m < n, ∀ digits : ℕ, ¬x.RoundsTo (value ⟨digits, x.expansion.point - m - 1⟩))
    {d : Decimal} (h : x.RoundsTo d.value) : n < d.length := by
  by_contra hshort
  obtain ⟨digits, hround, -⟩ := exists_multiple hx h
  have hpositive : 0 < d.length := length_pos (h.digits_ne_zero hx)
  refine hbefore (d.length - 1) (by omega) digits ?_
  convert hround using 3
  omega

namespace NearestMultiple

variable (hx : x.mantissa ≠ 0) {d : Decimal} {n : ℕ} (h : NearestMultiple tie x d)
  (hexponent : d.exponent = x.expansion.point - n - 1)
include hx h hexponent

/-- The nearest multiple is not above the decade: the power of ten there would be nearer. -/
theorem digits_le : d.digits ≤ 10 ^ (n + 1) := by
  have hhigh := (bounds_expansion hx).2
  have hten : value ⟨10 ^ (n + 1), d.exponent⟩ = 10 ^ x.expansion.point :=
    value_ten_pow _ (by rw [hexponent]; push_cast; ring)
  by_contra hlarge
  rw [not_le] at hlarge
  have hless : value ⟨10 ^ (n + 1), d.exponent⟩ < d.value := value_lt_iff.2 hlarge
  rw [hten] at hless
  have hnearer := h.nearest (10 ^ (n + 1))
    (by rw [hten]; exact x.roundsTo_magnitude.convex h.roundsTo hhigh.le hless.le)
  unfold error at hnearer
  rw [hten, abs_of_nonneg (by linarith), abs_of_nonneg (by linarith)] at hnearer
  linarith

theorem length_strip_le : d.strip.length ≤ n + 1 := by
  rcases (h.digits_le hx hexponent).lt_or_eq with hlt | heq
  · exact (Decimal.length_strip_le d).trans (length_le_iff.2 hlt)
  · refine length_strip_le_of_mod ?_ ?_
    · rw [heq, pow_succ, Nat.mul_mod_left]
    · rw [heq]
      exact Nat.pow_lt_pow_right (by decide) (by omega)

variable
  (hbefore : ∀ m < n, ∀ digits : ℕ, ¬x.RoundsTo (value ⟨digits, x.expansion.point - m - 1⟩))
include hbefore

/-- Only the power of ten above the decade ends in zeros. -/
theorem strip_eq (hmod : d.digits % 10 = 0) : d.strip = ⟨1, x.expansion.point⟩ := by
  have hpower : d.digits = 10 ^ (n + 1) := by
    refine (h.digits_le hx hexponent).eq_of_not_lt fun hlt => ?_
    have hround : x.RoundsTo d.strip.value := by
      rw [value_strip]
      exact h.roundsTo
    have hmore := lt_length_of_roundsTo hx hbefore hround
    have hfewer := length_strip_le_of_mod hmod hlt
    omega
  have hvalue : d.value = value ⟨10 ^ 0, x.expansion.point⟩ := by
    rw [value_ten_pow 0 (zero_add _).symm, ← value_ten_pow (n + 1) (e := d.exponent)
      (by rw [hexponent]; push_cast; ring), ← hpower]
  have hone : n < length ⟨10 ^ 0, x.expansion.point⟩ :=
    lt_length_of_roundsTo hx hbefore (hvalue ▸ h.roundsTo)
  have hn : n = 0 := by
    have hlength : length ⟨10 ^ 0, x.expansion.point⟩ ≤ 1 := length_le_iff.2 (by norm_num)
    omega
  subst hn
  rw [strip_ten hpower, hexponent]
  congr 1
  push_cast
  ring

/-- The first power of ten of which a multiple is rounded to the number leaves the fewest digits. -/
theorem isShortest_strip : IsShortest tie x d.strip := by
  have hround : x.RoundsTo d.strip.value := by
    rw [value_strip]
    exact h.roundsTo
  have herror : x.error d.strip = x.error d := by
    unfold error
    rw [value_strip]
  have hlength := h.length_strip_le hx hexponent
  refine ⟨hround, fun other hother => ?_, fun other hother hsame => ?_, ?_⟩
  · exact hlength.trans (lt_length_of_roundsTo hx hbefore hother)
  · obtain ⟨digits, hmultiple, hle⟩ := exists_multiple hx hother
    have hexact : x.expansion.point - other.length = d.exponent := by
      have := lt_length_of_roundsTo hx hbefore hother
      omega
    rw [hexact] at hmultiple hle
    rw [herror]
    exact (h.nearest digits hmultiple).trans hle
  · intro digits hdigit hne heq
    by_cases hmod : d.digits % 10 = 0
    · rw [h.strip_eq hx hexponent hbefore hmod] at hdigit hne heq
      exact absurd (eq_one_of_error_eq hx hdigit heq) hne
    · have hsame : d.strip = d := by
        rw [strip, if_neg (h.roundsTo.digits_ne_zero hx), if_neg hmod]
      rw [hsame] at hdigit hne heq ⊢
      exact h.tie digits hdigit hne heq

end NearestMultiple

/-- A number is printed with its shortest decimal. -/
theorem isShortest_shortest (hp : 2 ≤ f.precision) (hbits : 2 ^ f.precision < 10 ^ 16)
    (hx : x.mantissa ≠ 0) : IsShortest tie x (x.shortest tie) := by
  obtain ⟨seventeen, hseventeen⟩ := exists_roundsTo_seventeen hp hbits hx
  unfold shortest
  dsimp only
  generalize hfound : (List.range 17).findSome? _ = found
  cases found with
  | none =>
    have hnone := List.findSome?_eq_none_iff.1 hfound 16 (List.mem_range.2 (by decide))
    have hnone' : neighbour? tie x (x.expansion.point - 17) = none := by
      convert hnone using 2
      push_cast
      ring
    exact absurd hseventeen (not_roundsTo_of_neighbour? hp hx hnone' seventeen)
  | some d =>
    obtain ⟨n, hn, hbefore⟩ := findSome?_range_eq_some hfound
    obtain ⟨hexponent, hmultiple⟩ := nearestMultiple_of_neighbour? hp hx hn
    exact hmultiple.isShortest_strip hx hexponent fun m hm digits =>
      not_roundsTo_of_neighbour? hp hx (hbefore m hm) digits

end Newsletter.Binary
