/-
Decimal digits as they are printed. Main statement: a decimal point between the digits of a number
leaves the same digits before and behind it, with zeros in front where there are too few of them.
-/
import Newsletter.Decimal.Digits
import Mathlib.Algebra.Group.Nat.Defs

namespace Newsletter

theorem Digit.char_eq (d : Digit) : d.char = Nat.digitChar d.val := by
  revert d
  decide

namespace Digits

theorem chars_append (ds es : List Digit) : chars (ds ++ es) = chars ds ++ chars es :=
  List.map_append

theorem chars_singleton (d : Digit) : chars [d] = [Nat.digitChar d.val] := by
  rw [chars, List.map_singleton, Digit.char_eq]

/-- The digits of a number are those that it is printed with. -/
theorem chars_ofNat (n : ℕ) : chars (ofNat n) = Nat.toDigits 10 n := by
  fun_induction ofNat n with
  | case1 n h => rw [Nat.toDigits_of_lt_base h, chars_singleton]
  | case2 n h ih =>
    rw [Nat.toDigits_of_base_le (by decide) (by omega), ← ih, chars_append, chars_singleton]

theorem ofList_chars_ofNat (n : ℕ) : String.ofList (chars (ofNat n)) = toString n := by
  rw [chars_ofNat, Nat.toString_eq_ofList_toDigits]

/-- Zeros are appended by a power of ten. -/
theorem toDigits_mul_pow {n : ℕ} (h : n ≠ 0) (count : ℕ) :
    Nat.toDigits 10 (n * 10 ^ count) = Nat.toDigits 10 n ++ List.replicate count '0' := by
  induction count with
  | zero => simp
  | succ count ih =>
    have hpos : 0 < n * 10 ^ count := Nat.mul_pos (Nat.pos_of_ne_zero h) (Nat.pow_pos (by decide))
    have hmul : n * 10 ^ (count + 1) = n * 10 ^ count * 10 := by rw [Nat.pow_succ, Nat.mul_assoc]
    rw [Nat.toDigits_of_base_le (by decide) (by omega), hmul, Nat.mul_div_cancel _ (by decide),
      Nat.mul_mod_left, ih, List.replicate_succ', List.append_assoc]
    rfl

/-- With one more place asked for, the last digit comes behind the padded others. -/
theorem leftpad_toDigits (count n : ℕ) : (Nat.toDigits 10 n).leftpad (count + 2) '0' =
    (Nat.toDigits 10 (n / 10)).leftpad (count + 1) '0' ++ [Nat.digitChar (n % 10)] := by
  rcases Nat.lt_or_ge n 10 with hlt | hge
  · rw [Nat.toDigits_of_lt_base hlt, Nat.div_eq_of_lt hlt, Nat.toDigits_zero, Nat.mod_eq_of_lt hlt]
    simp [List.leftpad, List.replicate_succ']
  · rw [Nat.toDigits_of_base_le (by decide) hge]
    simp [List.leftpad]

/-- The digits before a point and the `count` digits behind it. -/
theorem chars_point (count n : ℕ) :
    chars (ofNat (n / 10 ^ count)) ++ chars (places count (n % 10 ^ count)) =
      (Nat.toDigits 10 n).leftpad (count + 1) '0' := by
  induction count generalizing n with
  | zero =>
    have hlength : 0 < (Nat.toDigits 10 n).length := Nat.length_toDigits_pos
    rw [Nat.pow_zero, Nat.div_one, chars_ofNat, List.leftpad, Nat.sub_eq_zero_of_le hlength]
    simp [chars, places]
  | succ count ih =>
    have hdiv : n / 10 ^ (count + 1) = n / 10 / 10 ^ count := by
      rw [Nat.pow_succ', Nat.div_div_eq_div_mul]
    have hshift : n % 10 ^ (count + 1) / 10 = n / 10 % 10 ^ count := by
      rw [Nat.pow_succ', Nat.mod_mul_right_div_self]
    have hlast : n % 10 ^ (count + 1) % 10 = n % 10 := by
      rw [Nat.pow_succ', Nat.mod_mul_right_mod]
    rw [leftpad_toDigits, ← ih (n / 10), places, chars_append, chars_singleton, ← List.append_assoc,
      hdiv, hshift]
    dsimp only
    rw [hlast]

end Digits

end Newsletter
