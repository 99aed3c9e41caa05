/-
How binary numbers are written. Main statement: the numeral of a number other than zero is the text of
its shortest decimal, written out in full between two powers of ten and with an exponent beyond them.
-/
import Newsletter.Proofs.Binary.Search
import Newsletter.Proofs.Decimal.Digits

namespace Newsletter

/-! ## Texts of decimals -/

namespace Decimal

/-- The digits written out in full, with a point before the last of them or with zeros behind them;
`mark` stands behind an integer. -/
def positionalText (mark : String) (d : Decimal) : String :=
  match d.exponent with
  | .ofNat zeros => toString d.digits ++ String.ofList (List.replicate zeros '0') ++ mark
  | .negSucc n =>
    let digits := (Nat.toDigits 10 d.digits).leftpad (n + 2) '0'
    let whole := digits.length - (n + 1)
    String.ofList (digits.take whole) ++ "." ++ String.ofList (digits.drop whole)

/-- The first digit, the others behind a point, and the power of ten with its sign. -/
def exponentText (d : Decimal) : String :=
  let digits := Nat.toDigits 10 d.digits
  let power := d.exponent + (digits.length - 1 : ℕ)
  String.ofList (digits.take 1) ++ (if digits.length = 1 then "" else ".") ++
    String.ofList (digits.drop 1) ++ "e" ++ (if 0 ≤ power then "+" else "-") ++ toString power.natAbs

end Decimal

namespace Binary

variable {f : Format} {x : Binary f}

/-- The sign in front of a number. -/
def signText (x : Binary f) : String := if x.negative then "-" else ""

/-- How a number other than zero is written: its shortest decimal in full from `10 ^ least` up to, but
without, `10 ^ bound`, and with an exponent below and above. -/
inductive WrittenAs (tie : Tie) (least bound : ℤ) (mark : String) (x : Binary f) : String → Prop
  | positional {d : Decimal} (h : IsShortest tie x d) (hleast : 10 ^ least ≤ d.value)
    (hbound : d.value < 10 ^ bound) :
    WrittenAs tie least bound mark x (x.signText ++ d.positionalText mark)
  | exponent {d : Decimal} (h : IsShortest tie x d)
    (hrange : d.value < 10 ^ least ∨ 10 ^ bound ≤ d.value) :
    WrittenAs tie least bound mark x (x.signText ++ d.exponentText)

end Binary

/-! ## Numerals -/

namespace Numeral

theorem ofList_chars (n : Numeral) : String.ofList n.chars =
    (if n.negative then "-" else "") ++ toString n.whole ++ String.ofList (fractionChars n.fraction) ++
      String.ofList (exponentChars n.exponent) := by
  unfold chars
  rw [String.ofList_append, String.ofList_append, String.ofList_append, Digits.ofList_chars_ofNat]
  cases n.negative <;> rfl

theorem ofList_exponentChars (e : ℤ) : String.ofList (exponentChars (some e)) =
    "e" ++ (if 0 ≤ e then "+" else "-") ++ toString e.natAbs := by
  rw [← Digits.ofList_chars_ofNat, ← String.toList_inj]
  unfold exponentChars
  rcases lt_or_ge e 0 with hneg | hnonneg
  · simp [hneg, Int.not_le.2 hneg]
  · simp [hnonneg, Int.not_lt.2 hnonneg]

theorem ofList_fractionChars {fraction : List Digit} (h : fraction ≠ []) :
    String.ofList (fractionChars fraction) = "." ++ String.ofList (Digits.chars fraction) := by
  unfold fractionChars
  rw [if_neg (by simpa using h), String.ofList_cons]
  rfl

end Numeral

namespace Layout

open Decimal Numeral

variable {f : Format} {x : Binary f}

/-- What a notation puts behind a positional integer. -/
def mark (l : Layout) : String := if l.keepsPoint then ".0" else ""

/-- The digits before and behind a point that leaves `count` of them behind it. -/
theorem take_drop_leftpad (count n : ℕ) :
    let digits := (Nat.toDigits 10 n).leftpad (count + 1) '0'
    String.ofList (digits.take (digits.length - count)) = toString (n / 10 ^ count) ∧
      String.ofList (digits.drop (digits.length - count)) =
        String.ofList (Digits.chars (Digits.places count (n % 10 ^ count))) := by
  dsimp only
  rw [← Digits.chars_point, ← Digits.ofList_chars_ofNat]
  have hlength : (Digits.chars (Digits.places count (n % 10 ^ count))).length = count := by
    rw [Digits.chars, List.length_map, Digits.length_places]
  generalize Digits.chars (Digits.places count (n % 10 ^ count)) = behind at hlength
  rw [List.length_append, hlength, Nat.add_sub_cancel]
  exact ⟨congrArg _ List.take_left, congrArg _ List.drop_left⟩

theorem ofList_chars_positional (l : Layout) {d : Decimal} (h : d.digits ≠ 0) (negative : Bool) :
    String.ofList (l.positional negative d).chars =
      (if negative then "-" else "") ++ d.positionalText l.mark := by
  obtain ⟨digits, exponent⟩ := d
  cases exponent with
  | ofNat zeros =>
    have hnumeral : l.positional negative ⟨digits, .ofNat zeros⟩ =
        { negative, whole := digits * 10 ^ zeros,
          fraction := if l.keepsPoint then [.zero] else [], exponent := none } :=
      if_pos (Int.natCast_nonneg zeros)
    have hmark : String.ofList (fractionChars (if l.keepsPoint then [.zero] else [])) = l.mark := by
      unfold mark
      cases l.keepsPoint <;> rfl
    rw [hnumeral, ofList_chars, hmark, Nat.toString_eq_ofList_toDigits, Digits.toDigits_mul_pow h,
      String.ofList_append, ← Nat.toString_eq_ofList_toDigits]
    simp only [positionalText, exponentChars, String.ofList_nil, String.append_empty,
      String.append_assoc]
  | negSucc n =>
    have hnumeral : l.positional negative ⟨digits, .negSucc n⟩ =
        { negative, whole := digits / 10 ^ (n + 1),
          fraction := Digits.places (n + 1) (digits % 10 ^ (n + 1)), exponent := none } :=
      if_neg (Int.negSucc_not_nonneg n).1
    obtain ⟨hwhole, hfraction⟩ := take_drop_leftpad (n + 1) digits
    rw [hnumeral, ofList_chars, ofList_fractionChars (Digits.places_ne_nil (Nat.succ_ne_zero n) _)]
    simp only [positionalText, hwhole, hfraction, exponentChars, String.ofList_nil,
      String.append_empty, String.append_assoc]

theorem ofList_chars_scientific (d : Decimal) (negative : Bool) :
    String.ofList (scientific negative d).chars =
      (if negative then "-" else "") ++ d.exponentText := by
  have hlength : (Digits.ofNat d.digits).length = (Nat.toDigits 10 d.digits).length := by
    rw [← Digits.chars_ofNat, Digits.chars, List.length_map]
  have hpos := Digits.length_ofNat_pos d.digits
  have hpower : d.point - 1 = d.exponent + ((Nat.toDigits 10 d.digits).length - 1 : ℕ) := by
    rw [point, ← hlength]
    omega
  unfold scientific exponentText
  dsimp only
  rw [ofList_chars, ofList_exponentChars, hpower, hlength]
  rw [hlength] at hpos
  -- one digit more than there are places behind the point is all of them
  obtain ⟨hwhole, hfraction⟩ := take_drop_leftpad ((Nat.toDigits 10 d.digits).length - 1) d.digits
  have hself : (Nat.toDigits 10 d.digits).leftpad ((Nat.toDigits 10 d.digits).length - 1 + 1) '0' =
      Nat.toDigits 10 d.digits := by
    rw [List.leftpad, Nat.sub_eq_zero_of_le (by omega)]
    rfl
  rw [hself, Nat.sub_sub_self hpos] at hwhole hfraction
  rw [hwhole]
  by_cases hone : (Nat.toDigits 10 d.digits).length = 1
  · rw [if_pos hone, List.drop_of_length_le hone.le, hone]
    simp [fractionChars, Digits.places, String.append_assoc]
  · rw [if_neg hone, hfraction, ofList_fractionChars (Digits.places_ne_nil (by omega) _)]
    simp only [String.append_assoc]
    rfl

/-- The magnitudes that a notation writes in full. -/
theorem point_iff (l : Layout) {d : Decimal} (h : d.digits ≠ 0) :
    l.leastPoint ≤ d.point ∧ d.point ≤ l.greatestPoint ↔
      (10 : ℚ) ^ (l.leastPoint - 1) ≤ d.value ∧ d.value < 10 ^ l.greatestPoint := by
  obtain ⟨hlow, hhigh⟩ := bounds_point h
  have hten : (1 : ℚ) < 10 := by norm_num
  refine and_congr ⟨fun hle => ?_, fun hle => ?_⟩ ⟨fun hle => ?_, fun hlt => ?_⟩
  · exact (zpow_le_zpow_right₀ hten.le (by omega)).trans hlow
  · have := (zpow_lt_zpow_iff_right₀ hten).1 (hle.trans_lt hhigh)
    omega
  · exact hhigh.trans_le (zpow_le_zpow_right₀ hten.le hle)
  · have := (zpow_lt_zpow_iff_right₀ hten).1 (hlow.trans_lt hlt)
    omega

/-- The numeral of a number other than zero is what it is written as. -/
theorem writtenAs_iff (l : Layout) (hp : 2 ≤ f.precision) (hbits : 2 ^ f.precision < 10 ^ 16)
    (hx : x.mantissa ≠ 0) {text : String} :
    x.WrittenAs l.tie (l.leastPoint - 1) l.greatestPoint l.mark text ↔
      text = String.ofList (l.numeral x).chars := by
  have hshortest : Binary.IsShortest l.tie x (x.shortest l.tie) :=
    Binary.isShortest_shortest hp hbits hx
  have hdigits := hshortest.roundsTo.digits_ne_zero hx
  have hrange := l.point_iff hdigits
  have hzero : ¬x.isZero = true := by
    unfold Binary.isZero
    simpa using hx
  have hnumeral : String.ofList (l.numeral x).chars = x.signText ++
      if l.leastPoint ≤ (x.shortest l.tie).point ∧ (x.shortest l.tie).point ≤ l.greatestPoint then
        (x.shortest l.tie).positionalText l.mark else (x.shortest l.tie).exponentText := by
    unfold numeral
    rw [if_neg hzero]
    dsimp only
    split
    · exact l.ofList_chars_positional hdigits _
    · exact ofList_chars_scientific _ _
  rw [hnumeral]
  constructor
  · rintro (⟨h, hleast, hbound⟩ | ⟨h, hout⟩)
    · rw [h.unique hx hshortest] at hleast hbound ⊢
      rw [if_pos (hrange.2 ⟨hleast, hbound⟩)]
    · rw [h.unique hx hshortest] at hout ⊢
      rw [if_neg fun hin => ?_]
      obtain ⟨hleast, hbound⟩ := hrange.1 hin
      exact hout.elim hleast.not_gt hbound.not_ge
  · rintro rfl
    split
    · rename_i hin
      obtain ⟨hleast, hbound⟩ := hrange.1 hin
      exact .positional hshortest hleast hbound
    · rename_i hout
      rw [hrange, not_and_or, not_le, not_lt] at hout
      exact .exponent hshortest hout

end Layout

end Newsletter
