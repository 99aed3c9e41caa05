/-
Timestamps as text. Main statement: a timestamp is read back from the text it is written as, whatever
its year and however many digits its second has.
-/
import Newsletter.Time.Timestamp
import Mathlib.Data.List.Basic

namespace Newsletter

/-! ## Blanks and digits -/

theorem Text.skipWhiteSpace_eq {cs : List Char} (h : ∀ c ∈ cs.head?, isWhiteSpace c = false) :
    skipWhiteSpace cs = cs := by
  unfold skipWhiteSpace
  cases cs with
  | nil => rfl
  | cons c cs => rw [List.dropWhile_cons_of_neg (by simp [h c rfl])]

/-- The first character of written digits is a digit. -/
theorem Digits.exists_head_chars {ds : List Digit} (h : ds ≠ []) (rest : List Char) :
    ∃ (d : Digit) (cs : List Char), chars ds ++ rest = d.char :: cs := by
  obtain ⟨d, ds, rfl⟩ := List.exists_cons_of_ne_nil h
  exact ⟨d, chars ds ++ rest, rfl⟩

theorem Digits.skipWhiteSpace_chars {ds : List Digit} (h : ds ≠ []) (rest : List Char) :
    Text.skipWhiteSpace (chars ds ++ rest) = chars ds ++ rest := by
  have hdigit : ∀ d : Digit, Text.isWhiteSpace d.char = false := by decide
  obtain ⟨d, cs, hhead⟩ := exists_head_chars h rest
  rw [hhead]
  apply Text.skipWhiteSpace_eq
  rintro _ ⟨⟩
  exact hdigit d

namespace Timestamp

/-- Characters that do not go on with a number. -/
def Ends (rest : List Char) : Prop := ∀ c ∈ rest.head?, Digit.ofChar? c = none

theorem ends_cons {c : Char} (h : Digit.ofChar? c = none) (rest : List Char) : Ends (c :: rest) := by
  rintro _ ⟨⟩
  exact h

/-- A number is read from its digits, if it may have as many. -/
theorem readDigits?_chars {ds : List Digit} (hne : ds ≠ []) {width : Nat} (hwidth : ds.length ≤ width)
    {rest : List Char} (hrest : Ends rest) :
    readDigits? width (Digits.chars ds ++ rest) = some (Digits.toNat ds, rest) := by
  have hlength : (Digits.chars ds).length = ds.length := List.length_map _
  unfold readDigits?
  rw [Digits.take_chars_append ds rest hrest]
  obtain ⟨d, others, rfl⟩ := List.exists_cons_of_ne_nil hne
  dsimp only
  rw [List.take_of_length_le hwidth, List.drop_left' hlength]

/-! ## The parts -/

theorem readPair?_pairChars {n : Nat} (h : n < 100) {rest : List Char} (hrest : Ends rest) :
    readPair? (pairChars n ++ rest) = some (n, rest) := by
  have hne := Digits.places_ne_nil (by decide : 2 ≠ 0) n
  unfold readPair? pairChars
  rw [Digits.skipWhiteSpace_chars hne,
    readDigits?_chars hne (Nat.le_of_eq (Digits.length_places 2 n)) hrest, Digits.toNat_places h]

theorem readMark?_cons {mark : Char} (h : Text.isWhiteSpace mark = false) (rest : List Char) :
    readMark? mark (mark :: rest) = some rest := by
  have hskip : Text.skipWhiteSpace (mark :: rest) = mark :: rest := by
    apply Text.skipWhiteSpace_eq
    rintro _ ⟨⟩
    exact h
  unfold readMark?
  rw [hskip]
  exact if_pos rfl

/-- A year is read back with its sign. -/
theorem readYear?_yearChars (year : Int) {rest : List Char} (hrest : Ends rest) :
    readYear? (yearChars year ++ rest) = some (year, rest) := by
  unfold readYear? yearChars
  by_cases hyear : 0 ≤ year ∧ year ≤ 9999
  · -- four digits, the first of which is no sign
    have hne := Digits.places_ne_nil (by decide : 4 ≠ 0) year.toNat
    have hsmall : year.toNat < Nat.pow 10 4 := by
      rw [show Nat.pow 10 4 = 10000 from rfl]
      omega
    have hread := readDigits?_chars hne (Nat.le_of_eq (Digits.length_places 4 _)) hrest
    rw [Digits.toNat_places hsmall] at hread
    have hsign : ∀ d : Digit, d.char ≠ '-' ∧ d.char ≠ '+' := by decide
    obtain ⟨d, cs, hhead⟩ := Digits.exists_head_chars hne rest
    rw [if_pos hyear, Digits.skipWhiteSpace_chars hne]
    split
    · rename_i heq
      exact absurd (List.cons.inj (hhead.symm.trans heq)).1 (hsign d).1
    · rename_i heq
      exact absurd (List.cons.inj (hhead.symm.trans heq)).1 (hsign d).2
    · rw [hread, Option.map_some]
      dsimp only
      rw [Int.toNat_of_nonneg hyear.1]
  · -- a sign, behind which any number of digits may stand
    have hlength : (Digits.padded 4 year.natAbs).length ≤
        (Digits.chars (Digits.padded 4 year.natAbs) ++ rest).length := by
      simp [Digits.chars]
    have hread := readDigits?_chars (Digits.padded_ne_nil (by decide) _) hlength hrest
    rw [Digits.toNat_padded] at hread
    rw [if_neg hyear, List.cons_append]
    by_cases hneg : year < 0
    · rw [if_pos hneg, Text.skipWhiteSpace_eq (by rintro _ ⟨⟩; rfl)]
      have habs : -(year.natAbs : Int) = year := by omega
      exact (congrArg (Option.map _) hread).trans (congrArg (fun n => some (n, rest)) habs)
    · rw [if_neg hneg, Text.skipWhiteSpace_eq (by rintro _ ⟨⟩; rfl)]
      have habs : (year.natAbs : Int) = year := by omega
      exact (congrArg (Option.map _) hread).trans (congrArg (fun n => some (n, rest)) habs)

/-- Up to nine digits behind a point are read as nanoseconds. -/
theorem readFraction?_places {count n : Nat} (hcount : count ≠ 0) (hmost : count ≤ 9)
    (hsmall : n < Nat.pow 10 count) {rest : List Char} (hrest : Ends rest) :
    readFraction? ('.' :: Digits.chars (Digits.places count n) ++ rest) =
      some (n * Nat.pow 10 (9 - count), rest) := by
  obtain ⟨d, ds, hplaces⟩ := List.exists_cons_of_ne_nil (Digits.places_ne_nil hcount n)
  have hlength := Digits.length_places count n
  have hvalue := Digits.toNat_places hsmall
  rw [List.cons_append, readFraction?, Digits.take_chars_append _ _ hrest]
  rw [hplaces] at hlength hvalue ⊢
  dsimp only
  rw [List.take_of_length_le (by omega), hvalue, hlength]

theorem readFraction?_fractionChars {n : Nat} (h : n < 1000000000) {rest : List Char}
    (hrest : Ends rest) (hpoint : rest.head? ≠ some '.') :
    readFraction? (fractionChars n ++ rest) = some (n, rest) := by
  have hthree : Nat.pow 10 3 = 1000 := rfl
  have hsix : Nat.pow 10 6 = 1000000 := rfl
  unfold fractionChars
  split
  · rename_i hzero
    rw [List.nil_append, hzero]
    unfold readFraction?
    split
    · exact absurd rfl hpoint
    · rfl
  · split
    · rename_i hmilli
      rw [readFraction?_places (by decide) (by decide) (by rw [hthree]; omega) hrest, hsix,
        Nat.div_mul_cancel (Nat.dvd_of_mod_eq_zero hmilli)]
    · split
      · rename_i hmicro
        rw [readFraction?_places (by decide) (by decide) (by rw [hsix]; omega) hrest, hthree,
          Nat.div_mul_cancel (Nat.dvd_of_mod_eq_zero hmicro)]
      · rw [readFraction?_places (by decide) (by decide) h hrest]
        show some (n * 1, rest) = _
        rw [Nat.mul_one]

theorem ends_fractionChars (n : Nat) {rest : List Char} (h : Ends rest) :
    Ends (fractionChars n ++ rest) := by
  have hpoint : Digit.ofChar? '.' = none := by decide
  unfold fractionChars
  split
  · exact h
  · split
    · exact ends_cons hpoint _
    · split
      · exact ends_cons hpoint _
      · exact ends_cons hpoint _

/-! ## Instants -/

theorem ofParts?_date (d : Date) : Date.ofParts? d.year d.month d.day = some d :=
  dif_pos ⟨d.year_range, d.month_range, d.day_range⟩

/-- A local time that is universal time. -/
theorem ofLocal?_zero (t : Timestamp) :
    ofLocal? t.date t.hour t.minute t.second t.nanosecond 0 = some t := by
  have hhour := t.hour_lt
  have hminute := t.minute_lt
  have hday : ((t.hour : Int) * 60 + t.minute - 0) / (24 * 60) = 0 := by omega
  have hminutes : (((t.hour : Int) * 60 + t.minute - 0) % (24 * 60)).toNat =
      t.hour * 60 + t.minute := by omega
  unfold ofLocal?
  simp only [hday, hminutes]
  rw [shiftDate?, if_pos rfl]
  dsimp only [bind, Option.bind]
  rw [dif_pos ⟨hhour, hminute, t.second_le, t.nanosecond_lt⟩]
  have hfields : (t.hour * 60 + t.minute) / 60 = t.hour ∧ (t.hour * 60 + t.minute) % 60 = t.minute := by
    omega
  simp only [hfields.1, hfields.2]
  rfl

/-- A timestamp is read back from its text. -/
theorem ofText?_toText (t : Timestamp) : ofText? t.toText = some t := by
  have hmonth : t.date.month < 100 := by
    have := t.date.month_range
    omega
  have hday : t.date.day < 100 := by
    have hlast : daysInMonth t.date.year t.date.month ≤ 31 := by
      unfold daysInMonth
      split
      · split <;> decide
      · split <;> decide
    have := t.date.day_range
    omega
  have hhour := t.hour_lt
  have hminute := t.minute_lt
  have hsecond := t.second_le
  have hdash : Digit.ofChar? '-' = none := by decide
  have hcolon : Digit.ofChar? ':' = none := by decide
  unfold ofText? toText chars
  rw [String.toList_ofList]
  simp only [List.append_assoc, List.cons_append]
  rw [readYear?_yearChars _ (ends_cons hdash _)]
  dsimp only [bind, Option.bind]
  rw [readMark?_cons rfl]
  dsimp only
  rw [readPair?_pairChars hmonth (ends_cons hdash _)]
  dsimp only
  rw [readMark?_cons rfl]
  dsimp only
  rw [readPair?_pairChars hday (ends_cons (by decide) _)]
  dsimp only [readDivider?]
  rw [if_pos (Or.inl rfl)]
  dsimp only
  rw [readPair?_pairChars (by omega) (ends_cons hcolon _)]
  dsimp only
  rw [readMark?_cons rfl]
  dsimp only
  rw [readPair?_pairChars (by omega) (ends_cons hcolon _)]
  dsimp only
  rw [readMark?_cons rfl]
  dsimp only
  rw [readPair?_pairChars (by omega) (ends_fractionChars _ (ends_cons (by decide) _))]
  dsimp only
  rw [readFraction?_fractionChars t.nanosecond_lt (ends_cons (by decide) _) (by decide)]
  dsimp only
  rw [ofParts?_date]
  exact ofLocal?_zero t

end Timestamp

end Newsletter
