/-
Tokens of JSON texts: numerals and quoted texts read back as what was written, whatever follows
them. A numeral must be followed by something that does not go on with it.
-/
import Newsletter.Json.Tree

namespace Newsletter

/-! ## Numerals -/

namespace Digits

theorem head_ofNat (n : Nat) : ∀ d ds, ofNat n = d :: ds → d = Digit.zero → ds = [] := by
  fun_induction ofNat n with
  | case1 n h =>
    intro d ds heq _
    simp only [List.cons.injEq] at heq
    exact heq.2.symm
  | case2 n h ih =>
    intro d ds heq hd
    rcases hfront : ofNat (n / 10) with _ | ⟨first, rest⟩
    · exact absurd hfront (ofNat_ne_nil _)
    · -- a leading zero would make the digits in front those of zero
      rw [hfront, List.cons_append, List.cons.injEq] at heq
      have hrest : rest = [] := ih first rest hfront (heq.1.trans hd)
      have hvalue := toNat_ofNat (n / 10)
      rw [hfront, hrest, heq.1, hd] at hvalue
      have hzero : toNat [Digit.zero] = 0 := rfl
      omega

end Digits

namespace Numeral

/-- Characters that do not go on with a numeral. -/
def Ends (rest : List Char) : Prop :=
  ∀ c ∈ rest.head?, Digit.ofChar? c = none ∧ c ≠ '.' ∧ c ≠ 'e' ∧ c ≠ 'E'

theorem readWhole_chars (n : Nat) {rest : List Char}
    (h : ∀ c ∈ rest.head?, Digit.ofChar? c = none) :
    readWhole (Digits.chars (Digits.ofNat n) ++ rest) = some (n, rest) := by
  unfold readWhole
  rw [Digits.take_chars_append _ _ h]
  rcases hdigits : Digits.ofNat n with _ | ⟨d, ds⟩
  · exact absurd hdigits (Digits.ofNat_ne_nil n)
  · have hhead : ¬(d = Digit.zero ∧ ds ≠ []) := fun hd => hd.2 (Digits.head_ofNat n d ds hdigits hd.1)
    dsimp only
    rw [if_neg hhead, ← hdigits, Digits.toNat_ofNat]

theorem readFraction_chars (fraction : List Digit) {rest : List Char}
    (h : ∀ c ∈ rest.head?, Digit.ofChar? c = none ∧ c ≠ '.') :
    readFraction (fractionChars fraction ++ rest) = some (fraction, rest) := by
  unfold fractionChars
  cases fraction with
  | nil =>
    rw [List.isEmpty_nil, if_pos rfl, List.nil_append]
    unfold readFraction
    split
    · exact absurd rfl (h '.' rfl).2
    · rfl
  | cons d ds =>
    rw [List.isEmpty_cons, if_neg Bool.false_ne_true, List.cons_append, readFraction,
      Digits.take_chars_append _ _ fun c hc => (h c hc).1]

theorem readExponentDigits_chars (negative : Bool) (n : Nat) {rest : List Char}
    (h : ∀ c ∈ rest.head?, Digit.ofChar? c = none) :
    readExponentDigits negative (Digits.chars (Digits.ofNat n) ++ rest) =
      some (some (if negative then -(n : Int) else n), rest) := by
  unfold readExponentDigits
  rw [Digits.take_chars_append _ _ h]
  rcases hdigits : Digits.ofNat n with _ | ⟨d, ds⟩
  · exact absurd hdigits (Digits.ofNat_ne_nil n)
  · dsimp only
    rw [← hdigits, Digits.toNat_ofNat]

theorem readExponent_chars (exponent : Option Int) {rest : List Char} (h : Ends rest) :
    readExponent (exponentChars exponent ++ rest) = some (exponent, rest) := by
  have hdigit : ∀ c ∈ rest.head?, Digit.ofChar? c = none := fun c hc => (h c hc).1
  cases exponent with
  | none =>
    cases rest with
    | nil => rfl
    | cons c rest =>
      obtain ⟨-, -, hlower, hupper⟩ := h c rfl
      show (if c = 'e' ∨ c = 'E' then _ else some (none, c :: rest)) = _
      rw [if_neg (by simp [hlower, hupper])]
  | some e =>
    rw [exponentChars]
    by_cases he : e < 0
    · rw [if_pos he]
      show readExponentDigits true (Digits.chars (Digits.ofNat e.natAbs) ++ rest) = _
      rw [readExponentDigits_chars true _ hdigit, if_pos rfl, show -(e.natAbs : Int) = e by omega]
    · rw [if_neg he]
      show readExponentDigits false (Digits.chars (Digits.ofNat e.natAbs) ++ rest) = _
      rw [readExponentDigits_chars false _ hdigit, if_neg Bool.false_ne_true,
        show (e.natAbs : Int) = e by omega]

theorem ends_exponentChars (exponent : Option Int) {rest : List Char} (h : Ends rest) :
    ∀ c ∈ (exponentChars exponent ++ rest).head?, Digit.ofChar? c = none ∧ c ≠ '.' := by
  cases exponent with
  | none => exact fun c hc => ⟨(h c hc).1, (h c hc).2.1⟩
  | some e =>
    intro c hc
    rw [exponentChars, List.cons_append, List.head?_cons, Option.mem_some_iff] at hc
    subst hc
    decide

theorem ends_fractionChars (fraction : List Digit) {rest : List Char}
    (h : ∀ c ∈ rest.head?, Digit.ofChar? c = none) :
    ∀ c ∈ (fractionChars fraction ++ rest).head?, Digit.ofChar? c = none := by
  unfold fractionChars
  split
  · exact h
  · intro c hc
    rw [List.cons_append, List.head?_cons, Option.mem_some_iff] at hc
    subst hc
    decide

/-- The first character of a whole part is a digit. -/
theorem exists_digit_chars (n : Nat) :
    ∃ (d : Digit) (cs : List Char), Digits.chars (Digits.ofNat n) = d.char :: cs := by
  rcases hdigits : Digits.ofNat n with _ | ⟨d, ds⟩
  · exact absurd hdigits (Digits.ofNat_ne_nil n)
  · exact ⟨d, Digits.chars ds, rfl⟩

theorem readSign_chars (negative : Bool) (n : Nat) (rest : List Char) :
    readSign ((if negative then ['-'] else []) ++ (Digits.chars (Digits.ofNat n) ++ rest)) =
      (negative, Digits.chars (Digits.ofNat n) ++ rest) := by
  cases negative with
  | true => rfl
  | false =>
    obtain ⟨d, cs, hchars⟩ := exists_digit_chars n
    have hsign : ∀ d : Digit, d.char ≠ '-' := by decide
    rw [if_neg Bool.false_ne_true, List.nil_append, hchars, List.cons_append]
    unfold readSign
    split
    · rename_i heq
      exact absurd (List.cons.inj heq).1 (hsign d)
    · rfl

/-- A numeral is read back. -/
theorem read?_chars (n : Numeral) {rest : List Char} (h : Ends rest) :
    read? (n.chars ++ rest) = some (n, rest) := by
  have hexponent := ends_exponentChars n.exponent h
  have hfraction := ends_fractionChars n.fraction fun c hc => (hexponent c hc).1
  unfold read? chars
  simp only [List.append_assoc]
  rw [readSign_chars]
  simp [readWhole_chars n.whole hfraction, readFraction_chars n.fraction hexponent,
    readExponent_chars n.exponent h]

/-- What holds of digits and of the marks between them holds of all characters of a numeral. -/
theorem all_chars {p : Char → Bool} (hdigit : ∀ d : Digit, p d.char = true)
    (hmark : ['-', '+', '.', 'e'].all p = true) (n : Numeral) : n.chars.all p = true := by
  have hdigits : ∀ ds : List Digit, (Digits.chars ds).all p = true := by
    intro ds
    unfold Digits.chars
    rw [List.all_map, List.all_eq_true]
    exact fun d _ => hdigit d
  simp only [List.all_cons, List.all_nil, Bool.and_true, Bool.and_eq_true] at hmark
  obtain ⟨hminus, hplus, hpoint, he⟩ := hmark
  have hsign : (if n.negative then ['-'] else []).all p = true := by
    split <;> simp [hminus]
  have hfraction : (fractionChars n.fraction).all p = true := by
    unfold fractionChars
    split
    · rfl
    · rw [List.all_cons, hdigits, hpoint]; rfl
  have hexponent : (exponentChars n.exponent).all p = true := by
    cases n.exponent with
    | none => rfl
    | some e =>
      rw [exponentChars, List.all_cons, List.all_cons, hdigits, he]
      split <;> simp [hminus, hplus]
  unfold chars
  rw [List.all_append, List.all_append, List.all_append, hsign, hdigits, hfraction, hexponent]
  rfl

/-- A numeral begins with a sign or a digit. -/
theorem head_chars (n : Numeral) :
    ∃ c cs, n.chars = c :: cs ∧ (c = '-' ∨ ∃ d : Digit, c = d.char) := by
  unfold chars
  obtain ⟨d, cs, hchars⟩ := exists_digit_chars n.whole
  rw [hchars]
  cases n.negative with
  | true => exact ⟨_, _, rfl, Or.inl rfl⟩
  | false => exact ⟨_, _, rfl, Or.inr ⟨d, rfl⟩⟩

end Numeral

/-! ## Quoted texts -/

namespace Json

/-- A glyph that stands for a character whatever stands around it. -/
def Glyph.Denotes (glyph : Glyph) (c : Char) : Prop :=
  glyph = .char c ∨ glyph = .code c.toNat ∧ c.toNat < 32

theorem joinUnits_cons {glyph : Glyph} {c : Char} (h : glyph.Denotes c) (rest : List Glyph) :
    joinUnits none (glyph :: rest) = (joinUnits none rest).map (c :: ·) := by
  rcases h with rfl | ⟨rfl, hlow⟩
  · rfl
  · have hhigh : isHighSurrogate c.toNat = false := by
      unfold isHighSurrogate; simp; omega
    have hlow' : isLowSurrogate c.toNat = false := by
      unfold isLowSurrogate; simp; omega
    rw [joinUnits, hhigh, hlow', Char.ofNat_toNat]
    rfl

theorem readUnits?_unescape {x c : Char} (hx : x ≠ 'u') (hc : unescape? x = some c)
    {rest after : List Char} {units : List Glyph} (h : readUnits? rest = some (units, after)) :
    readUnits? ('\\' :: x :: rest) = some (.char c :: units, after) := by
  unfold readUnits?
  split
  · rename_i heq; cases heq
  · rename_i heq; cases heq
  · rename_i heq; cases heq; exact absurd rfl hx
  · rename_i heq; cases heq; rw [hc, h]
  · rename_i hother heq
    cases heq
    exact (hother _ _ rfl rfl).elim

theorem readUnits?_control {c : Char} (h : c.toNat < 32) {rest after : List Char}
    {units : List Glyph} (hrest : readUnits? rest = some (units, after)) :
    readUnits? ('\\' :: 'u' :: '0' :: '0' :: Bytes.hexDigit (c.toNat / 16) ::
      Bytes.hexDigit (c.toNat % 16) :: rest) = some (.code c.toNat :: units, after) := by
  have hhex : ∀ n < 32, hexValue4? '0' '0' (Bytes.hexDigit (n / 16)) (Bytes.hexDigit (n % 16)) =
      some n := by decide
  rw [readUnits?, hhex _ h, hrest]

theorem readUnits?_plain {c : Char} (hquote : c ≠ '"') (hback : c ≠ '\\') (hlow : ¬c.toNat < 32)
    {rest after : List Char} {units : List Glyph}
    (h : readUnits? rest = some (units, after)) :
    readUnits? (c :: rest) = some (.char c :: units, after) := by
  unfold readUnits?
  split
  · rename_i heq; cases heq
  · rename_i heq; cases heq; exact absurd rfl hquote
  · rename_i heq; cases heq; exact absurd rfl hback
  · rename_i heq; cases heq; exact absurd rfl hback
  · rename_i heq
    cases heq
    rw [if_neg (by simp [hlow, hback]), h]

/-- An escaped character is read as one glyph that stands for it. -/
theorem readUnits?_escape (c : Char) : ∃ glyph : Glyph, glyph.Denotes c ∧
    ∀ (rest after : List Char) (units : List Glyph), readUnits? rest = some (units, after) →
      readUnits? (escape c ++ rest) = some (glyph :: units, after) := by
  unfold escape
  -- seven characters have an escape of one letter
  iterate 7
    split
    · rename_i h; subst h
      exact ⟨_, Or.inl rfl, fun _ _ _ h => readUnits?_unescape (by decide) (by decide) h⟩
  split
  · rename_i h
    exact ⟨_, Or.inr ⟨rfl, h⟩, fun _ _ _ hrest => readUnits?_control h hrest⟩
  · rename_i hquote hback _ _ _ _ _ hlow
    exact ⟨_, Or.inl rfl, fun _ _ _ h => readUnits?_plain hquote hback hlow h⟩

/-- A quoted text is read back. -/
theorem readQuoted?_escape (cs rest : List Char) :
    readQuoted? (cs.flatMap escape ++ '"' :: rest) = some (some (String.ofList cs), rest) := by
  have key : ∃ units, readUnits? (cs.flatMap escape ++ '"' :: rest) = some (units, rest) ∧
      joinUnits none units = some cs := by
    induction cs with
    | nil => exact ⟨[], rfl, rfl⟩
    | cons c cs ih =>
      obtain ⟨units, hread, hjoin⟩ := ih
      obtain ⟨glyph, hdenotes, hescape⟩ := readUnits?_escape c
      refine ⟨glyph :: units, ?_, ?_⟩
      · rw [List.flatMap_cons, List.append_assoc]
        exact hescape _ _ _ hread
      · rw [joinUnits_cons hdenotes, hjoin]
        rfl
  obtain ⟨units, hread, hjoin⟩ := key
  unfold readQuoted?
  rw [hread]
  show some ((joinUnits none units).map String.ofList, rest) = _
  rw [hjoin, Option.map_some]

/-- A text or key in quotes is read back; one that is no text, as that. -/
theorem readQuoted?_quoteChars (text : Option String) (rest : List Char) :
    ∃ cs, Tree.quoteChars text = '"' :: cs ∧ readQuoted? (cs ++ rest) = some (text, rest) := by
  cases text with
  | some s =>
    refine ⟨_, rfl, ?_⟩
    rw [List.append_assoc, List.singleton_append, readQuoted?_escape, String.ofList_toList]
  | none => exact ⟨_, rfl, rfl⟩

end Json

end Newsletter
