/-
Base64. Main statements: reading accepts exactly what writing produces, so no two texts stand for the
same bytes; and a text is what writing produces exactly if, over the standard alphabet, it spells to
the base 64 the number that the bytes spell to the base 256, with zero bits behind it that fill the
last digit and padding that fills the last four characters.
-/
import Newsletter.Bytes.Base64
import Mathlib.Data.Nat.Digits.Lemmas
import Mathlib.Tactic.Ring

namespace Newsletter.Base64

/-! ## The alphabet -/

/-- The characters of the digits, each at the place of its number. -/
def alphabet : List Char :=
  "ABCDEFGHIJKLMNOPQRSTUVWXYZabcdefghijklmnopqrstuvwxyz0123456789+/".toList

theorem alphabet_char {n : ℕ} (h : n < 64) : alphabet[n]? = some (char n) := by
  have hall : ∀ n : Fin 64, alphabet[n.val]? = some (char n) := by decide +kernel
  exact hall ⟨n, h⟩

theorem lt_of_alphabet {n : ℕ} {c : Char} (h : alphabet[n]? = some c) : n < 64 :=
  (List.getElem?_eq_some_iff.1 h).1

theorem value?_char {n : ℕ} (h : n < 64) : value? (char n) = some n := by
  have hall : ∀ n : Fin 64, value? (char n) = some n.val := by decide
  exact hall ⟨n, h⟩

theorem char_ne_padding {n : ℕ} (h : n < 64) : char n ≠ '=' := by
  have hall : ∀ n : Fin 64, char n ≠ '=' := by decide
  exact hall ⟨n, h⟩

/-- Only the character of a number has that number. -/
theorem char_of_value? {c : Char} {n : ℕ} (h : value? c = some n) : n < 64 ∧ char n = c := by
  have hchar := Char.ofNat_toNat c
  unfold value? at h
  dsimp only at h
  unfold char
  split at h
  · obtain rfl := Option.some.inj h
    rw [if_pos (by omega), Nat.add_sub_cancel' (by omega)]
    exact ⟨by omega, hchar⟩
  · split at h
    · obtain rfl := Option.some.inj h
      rw [if_neg (by omega), if_pos (by omega), Nat.add_sub_cancel' (by omega)]
      exact ⟨by omega, hchar⟩
    · split at h
      · obtain rfl := Option.some.inj h
        rw [if_neg (by omega), if_neg (by omega), if_pos (by omega), Nat.add_sub_cancel]
        exact ⟨by omega, hchar⟩
      · split at h
        · rename_i hplus
          cases h
          exact ⟨by decide, hplus.symm⟩
        · split at h
          · rename_i hslash
            cases h
            exact ⟨by decide, hslash.symm⟩
          · cases h

/-! ## Reading what was written -/

theorem toByte_toNat {n : ℕ} {b : UInt8} (h : n = b.toNat) : UInt8.ofNat n = b := by
  rw [h, UInt8.ofNat_toNat]

/-- Bytes are read back from their characters. -/
theorem decodeChars?_encodeChars (bytes : Bytes) : decodeChars? (encodeChars bytes) = some bytes := by
  induction bytes using encodeChars.induct with
  | case1 => rfl
  | case2 a =>
    have ha := a.toNat_lt
    rw [encodeChars, decodeChars?, value?_char (by omega), value?_char (by omega)]
    simp only [Option.bind_eq_bind, Option.bind_some]
    rw [if_pos (by omega), toByte_toNat (b := a) (by omega)]
  | case3 a b =>
    have ha := a.toNat_lt
    have hb := b.toNat_lt
    rw [encodeChars, decodeChars?, value?_char (by omega), value?_char (by omega),
      value?_char (by omega)]
    · simp only [Option.bind_eq_bind, Option.bind_some]
      rw [if_pos (by omega), toByte_toNat (b := a) (by omega), toByte_toNat (b := b) (by omega)]
    · exact char_ne_padding (by omega)
  | case4 a b c rest ih =>
    have ha := a.toNat_lt
    have hb := b.toNat_lt
    have hc := c.toNat_lt
    rw [encodeChars, decodeChars?, value?_char (by omega), value?_char (by omega),
      value?_char (by omega), value?_char (by omega), ih]
    · simp only [Option.bind_eq_bind, Option.bind_some, Option.pure_def]
      rw [toByte_toNat (b := a) (by omega), toByte_toNat (b := b) (by omega),
        toByte_toNat (b := c) (by omega)]
    · exact fun hpadding => absurd hpadding (char_ne_padding (by omega))
    · exact fun hpadding => absurd hpadding (char_ne_padding (by omega))

/-! ## Writing what was read -/

theorem toNat_toByte {n : ℕ} (h : n < 256) : (UInt8.ofNat n).toNat = n := by
  rw [UInt8.toNat_ofNat', Nat.mod_eq_of_lt h]

/-- Whatever is read is written in the same way again. -/
theorem encodeChars_of_decodeChars? {chars : List Char} {bytes : Bytes}
    (h : decodeChars? chars = some bytes) : encodeChars bytes = chars := by
  induction chars using decodeChars?.induct generalizing bytes with
  | case1 => cases h; rfl
  | case2 a b =>
    simp only [decodeChars?, Option.bind_eq_bind, Option.bind_eq_some_iff,
      Option.ite_none_right_eq_some, Option.some.injEq] at h
    obtain ⟨x, hx, y, hy, hzero, rfl⟩ := h
    obtain ⟨hx, rfl⟩ := char_of_value? hx
    obtain ⟨hy, rfl⟩ := char_of_value? hy
    -- the bits behind the byte are zero, so the byte has all of the group
    have hn : (x * 64 + y) / 16 * 16 = x * 64 + y := by omega
    have hdigits : (x * 64 + y) / 64 = x ∧ (x * 64 + y) % 64 = y := by omega
    simp only [encodeChars]
    rw [toNat_toByte (by omega), hn, hdigits.1, hdigits.2]
  | case3 a b c hc =>
    simp only [decodeChars?.eq_3 a b c hc, Option.bind_eq_bind, Option.bind_eq_some_iff,
      Option.ite_none_right_eq_some, Option.some.injEq] at h
    obtain ⟨x, hx, y, hy, z, hz, hzero, rfl⟩ := h
    obtain ⟨hx, rfl⟩ := char_of_value? hx
    obtain ⟨hy, rfl⟩ := char_of_value? hy
    obtain ⟨hz, rfl⟩ := char_of_value? hz
    generalize hgroup : (x * 64 + y) * 64 + z = n at hzero ⊢
    have hn : (n / 1024 * 256 + n / 4 % 256) * 4 = n := by omega
    have hdigits : n / 4096 = x ∧ n / 64 % 64 = y ∧ n % 64 = z := by omega
    simp only [encodeChars]
    rw [toNat_toByte (by omega), toNat_toByte (by omega), hn, hdigits.1, hdigits.2.1, hdigits.2.2]
  | case4 a b c d rest hpair hone ih =>
    simp only [decodeChars?.eq_4 a b c d rest hpair hone, Option.bind_eq_bind,
      Option.bind_eq_some_iff, Option.pure_def, Option.some.injEq] at h
    obtain ⟨x, hx, y, hy, z, hz, w, hw, bytes, hbytes, rfl⟩ := h
    obtain ⟨hx, rfl⟩ := char_of_value? hx
    obtain ⟨hy, rfl⟩ := char_of_value? hy
    obtain ⟨hz, rfl⟩ := char_of_value? hz
    obtain ⟨hw, rfl⟩ := char_of_value? hw
    generalize hgroup : ((x * 64 + y) * 64 + z) * 64 + w = n
    have hn : (n / 65536 * 256 + n / 256 % 256) * 256 + n % 256 = n := by omega
    have hdigits : n / 262144 = x ∧ n / 4096 % 64 = y ∧ n / 64 % 64 = z ∧ n % 64 = w := by omega
    simp only [encodeChars]
    rw [toNat_toByte (by omega), toNat_toByte (by omega), toNat_toByte (by omega), hn, ih hbytes,
      hdigits.1, hdigits.2.1, hdigits.2.2.1, hdigits.2.2.2]
  | case5 chars h₁ h₂ h₃ h₄ =>
    rw [decodeChars?.eq_5 chars h₁ h₂ h₃ h₄] at h
    cases h

theorem decode?_eq_some_iff {text : String} {bytes : Bytes} :
    decode? text = some bytes ↔ text = encode bytes := by
  unfold decode? encode
  constructor
  · intro h
    rw [encodeChars_of_decodeChars? h, String.ofList_toList]
  · rintro rfl
    rw [String.toList_ofList, decodeChars?_encodeChars]

/-! ## What is written -/

/-- The number that digits spell to a base, the first digit weighing most. -/
def number (base : ℕ) (digits : List ℕ) : ℕ := Nat.ofDigits base digits.reverse

theorem number_append (base : ℕ) (first second : List ℕ) : number base (first ++ second) =
    number base first * base ^ second.length + number base second := by
  unfold number
  rw [List.reverse_append, Nat.ofDigits_append, List.length_reverse]
  ring

theorem number_nil (base : ℕ) : number base [] = 0 := rfl

theorem number_cons (base digit : ℕ) (digits : List ℕ) :
    number base (digit :: digits) = digit * base ^ digits.length + number base digits := by
  have hdigit : number base [digit] = digit := by
    rw [number, List.reverse_singleton, Nat.ofDigits_singleton]
  rw [← List.singleton_append, number_append, hdigit]

/-- Characters in groups of four that stand for bytes: digits of six bits and then padding. The
digits have the bits of the bytes, and behind them two zero bits for each character of padding. -/
structure Groups (chars : List Char) (digits : List ℕ) (padding : ℕ) (bytes : Bytes) : Prop where
  spelled : chars.map some = digits.map (alphabet[·]?) ++ List.replicate padding (some '=')
  full : 4 ∣ digits.length + padding
  few : padding ≤ 2
  bits : 6 * digits.length = 8 * bytes.length + 2 * padding
  value : number 64 digits = number 256 (bytes.map (·.toNat)) * 4 ^ padding

/-- A group that is full stands in front of other groups. -/
theorem Groups.cons {chars : List Char} {digits : List ℕ} {padding : ℕ} {rest : Bytes}
    (h : Groups chars digits padding rest) (a b c : UInt8) :
    let n := (a.toNat * 256 + b.toNat) * 256 + c.toNat
    Groups (char (n / 262144) :: char (n / 4096 % 64) :: char (n / 64 % 64) :: char (n % 64) :: chars)
      ([n / 262144, n / 4096 % 64, n / 64 % 64, n % 64] ++ digits) padding (a :: b :: c :: rest) := by
  intro n
  have ha := a.toNat_lt
  have hb := b.toNat_lt
  have hc := c.toNat_lt
  have hbits := h.bits
  have hfront : number 64 [n / 262144, n / 4096 % 64, n / 64 % 64, n % 64] = n := by
    simp only [number_cons, number_nil, List.length_cons, List.length_nil]
    omega
  have hbytes : number 256 [a.toNat, b.toNat, c.toNat] = n := by
    simp only [number_cons, number_nil, List.length_cons, List.length_nil]
    omega
  -- as many bits follow the group as follow the three bytes
  have hbehind : 64 ^ digits.length = 256 ^ rest.length * 4 ^ padding := by
    rw [show 64 = 2 ^ 6 by rfl, show 256 = 2 ^ 8 by rfl, show 4 = 2 ^ 2 by rfl, ← pow_mul, ← pow_mul,
      ← pow_mul, ← pow_add, hbits]
  refine ⟨?_, ?_, h.few, ?_, ?_⟩
  · simp only [List.map_cons, List.cons_append, List.nil_append, h.spelled]
    rw [alphabet_char (by omega), alphabet_char (by omega), alphabet_char (by omega),
      alphabet_char (by omega)]
  · have hgroups := h.full
    simp only [List.length_append, List.length_cons, List.length_nil]
    omega
  · simp only [List.length_append, List.length_cons, List.length_nil]
    omega
  · have happend : (a :: b :: c :: rest).map (·.toNat) =
        [a.toNat, b.toNat, c.toNat] ++ rest.map (·.toNat) := rfl
    rw [happend, number_append, number_append, hfront, hbytes, h.value, List.length_map, hbehind]
    ring

theorem exists_groups_encodeChars (bytes : Bytes) :
    ∃ digits padding, Groups (encodeChars bytes) digits padding bytes := by
  induction bytes using encodeChars.induct with
  | case1 => exact ⟨[], 0, rfl, by decide, by decide, rfl, rfl⟩
  | case2 a =>
    have ha := a.toNat_lt
    refine ⟨[a.toNat * 16 / 64, a.toNat * 16 % 64], 2, ?_, ⟨1, rfl⟩, by decide, rfl, ?_⟩
    · simp only [encodeChars, List.map_cons, List.map_nil]
      rw [alphabet_char (by omega), alphabet_char (by omega)]
      rfl
    · simp only [List.map_cons, List.map_nil, number_cons, number_nil, List.length_cons,
        List.length_nil]
      omega
  | case3 a b =>
    have ha := a.toNat_lt
    have hb := b.toNat_lt
    generalize hn : (a.toNat * 256 + b.toNat) * 4 = n
    refine ⟨[n / 4096, n / 64 % 64, n % 64], 1, ?_, ⟨1, rfl⟩, by decide, rfl, ?_⟩
    · simp only [encodeChars, List.map_cons, List.map_nil, hn]
      rw [alphabet_char (by omega), alphabet_char (by omega), alphabet_char (by omega)]
      rfl
    · simp only [List.map_cons, List.map_nil, number_cons, number_nil, List.length_cons,
        List.length_nil]
      omega
  | case4 a b c rest ih =>
    obtain ⟨digits, padding, h⟩ := ih
    exact ⟨_, padding, h.cons a b c⟩

/-- The digits are below 64, for the alphabet has no more characters. -/
theorem Groups.lt {chars : List Char} {digits : List ℕ} {padding : ℕ} {bytes : Bytes}
    (h : Groups chars digits padding bytes) : ∀ digit ∈ digits, digit < 64 := by
  intro digit hdigit
  have hmem : alphabet[digit]? ∈ chars.map some := by
    rw [h.spelled]
    exact List.mem_append_left _ (List.mem_map_of_mem hdigit)
  obtain ⟨c, -, hc⟩ := List.mem_map.1 hmem
  exact lt_of_alphabet hc.symm

/-- Only one text stands for given bytes. -/
theorem Groups.unique {chars others : List Char} {digits found : List ℕ} {padding count : ℕ}
    {bytes : Bytes} (h : Groups chars digits padding bytes) (h' : Groups others found count bytes) :
    chars = others := by
  have hcounts : padding = count ∧ digits.length = found.length := by
    have hbits := h.bits
    have hbits' := h'.bits
    have hgroups := h.full
    have hgroups' := h'.full
    have hpadding := h.few
    have hpadding' := h'.few
    omega
  obtain ⟨rfl, hlength⟩ := hcounts
  have hnumber : number 64 digits = number 64 found := h.value.trans h'.value.symm
  have hreverse : digits.reverse = found.reverse := by
    refine Nat.ofDigits_inj_of_len_eq (by decide) (by simpa using hlength) ?_ ?_ hnumber
    · exact fun digit hdigit => h.lt digit (List.mem_reverse.1 hdigit)
    · exact fun digit hdigit => h'.lt digit (List.mem_reverse.1 hdigit)
  obtain rfl := List.reverse_injective hreverse
  have hchars : chars.map some = others.map some := h.spelled.trans h'.spelled.symm
  exact List.map_injective_iff.2 (Option.some_injective Char) hchars

/-- A text that is the standard Base64 form of bytes. -/
def Writes (text : String) (bytes : Bytes) : Prop :=
  ∃ digits padding, Groups text.toList digits padding bytes

theorem writes_iff {text : String} {bytes : Bytes} : Writes text bytes ↔ text = encode bytes := by
  obtain ⟨digits, padding, hencoded⟩ := exists_groups_encodeChars bytes
  constructor
  · rintro ⟨found, count, h⟩
    rw [encode, ← h.unique hencoded, String.ofList_toList]
  · rintro rfl
    unfold Writes encode
    rw [String.toList_ofList]
    exact ⟨digits, padding, hencoded⟩

end Newsletter.Base64
