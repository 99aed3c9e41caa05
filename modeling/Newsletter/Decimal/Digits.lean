/-
Decimal digits, most significant first. Main statements: the digits of a number denote it, and a
digit's character reads back as that digit.
-/

namespace Newsletter

/-! ## Digits -/

/-- A decimal digit. -/
abbrev Digit := Fin 10

namespace Digit

def zero : Digit := ⟨0, by decide⟩

/-- The character `0` to `9` of a digit. -/
def char (d : Digit) : Char := Char.ofNat (48 + d.val)

/-- The digit a character stands for. -/
def ofChar? (c : Char) : Option Digit :=
  if h : 48 ≤ c.toNat ∧ c.toNat ≤ 57 then some ⟨c.toNat - 48, by omega⟩ else none

theorem ofChar?_char (d : Digit) : ofChar? d.char = some d := by
  revert d; decide

theorem char_injective {d e : Digit} (h : d.char = e.char) : d = e := by
  have := congrArg ofChar? h
  rw [ofChar?_char, ofChar?_char] at this
  exact Option.some.inj this

end Digit

namespace Digits

/-- The number that a list of digits denotes. -/
def toNat (ds : List Digit) : Nat := ds.foldl (fun n d => 10 * n + d.val) 0

/-- The digits of a number, without leading zeros; zero is a single `0`. -/
def ofNat (n : Nat) : List Digit :=
  if h : n < 10 then [⟨n, h⟩] else ofNat (n / 10) ++ [⟨n % 10, Nat.mod_lt n (by decide)⟩]
termination_by n

/-- The last `count` digits of a number, with zeros in front where it has fewer. -/
def places (count n : Nat) : List Digit :=
  match count with
  | 0 => []
  | count + 1 => places count (n / 10) ++ [⟨n % 10, Nat.mod_lt n (by decide)⟩]

/-- The digits of a number, with zeros in front up to `width`. -/
def padded (width n : Nat) : List Digit :=
  if n < Nat.pow 10 width then places width n else ofNat n

/-- The characters of digits. -/
def chars (ds : List Digit) : List Char := ds.map Digit.char

/-- The leading digits of a character list, and what follows them. -/
def take : List Char → List Digit × List Char
  | [] => ([], [])
  | c :: rest =>
    match Digit.ofChar? c with
    | none => ([], c :: rest)
    | some d => (d :: (take rest).1, (take rest).2)

theorem toNat_append_singleton (ds : List Digit) (d : Digit) :
    toNat (ds ++ [d]) = 10 * toNat ds + d.val := by
  simp [toNat, List.foldl_append]

/-- The digits of a number denote it. -/
theorem toNat_ofNat (n : Nat) : toNat (ofNat n) = n := by
  fun_induction ofNat n with
  | case1 n h => simp [toNat]
  | case2 n h ih => rw [toNat_append_singleton, ih]; show 10 * (n / 10) + n % 10 = n; omega

theorem length_places (count n : Nat) : (places count n).length = count := by
  induction count generalizing n with
  | zero => rfl
  | succ count ih => simp [places, ih]

/-- A number of at most `count` digits is denoted by its last `count` digits. -/
theorem toNat_places {count n : Nat} (h : n < Nat.pow 10 count) : toNat (places count n) = n := by
  induction count generalizing n with
  | zero =>
    have h0 : n = 0 := Nat.lt_one_iff.mp h
    subst h0; rfl
  | succ count ih =>
    have hdiv : n / 10 < Nat.pow 10 count := Nat.div_lt_of_lt_mul (by
      rw [Nat.mul_comm]; exact h)
    rw [places, toNat_append_singleton, ih hdiv]
    show 10 * (n / 10) + n % 10 = n
    omega

theorem toNat_padded (width n : Nat) : toNat (padded width n) = n := by
  unfold padded
  split
  · rename_i h; exact toNat_places h
  · exact toNat_ofNat n

theorem chars_injective {ds es : List Digit} (h : chars ds = chars es) : ds = es :=
  (List.map_inj_right fun _ _ => Digit.char_injective).1 h

theorem ofNat_ne_nil (n : Nat) : ofNat n ≠ [] := by
  rw [ofNat]; split <;> simp

theorem places_ne_nil {count : Nat} (h : count ≠ 0) (n : Nat) : places count n ≠ [] := by
  intro heq
  have hlength := length_places count n
  rw [heq] at hlength
  exact h hlength.symm

theorem padded_ne_nil {width : Nat} (h : width ≠ 0) (n : Nat) : padded width n ≠ [] := by
  unfold padded
  split
  · exact places_ne_nil h n
  · exact ofNat_ne_nil n

/-- Digits are read up to the first other character. -/
theorem take_chars_append (ds : List Digit) (rest : List Char)
    (h : ∀ c ∈ rest.head?, Digit.ofChar? c = none) : take (chars ds ++ rest) = (ds, rest) := by
  induction ds with
  | nil =>
    cases rest with
    | nil => simp [chars, take]
    | cons c cs => simp [chars, take, h c (by simp)]
  | cons d ds ih =>
    simp only [chars, List.map_cons, List.cons_append, take, Digit.ofChar?_char]
    simp only [chars] at ih
    rw [ih]

end Digits

/-! ## Decimal magnitudes -/

/-- The magnitude `digits · 10 ^ exponent`. -/
structure Decimal where
  digits : Nat
  exponent : Int
  deriving DecidableEq, Repr

namespace Decimal

/-- The magnitude as numerator and denominator. -/
def ratio (d : Decimal) : Nat × Nat :=
  (d.digits * Nat.pow 10 d.exponent.toNat, Nat.pow 10 (-d.exponent).toNat)

/-- The number of places before the decimal point: the magnitude is `0.d₁d₂… · 10 ^ point`. -/
def point (d : Decimal) : Int := (Digits.ofNat d.digits).length + d.exponent

/-- The same magnitude with trailing zeros of the digits moved into the exponent. -/
def strip (d : Decimal) : Decimal :=
  if d.digits = 0 then ⟨0, 0⟩
  else if d.digits % 10 = 0 then strip ⟨d.digits / 10, d.exponent + 1⟩
  else d
termination_by d.digits
decreasing_by omega

end Decimal

end Newsletter
