/-
Decimal numerals as they stand in a text: sign, whole part, fraction and exponent. A numeral is
written with the fewest characters for its parts and a sign on every exponent; reading also takes
capital exponent marks and exponents without a sign.
-/
import Newsletter.Decimal.Digits

namespace Newsletter

/-- A decimal numeral. An empty fraction stands for a numeral without a decimal point. -/
structure Numeral where
  negative : Bool
  whole : Nat
  fraction : List Digit
  exponent : Option Int
  deriving DecidableEq, Repr

namespace Numeral

/-- The magnitude that a numeral denotes. -/
def magnitude (n : Numeral) : Decimal :=
  ⟨n.whole * Nat.pow 10 n.fraction.length + Digits.toNat n.fraction,
   n.exponent.getD 0 - n.fraction.length⟩

/-! ## Writing -/

/-- The decimal point and the fraction behind it, if there is one. -/
def fractionChars (fraction : List Digit) : List Char :=
  if fraction.isEmpty then [] else '.' :: Digits.chars fraction

/-- The exponent with its sign, if there is one. -/
def exponentChars : Option Int → List Char
  | none => []
  | some e =>
    'e' :: (if e < 0 then '-' else '+') :: Digits.chars (Digits.ofNat e.natAbs)

/-- The text of a numeral. -/
def chars (n : Numeral) : List Char :=
  (if n.negative then ['-'] else []) ++ Digits.chars (Digits.ofNat n.whole) ++
    fractionChars n.fraction ++ exponentChars n.exponent

/-! ## Reading -/

/-- A minus sign in front, if there is one. -/
def readSign : List Char → Bool × List Char
  | '-' :: rest => (true, rest)
  | rest => (false, rest)

/-- The whole part: digits, of which only a single one may start with `0`. -/
def readWhole (cs : List Char) : Option (Nat × List Char) :=
  match Digits.take cs with
  | ([], _) => none
  | (d :: ds, rest) => if d = .zero ∧ ds ≠ [] then none else some (Digits.toNat (d :: ds), rest)

/-- A point has at least one digit behind it. -/
def readFraction : List Char → Option (List Digit × List Char)
  | '.' :: rest =>
    match Digits.take rest with
    | ([], _) => none
    | found => some found
  | rest => some ([], rest)

/-- The digits of an exponent, of which there is at least one. -/
def readExponentDigits (negative : Bool) (cs : List Char) : Option (Option Int × List Char) :=
  match Digits.take cs with
  | ([], _) => none
  | (ds, rest) =>
    let n : Int := Digits.toNat ds
    some (some (if negative then -n else n), rest)

/-- An exponent starts with `e` or `E` and may carry a sign. -/
def readExponent : List Char → Option (Option Int × List Char)
  | c :: rest =>
    if c = 'e' ∨ c = 'E' then
      match rest with
      | '+' :: rest => readExponentDigits false rest
      | '-' :: rest => readExponentDigits true rest
      | rest => readExponentDigits false rest
    else some (none, c :: rest)
  | [] => some (none, [])

/-- The numeral at the front of a text, and what follows it. -/
def read? (cs : List Char) : Option (Numeral × List Char) := do
  let (negative, cs) := readSign cs
  let (whole, cs) ← readWhole cs
  let (fraction, cs) ← readFraction cs
  let (exponent, cs) ← readExponent cs
  return ({ negative, whole, fraction, exponent }, cs)

end Numeral

end Newsletter
