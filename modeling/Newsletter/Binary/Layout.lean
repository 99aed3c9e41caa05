/-
How a binary number is laid out as a decimal numeral: its shortest digits, positionally within a
range of magnitudes and with an exponent outside it.
-/
import Newsletter.Decimal.Numeral
import Newsletter.Binary.Shortest

namespace Newsletter

/-- The choices a notation for binary numbers makes. A magnitude is `0.d₁d₂… · 10 ^ point`. -/
structure Layout where
  /-- The least `point` that is written positionally. -/
  leastPoint : Int
  /-- The greatest `point` that is written positionally. -/
  greatestPoint : Int
  /-- Whether a positional integer ends in `.0`. -/
  keepsPoint : Bool
  /-- Whether a negative zero keeps its sign. -/
  signsZero : Bool
  /-- The choice between two equally near decimals. -/
  tie : Tie
  deriving DecidableEq, Repr

namespace Layout

variable {f : Format}

/-- Digits without any exponent. -/
def positional (l : Layout) (negative : Bool) (d : Decimal) : Numeral :=
  if 0 ≤ d.exponent then
    { negative, whole := d.digits * Nat.pow 10 d.exponent.toNat,
      fraction := if l.keepsPoint then [.zero] else [], exponent := none }
  else
    let count := (-d.exponent).toNat
    { negative, whole := d.digits / Nat.pow 10 count,
      fraction := Digits.places count (d.digits % Nat.pow 10 count), exponent := none }

/-- One digit before the point, the others behind it, and an exponent. -/
def scientific (negative : Bool) (d : Decimal) : Numeral :=
  let count := (Digits.ofNat d.digits).length - 1
  { negative, whole := d.digits / Nat.pow 10 count,
    fraction := Digits.places count (d.digits % Nat.pow 10 count), exponent := some (d.point - 1) }

/-- The numeral of a binary number. -/
def numeral (l : Layout) (x : Binary f) : Numeral :=
  if x.isZero then
    { negative := l.signsZero && x.negative, whole := 0,
      fraction := if l.keepsPoint then [.zero] else [], exponent := none }
  else
    let d := x.shortest l.tie
    if l.leastPoint ≤ d.point ∧ d.point ≤ l.greatestPoint then l.positional x.negative d
    else scientific x.negative d

end Layout

end Newsletter
