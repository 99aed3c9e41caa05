/-
The shortest decimal that reads back as a given binary number. For one digit, two digits and so on
the two neighbours of the value on the grid of that many digits are tried; the first grid with a
neighbour that rounds to the value wins, and of two such neighbours the nearer one. Main
statement: a neighbour that the search accepts rounds to the value.
-/
import Newsletter.Decimal.Digits
import Newsletter.Binary.Basic

namespace Newsletter

/-- Which of two equally near decimals is taken. -/
inductive Tie where
  | toEven
  | up
  deriving DecidableEq, Repr

namespace Binary

variable {f : Format}

/-- The decimal's nearest number, with the sign given, is `x` itself. -/
def ReadsBack (x : Binary f) (d : Decimal) : Prop :=
  nearest? x.negative d.ratio.1 d.ratio.2 = some x

instance (x : Binary f) (d : Decimal) : Decidable (x.ReadsBack d) :=
  inferInstanceAs (Decidable (_ = _))

/-- The magnitude written out in full. -/
def expansion (x : Binary f) : Decimal :=
  if 0 ≤ x.exponent then ⟨x.mantissa * Nat.pow 2 x.exponent.toNat, 0⟩
  else ⟨x.mantissa * Nat.pow 5 (-x.exponent).toNat, x.exponent⟩

/-- The magnitude divided by `10 ^ e`, rounded down, with the remainder and the divisor. -/
def onGrid (x : Binary f) (e : Int) : Nat × Nat × Nat :=
  let num := x.ratio.1 * Nat.pow 10 (-e).toNat
  let den := x.ratio.2 * Nat.pow 10 e.toNat
  (num / den, num % den, den)

/-- The neighbours of `x` on the grid `10 ^ e`, the nearer one first. -/
def neighbours (tie : Tie) (x : Binary f) (e : Int) : List Decimal :=
  let (q, r, den) := x.onGrid e
  let upperFirst : Bool := match tie with
    | .toEven => den < 2 * r || (den == 2 * r && q % 2 == 1)
    | .up => den ≤ 2 * r
  if upperFirst then [⟨q + 1, e⟩, ⟨q, e⟩] else [⟨q, e⟩, ⟨q + 1, e⟩]

/-- The nearest neighbour on the grid `10 ^ e` that reads back as `x`. -/
def neighbour? (tie : Tie) (x : Binary f) (e : Int) : Option Decimal :=
  (neighbours tie x e).find? fun d => decide (x.ReadsBack d)

/-- The shortest decimal that reads back as `x`, without trailing zeros. -/
def shortest (tie : Tie) (x : Binary f) : Decimal :=
  let order := x.expansion.point
  let found := (List.range 17).findSome? fun (n : Nat) => neighbour? tie x (order - n - 1)
  (found.getD x.expansion).strip

theorem readsBack_of_neighbour? {tie : Tie} {x : Binary f} {e : Int} {d : Decimal}
    (h : neighbour? tie x e = some d) : x.ReadsBack d := by
  simpa using List.find?_some h

end Binary

end Newsletter
