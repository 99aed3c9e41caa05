/-
Numbers of JSON values: integers of 64 bits, exactly, and floating-point numbers for all others.
-/
import Newsletter.Binary.Layout
import Newsletter.Decimal.Numeral

namespace Newsletter.Json

/-! ## Numbers -/

/-- An integer that fits a signed or an unsigned word of 64 bits. -/
structure Integer where
  value : Int
  least : -0x8000000000000000 ≤ value
  below : value < 0x10000000000000000
  deriving DecidableEq, Repr

/-- A finite number of 64 bits. -/
abbrev Double := Binary Format.double

/-- A number of a JSON value. -/
inductive Number where
  | integer (n : Integer)
  | float (x : Double)
  deriving DecidableEq

namespace Number

/-- A natural number of at most 64 bits. -/
def ofNat (n : Nat) (below : n < 0x10000000000000000 := by decide) : Number :=
  .integer ⟨n, by omega, by omega⟩

def isZero : Number → Bool
  | .integer n => n.value == 0
  | .float x => x.isZero

/-! ## Writing -/

/-- Floating-point numbers of JSON are positional from `0.00001` up to sixteen digits before the
point, with at least one digit behind it; zero keeps its sign; of two equally near decimals the
even one is taken. -/
def layout : Layout :=
  { leastPoint := -4, greatestPoint := 16, keepsPoint := true, signsZero := true, tie := .toEven }

/-- The numeral of an integer. -/
def integerNumeral (n : Int) : Numeral :=
  { negative := decide (n < 0), whole := n.natAbs, fraction := [], exponent := none }

/-- The numeral of a number. -/
def toNumeral : Number → Numeral
  | .integer n => integerNumeral n.value
  | .float x => layout.numeral x

/-! ## Reading -/

/-- The double nearest to a decimal; `none` beyond the largest one. Magnitudes of more than 400
places before or behind the point are beyond every double or round to zero. -/
def nearestDouble? (negative : Bool) (d : Decimal) : Option Double :=
  if d.digits = 0 then some (Binary.zero negative)
  else if 400 < d.point then none
  else if d.point < -400 then some (Binary.zero negative)
  else Binary.nearest? negative d.ratio.1 d.ratio.2

/-- The integer that a numeral spells, when it is one: no fraction, no exponent, in range, and not
a zero with a sign. -/
def integer? (n : Numeral) : Option Integer :=
  let value : Int := if n.negative then -n.whole else n.whole
  if h : n.fraction = [] ∧ n.exponent = none ∧ ¬(n.negative ∧ n.whole = 0) ∧
      -0x8000000000000000 ≤ value ∧ value < 0x10000000000000000 then
    some ⟨value, h.2.2.2.1, h.2.2.2.2⟩
  else none

/-- The number that a numeral stands for: the integer it spells, else the nearest double. -/
def ofNumeral? (n : Numeral) : Option Number :=
  match integer? n with
  | some i => some (.integer i)
  | none => (nearestDouble? n.negative n.magnitude).map .float

end Number

end Newsletter.Json
