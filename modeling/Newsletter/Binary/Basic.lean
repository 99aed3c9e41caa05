/-
Binary floating-point numbers of a fixed format, and rounding to them. A finite number is a sign
and a magnitude `mantissa · 2 ^ exponent` in the one normal form its format allows, so equal
values are equal data, except that zero keeps its sign.
-/

namespace Newsletter

/-! ## Formats -/

/-- A format: the bits of a mantissa, and the exponents of its last bit. -/
structure Format where
  precision : Nat
  lowest : Int
  highest : Int
  precision_pos : 0 < precision := by decide
  lowest_le_highest : lowest ≤ highest := by decide
  deriving DecidableEq

/-- The 64-bit format. -/
def Format.double : Format := { precision := 53, lowest := -1074, highest := 971 }

/-- The 32-bit format. -/
def Format.single : Format := { precision := 24, lowest := -149, highest := 104 }

/-! ## Finite numbers -/

/-- A finite number of a format. -/
structure Binary (f : Format) where
  negative : Bool
  mantissa : Nat
  exponent : Int
  mantissa_lt : mantissa < Nat.pow 2 f.precision
  lowest_le : f.lowest ≤ exponent
  le_highest : exponent ≤ f.highest
  normal : exponent = f.lowest ∨ Nat.pow 2 (f.precision - 1) ≤ mantissa
  deriving DecidableEq

namespace Binary

variable {f : Format}

/-- Zero with a sign. -/
def zero (negative : Bool) : Binary f :=
  { negative, mantissa := 0, exponent := f.lowest, mantissa_lt := Nat.two_pow_pos _,
    lowest_le := Int.le_refl _, le_highest := f.lowest_le_highest, normal := Or.inl rfl }

instance : Inhabited (Binary f) := ⟨zero false⟩

def isZero (x : Binary f) : Bool := x.mantissa == 0

/-- The magnitude as numerator and denominator. -/
def ratio (x : Binary f) : Nat × Nat :=
  (x.mantissa * Nat.pow 2 x.exponent.toNat, Nat.pow 2 (-x.exponent).toNat)

/-- The number with the given parts, when they are in normal form. -/
def ofParts? (negative : Bool) (mantissa : Nat) (exponent : Int) : Option (Binary f) :=
  if h : mantissa < Nat.pow 2 f.precision ∧ f.lowest ≤ exponent ∧ exponent ≤ f.highest ∧
      (exponent = f.lowest ∨ Nat.pow 2 (f.precision - 1) ≤ mantissa) then
    some { negative, mantissa, exponent, mantissa_lt := h.1, lowest_le := h.2.1,
           le_highest := h.2.2.1, normal := h.2.2.2 }
  else none

/-! ## Rounding -/

/-- The integer nearest to `num / den`; halfway cases go to the even neighbour. -/
def roundQuotient (num den : Nat) : Nat :=
  let q := num / den
  let r := num % den
  if 2 * r < den then q
  else if den < 2 * r then q + 1
  else q + q % 2

/-- The fraction `num / den`, divided by `2 ^ e`. -/
def descale (num den : Nat) (e : Int) : Nat × Nat :=
  (num * Nat.pow 2 (-e).toNat, den * Nat.pow 2 e.toNat)

/-- The exponent of the grid that `num / den` is rounded on: the finest one on which its mantissa
fits, but none finer than the format's finest, on which zero lies. -/
def gridExponent (f : Format) (num den : Nat) : Int :=
  if num = 0 then f.lowest
  else
    let e := max f.lowest ((Nat.log2 num : Int) - Nat.log2 den - f.precision)
    let scaled := descale num den e
    if scaled.1 / scaled.2 < Nat.pow 2 f.precision then e else e + 1

/-- The number of the format nearest to `num / den`, ties to the even mantissa; `none` when that
lies beyond the largest one. -/
def nearest? (negative : Bool) (num den : Nat) : Option (Binary f) :=
  let e := gridExponent f num den
  let scaled := descale num den e
  let m := roundQuotient scaled.1 scaled.2
  if m = Nat.pow 2 f.precision then ofParts? negative (Nat.pow 2 (f.precision - 1)) (e + 1)
  else ofParts? negative m e

end Binary

end Newsletter
