/-
Quoted texts of JSON. A quote, a backslash and the controls below U+0020 are escaped, everything
else stands for itself. A quoted text may hold escapes of lone surrogates; such a text is
well-formed but stands for no character sequence.
-/
import Newsletter.Bytes.Basic

namespace Newsletter.Json

/-! ## Writing -/

/-- A character as it stands between quotes. -/
def escape (c : Char) : List Char :=
  if c = '"' then ['\\', '"']
  else if c = '\\' then ['\\', '\\']
  else if c = '\n' then ['\\', 'n']
  else if c = '\r' then ['\\', 'r']
  else if c = '\t' then ['\\', 't']
  else if c = Char.ofNat 8 then ['\\', 'b']
  else if c = Char.ofNat 12 then ['\\', 'f']
  else if c.toNat < 32 then
    ['\\', 'u', '0', '0', Bytes.hexDigit (c.toNat / 16), Bytes.hexDigit (c.toNat % 16)]
  else [c]

/-- A text between quotes. -/
def quote (text : String) : List Char :=
  '"' :: (text.toList.flatMap escape ++ ['"'])

/-! ## Reading -/

/-- One element between quotes: a character, or the number of a `\u` escape. -/
inductive Glyph where
  | char (c : Char)
  | code (n : Nat)
  deriving DecidableEq, Repr

/-- The value of a hexadecimal digit. -/
def hexValue? (c : Char) : Option Nat :=
  let n := c.toNat
  if 48 ≤ n ∧ n ≤ 57 then some (n - 48)
  else if 97 ≤ n ∧ n ≤ 102 then some (n - 87)
  else if 65 ≤ n ∧ n ≤ 70 then some (n - 55)
  else none

/-- The number of four hexadecimal digits. -/
def hexValue4? (a b c d : Char) : Option Nat := do
  return (((← hexValue? a) * 16 + (← hexValue? b)) * 16 + (← hexValue? c)) * 16 + (← hexValue? d)

/-- The character that a backslash and one letter stand for. -/
def unescape? (c : Char) : Option Char :=
  if c = '"' ∨ c = '\\' ∨ c = '/' then some c
  else if c = 'b' then some (Char.ofNat 8)
  else if c = 'f' then some (Char.ofNat 12)
  else if c = 'n' then some '\n'
  else if c = 'r' then some '\r'
  else if c = 't' then some '\t'
  else none

/-- The elements up to the closing quote, and what follows it. -/
def readUnits? : List Char → Option (List Glyph × List Char)
  | [] => none
  | '"' :: rest => some ([], rest)
  | '\\' :: 'u' :: a :: b :: c :: d :: rest =>
    match hexValue4? a b c d, readUnits? rest with
    | some n, some (units, rest) => some (.code n :: units, rest)
    | _, _ => none
  | '\\' :: c :: rest =>
    match unescape? c, readUnits? rest with
    | some c, some (units, rest) => some (.char c :: units, rest)
    | _, _ => none
  | c :: rest =>
    if c.toNat < 32 ∨ c = '\\' then none
    else match readUnits? rest with
      | some (units, rest) => some (.char c :: units, rest)
      | none => none

def isHighSurrogate (n : Nat) : Bool := 0xD800 ≤ n && n ≤ 0xDBFF

def isLowSurrogate (n : Nat) : Bool := 0xDC00 ≤ n && n ≤ 0xDFFF

/-- The character of a high and a low surrogate. -/
def joinSurrogates (high low : Nat) : Char :=
  Char.ofNat (0x10000 + (high - 0xD800) * 0x400 + (low - 0xDC00))

/-- The characters of quoted elements, after a high surrogate that still lacks its low one; `none`
when a surrogate stays alone. -/
def joinUnits (pending : Option Nat) : List Glyph → Option (List Char)
  | [] => if pending.isNone then some [] else none
  | .char c :: rest => if pending.isNone then (joinUnits none rest).map (c :: ·) else none
  | .code n :: rest =>
    match pending with
    | some high =>
      if isLowSurrogate n then (joinUnits none rest).map (joinSurrogates high n :: ·) else none
    | none =>
      if isHighSurrogate n then joinUnits (some n) rest
      else if isLowSurrogate n then none
      else (joinUnits none rest).map (Char.ofNat n :: ·)

/-- The text up to the closing quote, `none` when it stands for no character sequence, and what
follows it. -/
def readQuoted? (cs : List Char) : Option (Option String × List Char) :=
  (readUnits? cs).map fun (units, rest) => ((joinUnits none units).map String.ofList, rest)

end Newsletter.Json
