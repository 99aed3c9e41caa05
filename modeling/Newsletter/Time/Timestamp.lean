/-
Timestamps of universal time, to the nanosecond. They are written with the fewest of no, three, six
or nine digits behind the second that are exact. Reading allows for any offset, for blanks around
the parts, and for short numbers.
-/
import Newsletter.Decimal.Digits
import Newsletter.Text.Blank
import Newsletter.Time.Date

namespace Newsletter

/-- An instant in universal time. Every minute may have a sixty-first second. -/
structure Timestamp where
  date : Date
  hour : Nat
  minute : Nat
  second : Nat
  nanosecond : Nat
  hour_lt : hour < 24
  minute_lt : minute < 60
  second_le : second ≤ 60
  nanosecond_lt : nanosecond < 1000000000
  deriving DecidableEq, Repr

namespace Timestamp

/-! ## Writing -/

/-- A year: four digits, or a sign and at least four digits. -/
def yearChars (year : Int) : List Char :=
  if 0 ≤ year ∧ year ≤ 9999 then Digits.chars (Digits.places 4 year.toNat)
  else (if year < 0 then '-' else '+') :: Digits.chars (Digits.padded 4 year.natAbs)

/-- A number of two digits. -/
def pairChars (n : Nat) : List Char := Digits.chars (Digits.places 2 n)

/-- The fraction of a second with the fewest groups of three digits that are exact. -/
def fractionChars (nanosecond : Nat) : List Char :=
  if nanosecond = 0 then []
  else if nanosecond % 1000000 = 0 then
    '.' :: Digits.chars (Digits.places 3 (nanosecond / 1000000))
  else if nanosecond % 1000 = 0 then '.' :: Digits.chars (Digits.places 6 (nanosecond / 1000))
  else '.' :: Digits.chars (Digits.places 9 nanosecond)

/-- The characters of a timestamp. -/
def chars (t : Timestamp) : List Char :=
  yearChars t.date.year ++ '-' :: pairChars t.date.month ++ '-' :: pairChars t.date.day ++
    'T' :: pairChars t.hour ++ ':' :: pairChars t.minute ++ ':' :: pairChars t.second ++
    fractionChars t.nanosecond ++ ['Z']

/-- The text of a timestamp. -/
def toText (t : Timestamp) : String := String.ofList t.chars

/-! ## Reading the parts -/

/-- A number of one to `width` digits. -/
def readDigits? (width : Nat) (cs : List Char) : Option (Nat × List Char) :=
  match (Digits.take cs).1 with
  | [] => none
  | ds =>
    let ds := ds.take width
    some (Digits.toNat ds, cs.drop ds.length)

/-- A number of one or two digits, after blanks. -/
def readPair? (cs : List Char) : Option (Nat × List Char) :=
  readDigits? 2 (Text.skipWhiteSpace cs)

/-- A year: one to four digits, or a sign and any number of digits. -/
def readYear? (cs : List Char) : Option (Int × List Char) :=
  match Text.skipWhiteSpace cs with
  | '-' :: rest => (readDigits? rest.length rest).map fun (n, rest) => (-(n : Int), rest)
  | '+' :: rest => (readDigits? rest.length rest).map fun (n, rest) => ((n : Int), rest)
  | rest => (readDigits? 4 rest).map fun (n, rest) => ((n : Int), rest)

/-- A separating mark, after blanks. -/
def readMark? (mark : Char) (cs : List Char) : Option (List Char) :=
  match Text.skipWhiteSpace cs with
  | c :: rest => if c = mark then some rest else none
  | [] => none

/-- The mark between date and time. -/
def readDivider? : List Char → Option (List Char)
  | c :: rest => if c = 'T' ∨ c = 't' ∨ c = ' ' then some rest else none
  | [] => none

/-- The nanoseconds of an optional fraction of a second; digits after the ninth are dropped. -/
def readFraction? : List Char → Option (Nat × List Char)
  | '.' :: rest =>
    match Digits.take rest with
    | ([], _) => none
    | (ds, rest) =>
      let kept := ds.take 9
      some (Digits.toNat kept * Nat.pow 10 (9 - kept.length), rest)
  | rest => some (0, rest)

/-- A colon, a blank, or any other mark between the hours and the minutes of an offset. -/
def isOffsetMark (c : Char) : Bool := c = ':' || Text.isWhiteSpace c

/-- The minutes of an offset without its sign: two digits of hours and two of minutes. -/
def readOffsetMinutes? : List Char → Option (Nat × List Char)
  | h₁ :: h₂ :: rest => do
    let hours := Digits.toNat [← Digit.ofChar? h₁, ← Digit.ofChar? h₂]
    match rest.dropWhile isOffsetMark with
    | m₁ :: m₂ :: rest =>
      let minutes := Digits.toNat [← Digit.ofChar? m₁, ← Digit.ofChar? m₂]
      if minutes < 60 then some (hours * 60 + minutes, rest) else none
    | _ => none
  | _ => none

/-- The minutes by which local time is ahead: none for `Z` and `UTC`, else a sign and a number
below a full day. -/
def readOffset? (cs : List Char) : Option (Int × List Char) :=
  match cs with
  | 'Z' :: rest | 'z' :: rest => some (0, rest)
  | u :: t :: c :: rest =>
    if [u.toLower, t.toLower, c.toLower] = ['u', 't', 'c'] then some (0, rest)
    else signed cs
  | _ => signed cs
where
  /-- An offset with a sign. -/
  signed (cs : List Char) : Option (Int × List Char) :=
    match cs with
    | [] => none
    | sign :: rest =>
      match readOffsetMinutes? rest with
      | none => none
      | some (minutes, rest) =>
        if 24 * 60 ≤ minutes then none
        else if sign = '+' then some (minutes, rest)
        else if sign = '-' ∨ sign = '\u2212' then some (-(minutes : Int), rest)
        else none

/-! ## Reading -/

/-- The date some days after a date; only the neighbouring days are of use here. -/
def shiftDate? (date : Date) (days : Int) : Option Date :=
  if days = 0 then some date
  else if days < 0 then date.previous?
  else date.next?

/-- The instant of a local date and time that is ahead of universal time by `offset` minutes. -/
def ofLocal? (date : Date) (hour minute second nanosecond : Nat) (offset : Int) :
    Option Timestamp := do
  let total : Int := hour * 60 + minute - offset
  let date ← shiftDate? date (total / (24 * 60))
  let minutes := (total % (24 * 60)).toNat
  if h : hour < 24 ∧ minute < 60 ∧ second ≤ 60 ∧ nanosecond < 1000000000 then
    return { date, hour := minutes / 60, minute := minutes % 60, second, nanosecond,
             hour_lt := by omega, minute_lt := by omega, second_le := h.2.2.1,
             nanosecond_lt := h.2.2.2 }
  else none

/-- The timestamp that a text spells. -/
def ofText? (text : String) : Option Timestamp := do
  let (year, cs) ← readYear? text.toList
  let cs ← readMark? '-' cs
  let (month, cs) ← readPair? cs
  let cs ← readMark? '-' cs
  let (day, cs) ← readPair? cs
  let cs ← readDivider? cs
  let (hour, cs) ← readPair? cs
  let cs ← readMark? ':' cs
  let (minute, cs) ← readPair? cs
  let cs ← readMark? ':' cs
  let (second, cs) ← readPair? cs
  let (nanosecond, cs) ← readFraction? cs
  let (offset, cs) ← readOffset? (Text.skipWhiteSpace cs)
  if Text.skipWhiteSpace cs = [] then
    ofLocal? (← Date.ofParts? year month day) hour minute second nanosecond offset
  else none

end Timestamp

end Newsletter
