/-
Byte strings, their hexadecimal form, and the bytes of a text. Main statements: a text is read back
from its bytes, and different byte strings differ in hexadecimal.
-/

namespace Newsletter

/-- A string of bytes. -/
abbrev Bytes := List UInt8

namespace Bytes

/-- The UTF-8 encoding of a text. -/
def ofText (text : String) : Bytes := text.toByteArray.data.toList

/-- The text that the bytes encode, if they are valid UTF-8. -/
def text? (bytes : Bytes) : Option String := String.fromUTF8? ⟨bytes.toArray⟩

/-- The lower-case hexadecimal digit of a number below sixteen. -/
def hexDigit (n : Nat) : Char :=
  if n < 10 then Char.ofNat (48 + n) else Char.ofNat (87 + n)

/-- Two lower-case hexadecimal digits for each byte. -/
def hex (bytes : Bytes) : String :=
  String.ofList (bytes.flatMap fun b => [hexDigit (b.toNat / 16), hexDigit (b.toNat % 16)])

/-- A text is read back from its bytes. -/
theorem text?_ofText (text : String) : text? (ofText text) = some text := by
  unfold text? ofText
  rw [Array.toArray_toList]
  exact dif_pos text.isValidUTF8

theorem ofText_injective {first second : String} (h : ofText first = ofText second) :
    first = second := by
  have hread := text?_ofText first
  rw [h, text?_ofText] at hread
  exact (Option.some.inj hread).symm

theorem hexDigit_injective {m n : Nat} (hm : m < 16) (hn : n < 16) (h : hexDigit m = hexDigit n) :
    m = n := by
  have hdigits : ∀ m n : Fin 16, hexDigit m = hexDigit n → m = n := by decide
  exact congrArg Fin.val (hdigits ⟨m, hm⟩ ⟨n, hn⟩ h)

/-- Different byte strings have different hexadecimal forms. -/
theorem hex_injective {first second : Bytes} (h : hex first = hex second) : first = second := by
  have hchars := congrArg String.toList h
  unfold hex at hchars
  rw [String.toList_ofList, String.toList_ofList] at hchars
  clear h
  induction first generalizing second with
  | nil =>
    cases second with
    | nil => rfl
    | cons b second => cases hchars
  | cons a first ih =>
    cases second with
    | nil => cases hchars
    | cons b second =>
      simp only [List.flatMap_cons, List.cons_append, List.nil_append, List.cons.injEq] at hchars
      obtain ⟨hhigh, hlow, hrest⟩ := hchars
      have ha := a.toNat_lt
      have hb := b.toNat_lt
      have hhigh := hexDigit_injective (by omega) (by omega) hhigh
      have hlow := hexDigit_injective (by omega) (by omega) hlow
      have hbyte : a = b := UInt8.toNat_inj.1 (by omega)
      rw [hbyte, ih hrest]

end Bytes

end Newsletter
