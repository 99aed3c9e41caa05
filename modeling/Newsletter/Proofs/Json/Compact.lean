/-
The compact text of a JSON value. `CompactText` says it clause by clause, without the functions that
write values. Main statement: a value has exactly one compact text, the one that it writes.
-/
import Newsletter.Json.Value
import Newsletter.Proofs.Binary.Written

namespace Newsletter.Json

/-! ## Numbers -/

theorem Number.ofList_integerNumeral (n : ℤ) : String.ofList (integerNumeral n).chars = toString n := by
  rw [Numeral.ofList_chars]
  cases n with
  | ofNat n =>
    simp [integerNumeral, Numeral.fractionChars, Numeral.exponentChars]
    rfl
  | negSucc n =>
    simp [integerNumeral, Numeral.fractionChars, Numeral.exponentChars, Int.negSucc_lt_zero]
    rfl

/-- The double format has few enough bits for seventeen digits. -/
theorem precision_double : 2 ≤ Format.double.precision ∧ 2 ^ Format.double.precision < 10 ^ 16 := by
  decide

/-- How a double is written in a JSON text: in full from `0.00001` up to sixteen digits before the
point, and with a point in either case. -/
inductive DoubleText (x : Double) : String → Prop
  | zero (h : x.mantissa = 0) : DoubleText x (x.signText ++ "0.0")
  | written {text : String} (h : x.mantissa ≠ 0)
    (htext : x.WrittenAs .toEven (-5) 16 ".0" text) : DoubleText x text

theorem doubleText_iff {x : Double} {text : String} :
    DoubleText x text ↔ text = String.ofList (Number.layout.numeral x).chars := by
  by_cases hx : x.mantissa = 0
  · have hnumeral : String.ofList (Number.layout.numeral x).chars = x.signText ++ "0.0" := by
      have hzero : x.isZero = true := by
        unfold Binary.isZero
        rw [hx]
        rfl
      unfold Layout.numeral Binary.signText
      rw [if_pos hzero, Numeral.ofList_chars]
      cases x.negative <;> rfl
    rw [hnumeral]
    constructor
    · rintro (_ | ⟨hne, -⟩)
      · rfl
      · exact absurd hx hne
    · rintro rfl
      exact .zero hx
  · have hwritten : x.WrittenAs .toEven (-5) 16 ".0" text ↔
        text = String.ofList (Number.layout.numeral x).chars :=
      Number.layout.writtenAs_iff precision_double.1 precision_double.2 hx
    rw [← hwritten]
    constructor
    · rintro (hzero | ⟨-, htext⟩)
      · exact absurd hzero hx
      · exact htext
    · exact .written hx

/-! ## Quoted texts -/

/-- The characters that are escaped by one letter, each with its letter. -/
def shortEscapes : List (Char × Char) :=
  [('"', '"'), ('\\', '\\'), ('\n', 'n'), ('\r', 'r'), ('\t', 't'), (Char.ofNat 8, 'b'),
    (Char.ofNat 12, 'f')]

/-- A character between quotes: escaped by its letter, by its number if it is another control
character, or itself. -/
def escapedChars (c : Char) : List Char :=
  match shortEscapes.lookup c with
  | some letter => ['\\', letter]
  | none =>
    if c.toNat < 32 then
      ['\\', 'u', '0', '0', Nat.digitChar (c.toNat / 16), Nat.digitChar (c.toNat % 16)]
    else [c]

/-- A text in quotes. -/
def quotedText (text : String) : String :=
  "\"" ++ String.ofList (text.toList.flatMap escapedChars) ++ "\""

theorem hexDigit_eq {n : ℕ} (h : n < 16) : Bytes.hexDigit n = Nat.digitChar n := by
  have hdigits : ∀ n : Fin 16, Bytes.hexDigit n = Nat.digitChar n := by decide
  exact hdigits ⟨n, h⟩

theorem escape_eq (c : Char) : escape c = escapedChars c := by
  by_cases hmem : c ∈ shortEscapes.map Prod.fst
  · have hshort : ∀ c ∈ shortEscapes.map Prod.fst, escape c = escapedChars c := by
      rw [← List.map_inj_left]
      rfl
    exact hshort c hmem
  · have hlookup : shortEscapes.lookup c = none := by
      rw [List.lookup_eq_none_iff]
      intro p hp
      exact bne_iff_ne.2 fun heq => hmem (heq ▸ List.mem_map_of_mem hp)
    simp only [shortEscapes, List.map_cons, List.map_nil, List.mem_cons, List.not_mem_nil, or_false,
      not_or] at hmem
    obtain ⟨hquote, hslash, hline, hreturn, htab, hback, hfeed⟩ := hmem
    unfold escape escapedChars
    rw [hlookup, if_neg hquote, if_neg hslash, if_neg hline, if_neg hreturn, if_neg htab,
      if_neg hback, if_neg hfeed]
    dsimp only
    split
    · rename_i hcontrol
      rw [hexDigit_eq (by omega), hexDigit_eq (by omega)]
    · rfl

theorem ofList_quote (text : String) : String.ofList (quote text) = quotedText text := by
  unfold quote quotedText
  rw [funext escape_eq, ← String.toList_inj]
  simp

/-! ## Values -/

namespace Value

mutual

/-- The text of a value without blanks: an array in brackets and an object in braces, items and
members in their order with commas between them. -/
inductive CompactText : Value → String → Prop
  | null : CompactText .null "null"
  | true : CompactText (.bool true) "true"
  | false : CompactText (.bool false) "false"
  | integer (n : Integer) : CompactText (.number (.integer n)) (toString n.value)
  | float {x : Double} {text : String} (h : DoubleText x text) :
    CompactText (.number (.float x)) text
  | string (text : String) : CompactText (.string text) (quotedText text)
  | array {items : List Value} {texts : List String} (h : ItemTexts items texts) :
    CompactText (.array items) ("[" ++ ",".intercalate texts ++ "]")
  | object {members : List (String × Value)} {texts : List String} (h : MemberTexts members texts) :
    CompactText (.object members) ("\x7b" ++ ",".intercalate texts ++ "\x7d")

/-- The texts of items, in order. -/
inductive ItemTexts : List Value → List String → Prop
  | nil : ItemTexts [] []
  | cons {item : Value} {items : List Value} {text : String} {texts : List String}
    (h : CompactText item text) (hmore : ItemTexts items texts) :
    ItemTexts (item :: items) (text :: texts)

/-- The texts of members, in order, each a key in quotes with its value. -/
inductive MemberTexts : List (String × Value) → List String → Prop
  | nil : MemberTexts [] []
  | cons {key : String} {value : Value} {members : List (String × Value)} {text : String}
    {texts : List String} (h : CompactText value text) (hmore : MemberTexts members texts) :
    MemberTexts ((key, value) :: members) ((quotedText key ++ ":" ++ text) :: texts)

end

/-- The text of a member. -/
def memberText (member : String × Value) : String := quotedText member.1 ++ ":" ++ member.2.compact

theorem toList_compact (value : Value) : value.compact.toList = value.toTree.compactChars :=
  String.toList_ofList

theorem toList_memberText (key : String) (value : Value) : (memberText (key, value)).toList =
    Tree.quoteChars (some key) ++ ':' :: value.toTree.compactChars := by
  rw [memberText, ← ofList_quote, String.toList_append, String.toList_append, String.toList_ofList,
    toList_compact]
  simp [Tree.quoteChars]

/-- Commas stand between texts, that is, in front of each but the first. -/
theorem toList_intercalate_cons (first : String) (rest : List String) :
    (",".intercalate (first :: rest)).toList =
      first.toList ++ rest.flatMap fun text => ',' :: text.toList := by
  induction rest generalizing first with
  | nil => simp
  | cons second rest ih =>
    rw [String.intercalate_cons_cons, String.toList_append, String.toList_append, ih,
      List.flatMap_cons]
    simp

theorem compactItems_itemTrees (items : List Value) : Tree.compactItems (itemTrees items) =
    ((items.map compact).flatMap fun text => ',' :: text.toList) ++ [']'] := by
  induction items with
  | nil => rfl
  | cons item items ih =>
    rw [itemTrees, Tree.compactItems, ih, List.map_cons, List.flatMap_cons, toList_compact]
    simp

theorem compactMembers_memberTrees (members : List (String × Value)) :
    Tree.compactMembers (memberTrees members) =
      ((members.map memberText).flatMap fun text => ',' :: text.toList) ++ ['}'] := by
  induction members with
  | nil => rfl
  | cons member members ih =>
    obtain ⟨key, value⟩ := member
    rw [memberTrees, Tree.compactMembers, ih, List.map_cons, List.flatMap_cons, toList_memberText]
    simp

theorem compact_array (items : List Value) :
    (Value.array items).compact = "[" ++ ",".intercalate (items.map compact) ++ "]" := by
  rw [← String.toList_inj, toList_compact, toTree, String.toList_append, String.toList_append]
  cases items with
  | nil => rfl
  | cons item items =>
    rw [itemTrees, Tree.compactChars, compactItems_itemTrees, List.map_cons, toList_intercalate_cons,
      toList_compact]
    simp

theorem compact_object (members : List (String × Value)) : (Value.object members).compact =
    "\x7b" ++ ",".intercalate (members.map memberText) ++ "\x7d" := by
  rw [← String.toList_inj, toList_compact, toTree, String.toList_append, String.toList_append]
  cases members with
  | nil => rfl
  | cons member members =>
    obtain ⟨key, value⟩ := member
    rw [memberTrees, Tree.compactChars, compactMembers_memberTrees, List.map_cons,
      toList_intercalate_cons, toList_memberText]
    simp

mutual

/-- What a value writes is its compact text. -/
theorem compactText_compact : ∀ value : Value, CompactText value value.compact
  | .null => .null
  | .bool true => .true
  | .bool false => .false
  | .number (.integer n) => by
    have htext : (Value.number (.integer n)).compact = toString n.value :=
      Number.ofList_integerNumeral n.value
    rw [htext]
    exact .integer n
  | .number (.float _) => .float (doubleText_iff.2 rfl)
  | .string text => by
    have htext : (Value.string text).compact = quotedText text := ofList_quote text
    rw [htext]
    exact .string text
  | .array items => by
    rw [compact_array]
    exact .array (itemTexts_compact items)
  | .object members => by
    rw [compact_object]
    exact .object (memberTexts_compact members)

theorem itemTexts_compact : ∀ items : List Value, ItemTexts items (items.map compact)
  | [] => .nil
  | item :: items => .cons (compactText_compact item) (itemTexts_compact items)

theorem memberTexts_compact : ∀ members : List (String × Value),
    MemberTexts members (members.map memberText)
  | [] => .nil
  | (_, value) :: members => .cons (compactText_compact value) (memberTexts_compact members)

end

mutual

/-- A value has no compact text but the one that it writes. -/
theorem CompactText.eq_compact : ∀ {value : Value} {text : String}, CompactText value text →
    text = value.compact
  | _, _, .null => rfl
  | _, _, .true => rfl
  | _, _, .false => rfl
  | _, _, .integer n => (Number.ofList_integerNumeral n.value).symm
  | _, _, .float h => doubleText_iff.1 h
  | _, _, .string text => (ofList_quote text).symm
  | _, _, .array h => by rw [compact_array, ItemTexts.eq_map h]
  | _, _, .object h => by rw [compact_object, MemberTexts.eq_map h]

theorem ItemTexts.eq_map : ∀ {items : List Value} {texts : List String}, ItemTexts items texts →
    texts = items.map compact
  | _, _, .nil => rfl
  | _, _, .cons h hmore => by
    rw [List.map_cons, CompactText.eq_compact h, ItemTexts.eq_map hmore]

theorem MemberTexts.eq_map : ∀ {members : List (String × Value)} {texts : List String},
    MemberTexts members texts → texts = members.map memberText
  | _, _, .nil => rfl
  | _, _, .cons h hmore => by
    rw [List.map_cons, MemberTexts.eq_map hmore, CompactText.eq_compact h]
    rfl

end

/-- A value has exactly one compact text. -/
theorem compactText_iff {value : Value} {text : String} :
    CompactText value text ↔ text = value.compact :=
  ⟨CompactText.eq_compact, fun h => h ▸ compactText_compact value⟩

end Value

end Newsletter.Json
