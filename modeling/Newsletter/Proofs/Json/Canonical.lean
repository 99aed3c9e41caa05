/-
Values as data: an array is a sequence and an object is a map from its keys, whatever the order of its
members. Main statement: two values have the same canonical text exactly if they are the same data;
that text has the keys of every object in ascending order and no blank between its tokens, and what
is read from it is the same data with the same canonical text again.
-/
import Newsletter.Proofs.Json.Values

namespace Newsletter.Json

/-! ## Data -/

/-- What a JSON value stands for. Integers and floating-point numbers are different data, and so are
the two zeros of the latter. -/
inductive Data where
  | null
  | bool (b : Bool)
  | number (n : Number)
  | string (s : String)
  | array (items : List Data)
  | object (under : String → Option Data)

namespace Value

mutual

/-- The data of a value. -/
def data : Value → Data
  | .null => .null
  | .bool b => .bool b
  | .number n => .number n
  | .string s => .string s
  | .array items => .array (dataItems items)
  | .object members => .object (dataUnder members)
termination_by structural v => v

def dataItems : List Value → List Data
  | [] => []
  | item :: items => data item :: dataItems items
termination_by structural items => items

/-- What the members of an object hold under a key; of several members with one key the last one
counts. -/
def dataUnder : List (String × Value) → String → Option Data
  | [], _ => none
  | (other, value) :: members, key =>
    (dataUnder members key).or (if key = other then some (data value) else none)
termination_by structural members => members

end

theorem dataUnder_eq_none_iff {members : List (String × Value)} {key : String} :
    dataUnder members key = none ↔ key ∉ members.map (·.1) := by
  induction members with
  | nil => simp [dataUnder]
  | cons member members ih =>
    obtain ⟨other, value⟩ := member
    rw [dataUnder, Option.or_eq_none_iff, ih, List.map_cons, List.mem_cons, not_or]
    simp [and_comm]

/-- Where keys ascend, the first member alone holds something under its key. -/
theorem dataUnder_head {key : String} {value : Value} {members : List (String × Value)}
    (h : Ascending ((key, value) :: members)) : dataUnder members key = none ∧
      dataUnder ((key, value) :: members) key = some value.data := by
  have hnone : dataUnder members key = none := by
    rw [dataUnder_eq_none_iff]
    exact fun hmem => String.lt_irrefl _ ((Ascending.cons_iff.1 h).1 key hmem)
  refine ⟨hnone, ?_⟩
  rw [dataUnder, hnone, if_pos rfl, Option.none_or]

/-- Where keys ascend, nothing is held under a key below the first one. -/
theorem le_of_dataUnder {first : String} {value : Value} {members : List (String × Value)}
    (h : Ascending ((first, value) :: members)) {key : String} {found : Data}
    (hfound : dataUnder ((first, value) :: members) key = some found) : key = first ∨ first < key := by
  have hmem : key ∈ ((first, value) :: members).map (·.1) := by
    by_contra hnone
    rw [dataUnder_eq_none_iff.2 hnone] at hfound
    cases hfound
  exact (List.mem_cons.1 hmem).imp_right ((Ascending.cons_iff.1 h).1 key)

/-- Where keys ascend, the first member with a key is the last one. -/
theorem dataUnder_eq_lookup {members : List (String × Value)} (h : Ascending members)
    (key : String) : dataUnder members key = (members.lookup key).map data := by
  induction members with
  | nil => rfl
  | cons member members ih =>
    obtain ⟨other, value⟩ := member
    rw [List.lookup_cons]
    by_cases hkey : key = other
    · subst hkey
      rw [beq_self_eq_true, (dataUnder_head h).2]
      rfl
    · rw [beq_false_of_ne hkey, dataUnder, if_neg hkey, Option.or_none]
      exact ih (Ascending.cons_iff.1 h).2

theorem dataUnder_put {members : List (String × Value)} (h : Ascending members) (key other : String)
    (value : Value) : dataUnder (Ascending.put key value members) other =
      if other = key then some value.data else dataUnder members other := by
  have hlookup : (Ascending.put key value members).lookup other =
      if other = key then some value else members.lookup other :=
    Dict.get?_insert ⟨members, h⟩ key other value
  rw [dataUnder_eq_lookup (Ascending.put_ascending key value h), dataUnder_eq_lookup h, hlookup]
  split <;> rfl

/-! ## Canonical forms -/

mutual

/-- The canonical form of a value is the same data. -/
theorem data_canonical : ∀ v : Value, v.canonical.data = v.data
  | .null => rfl
  | .bool _ => rfl
  | .number _ => rfl
  | .string _ => rfl
  | .array items => by rw [canonical, data, data, dataItems_canonicalItems items]
  | .object members => by
    rw [canonical, data, data]
    refine congrArg _ (funext fun key => ?_)
    rw [dataUnder_canonicalMembers members Ascending.nil, dataUnder, Option.or_none]

theorem dataItems_canonicalItems : ∀ items : List Value,
    dataItems (canonicalItems items) = dataItems items
  | [] => rfl
  | item :: items => by
    rw [canonicalItems, dataItems, dataItems, data_canonical item, dataItems_canonicalItems items]

theorem dataUnder_canonicalMembers : ∀ (members : List (String × Value))
    {sorted : List (String × Value)}, Ascending sorted → ∀ {key : String},
      dataUnder (canonicalMembers sorted members) key =
        (dataUnder members key).or (dataUnder sorted key)
  | [], sorted, _, key => by rw [canonicalMembers, dataUnder, Option.none_or]
  | (other, value) :: members, sorted, h, key => by
    rw [canonicalMembers, dataUnder_canonicalMembers members (Ascending.put_ascending _ _ h),
      dataUnder_put h, data_canonical value, dataUnder, Option.or_assoc]
    split <;> rfl

end

mutual

/-- Sorted values that are the same data are the same. -/
theorem eq_of_data : ∀ {v w : Value}, v.Sorted → w.Sorted → v.data = w.data → v = w
  | .null, w, _, _, h => by cases w <;> cases h; rfl
  | .bool _, w, _, _, h => by cases w <;> cases h; rfl
  | .number _, w, _, _, h => by cases w <;> cases h; rfl
  | .string _, w, _, _, h => by cases w <;> cases h; rfl
  | .array items, w, hv, hw, h => by
    cases w with
    | array others =>
      rw [data, data, Data.array.injEq] at h
      rw [eq_of_dataItems hv hw h]
    | null | bool | number | string | object => cases h
  | .object members, w, hv, hw, h => by
    cases w with
    | object others =>
      rw [data, data, Data.object.injEq] at h
      rw [eq_of_dataUnder hv.1 hv.2 hw.1 hw.2 h]
    | null | bool | number | string | array => cases h

theorem eq_of_dataItems : ∀ {items others : List Value}, SortedItems items → SortedItems others →
    dataItems items = dataItems others → items = others
  | [], [], _, _, _ => rfl
  | [], _ :: _, _, _, h => by cases h
  | _ :: _, [], _, _, h => by cases h
  | item :: items, other :: others, hitems, hothers, h => by
    obtain ⟨hfirst, hrest⟩ := List.cons.inj h
    rw [eq_of_data hitems.1 hothers.1 hfirst, eq_of_dataItems hitems.2 hothers.2 hrest]

theorem eq_of_dataUnder : ∀ {members others : List (String × Value)}, Ascending members →
    SortedMembers members → Ascending others → SortedMembers others →
      dataUnder members = dataUnder others → members = others
  | [], [], _, _, _, _, _ => rfl
  | [], (key, value) :: others, _, _, hothers, _, h => by
    have hnone := congrFun h key
    rw [(dataUnder_head hothers).2] at hnone
    cases hnone
  | (key, value) :: members, [], hmembers, _, _, _, h => by
    have hnone := congrFun h key
    rw [(dataUnder_head hmembers).2] at hnone
    cases hnone
  | (key, value) :: members, (other, found) :: others, hmembers, hsorted, hothers, hsorted', h => by
    -- the least key of one list is a key of the other, so the least keys are the same
    have hkey : key = other := by
      have hfound := (dataUnder_head hmembers).2
      have hfound' := (dataUnder_head hothers).2
      rw [h] at hfound
      rw [← h] at hfound'
      rcases le_of_dataUnder hothers hfound with heq | hlt
      · exact heq
      · rcases le_of_dataUnder hmembers hfound' with heq | hgt
        · exact heq.symm
        · exact absurd hgt (String.lt_asymm hlt)
    subst hkey
    have hvalue := congrFun h key
    rw [(dataUnder_head hmembers).2, (dataUnder_head hothers).2, Option.some.injEq] at hvalue
    have hrest : dataUnder members = dataUnder others := by
      funext k
      by_cases hk : k = key
      · rw [hk, (dataUnder_head hmembers).1, (dataUnder_head hothers).1]
      · have hsame := congrFun h k
        rw [dataUnder, dataUnder, if_neg hk, if_neg hk, Option.or_none, Option.or_none] at hsame
        exact hsame
    rw [eq_of_data hsorted.1 hsorted'.1 hvalue, eq_of_dataUnder (Ascending.cons_iff.1 hmembers).2
      hsorted.2 (Ascending.cons_iff.1 hothers).2 hsorted'.2 hrest]

end

theorem canonical_eq_iff {v w : Value} : v.canonical = w.canonical ↔ v.data = w.data := by
  constructor
  · intro h
    rw [← data_canonical v, h, data_canonical]
  · intro h
    refine eq_of_data (canonical_sorted v) (canonical_sorted w) ?_
    rw [data_canonical, data_canonical, h]

/-! ## Texts of values -/

theorem toTree_injective {v w : Value} (h : v.toTree = w.toTree) : v = w := by
  have hv := ofTreeUnsorted?_toTree v v.toTree.levels
  have hw := ofTreeUnsorted?_toTree w v.toTree.levels
  rw [if_pos (Nat.le_refl _)] at hv
  rw [← h, if_pos (Nat.le_refl _), hv] at hw
  exact Option.some.inj hw

/-- The text of a value tells it from every other one. -/
theorem compact_injective {v w : Value} (h : v.compact = w.compact) : v = w := by
  have hv := Tree.read?_compact v.toTree
  have hw := Tree.read?_compact w.toTree
  have hsame : v.toTree.compact = w.toTree.compact := h
  rw [hsame, hw] at hv
  exact (toTree_injective (Option.some.inj hv)).symm

theorem canonicalText_eq_iff {v w : Value} :
    v.canonicalText = w.canonicalText ↔ v.data = w.data := by
  rw [← canonical_eq_iff]
  exact ⟨compact_injective, congrArg compact⟩

end Value

/-! ## Blanks between tokens -/

namespace Tree

/-- The characters of a text that are not between quotes. `quoted` tells whether the text begins
between quotes; there a backslash takes the next character with it. -/
def unquoted : (quoted : Bool) → List Char → List Char
  | _, [] => []
  | false, c :: cs => if c = '"' then unquoted true cs else c :: unquoted false cs
  | true, '\\' :: _ :: cs => unquoted true cs
  | true, c :: cs => if c = '"' then unquoted false cs else unquoted true cs

/-- No blank stands outside quotes. -/
def Tight (cs : List Char) : Prop := ∀ c ∈ unquoted false cs, isBlank c = false

theorem unquoted_plain {c : Char} (hquote : c ≠ '"') (hback : c ≠ '\\') (cs : List Char) :
    unquoted true (c :: cs) = unquoted true cs := by
  rw [unquoted, if_neg hquote]
  exact fun _ _ heq => absurd heq hback

theorem unquoted_escape (c : Char) (cs : List Char) :
    unquoted true (escape c ++ cs) = unquoted true cs := by
  unfold escape
  -- seven characters have an escape of one letter
  iterate 7
    split
    · rfl
  split
  · rename_i hlow
    have hhex : ∀ n < 16, Bytes.hexDigit n ≠ '"' ∧ Bytes.hexDigit n ≠ '\\' := by decide
    have hfirst := hhex (c.toNat / 16) (by omega)
    have hsecond := hhex (c.toNat % 16) (by omega)
    show unquoted true ('0' :: '0' :: Bytes.hexDigit _ :: Bytes.hexDigit _ :: cs) = _
    rw [unquoted_plain (by decide) (by decide), unquoted_plain (by decide) (by decide),
      unquoted_plain hfirst.1 hfirst.2, unquoted_plain hsecond.1 hsecond.2]
  · rename_i hquote hback _ _ _ _ _ _
    exact unquoted_plain hquote hback cs

/-- What is quoted is passed over. -/
theorem unquoted_quoteChars (text : Option String) (cs : List Char) :
    unquoted false (quoteChars text ++ cs) = unquoted false cs := by
  cases text with
  | none => rfl
  | some s =>
    have key : ∀ chars : List Char,
        unquoted true (chars.flatMap escape ++ '"' :: cs) = unquoted false cs := by
      intro chars
      induction chars with
      | nil => rfl
      | cons c chars ih => rw [List.flatMap_cons, List.append_assoc, unquoted_escape, ih]
    show unquoted true ((s.toList.flatMap escape ++ ['"']) ++ cs) = _
    rw [List.append_assoc]
    exact key s.toList

theorem Tight.quoteChars {cs : List Char} (h : Tight cs) (text : Option String) :
    Tight (quoteChars text ++ cs) := by
  unfold Tight
  rw [unquoted_quoteChars]
  exact h

/-- Neither a blank nor a quote. -/
def isBare (c : Char) : Bool := !isBlank c && c != '"'

theorem Tight.cons {cs : List Char} (h : Tight cs) {c : Char} (hbare : isBare c = true) :
    Tight (c :: cs) := by
  unfold isBare at hbare
  rw [Bool.and_eq_true, Bool.not_eq_true', bne_iff_ne] at hbare
  unfold Tight
  rw [unquoted, if_neg hbare.2]
  intro d hd
  rcases List.mem_cons.1 hd with rfl | hd
  · exact hbare.1
  · exact h d hd

/-- Characters without blanks and quotes may stand in front. -/
theorem Tight.append {cs : List Char} (h : Tight cs) {front : List Char}
    (hfront : front.all isBare = true) : Tight (front ++ cs) := by
  induction front with
  | nil => exact h
  | cons c front ih =>
    rw [List.all_cons, Bool.and_eq_true] at hfront
    exact (ih hfront.2).cons hfront.1

theorem isBare_numeral (n : Numeral) : n.chars.all isBare = true :=
  n.all_chars (by decide) (by decide)

mutual

/-- The compact text of a tree has no blanks between its tokens. -/
theorem tight_compactChars : ∀ (tree : Tree) {rest : List Char}, Tight rest →
    Tight (compactChars tree ++ rest)
  | .null, _, h => h.append rfl
  | .bool true, _, h => h.append rfl
  | .bool false, _, h => h.append rfl
  | .number n, _, h => h.append (isBare_numeral n)
  | .string s, _, h => h.quoteChars s
  | .array [], _, h => h.append rfl
  | .array (item :: items), _, h => by
    rw [compactChars, List.cons_append, List.append_assoc]
    exact (tight_compactChars item (tight_compactItems items h)).cons rfl
  | .object [], _, h => h.append rfl
  | .object ((key, value) :: members), _, h => by
    rw [compactChars, List.cons_append, List.append_assoc, List.cons_append, List.append_assoc]
    refine Tight.cons (Tight.quoteChars (Tight.cons ?_ rfl) key) rfl
    exact tight_compactChars value (tight_compactMembers members h)

theorem tight_compactItems : ∀ (items : List Tree) {rest : List Char}, Tight rest →
    Tight (compactItems items ++ rest)
  | [], _, h => h.append rfl
  | item :: items, _, h => by
    rw [compactItems, List.cons_append, List.append_assoc]
    exact (tight_compactChars item (tight_compactItems items h)).cons rfl

theorem tight_compactMembers : ∀ (members : List (Option String × Tree)) {rest : List Char},
    Tight rest → Tight (compactMembers members ++ rest)
  | [], _, h => h.append rfl
  | (key, value) :: members, _, h => by
    rw [compactMembers, List.cons_append, List.append_assoc, List.cons_append, List.append_assoc]
    refine Tight.cons (Tight.quoteChars (Tight.cons ?_ rfl) key) rfl
    exact tight_compactChars value (tight_compactMembers members h)

end

theorem tight_compact (tree : Tree) : Tight tree.compact.toList := by
  have htight : Tight (compactChars tree ++ []) := tight_compactChars tree nofun
  rwa [List.append_nil, ← String.toList_ofList (l := compactChars tree)] at htight

end Tree

namespace Value

/-! ## Canonical texts -/

/-- A text that stands for the data of a value, and for no other data. -/
structure Identifies (text : String) (v : Value) : Prop where
  same : ∀ w : Value, w.canonicalText = text ↔ w.data = v.data
  /-- The tokens are those of a value with the keys of every object in strictly ascending order. -/
  sorted : ∃ w : Value, Tree.read? text = some w.toTree ∧ w.Sorted ∧ w.data = v.data
  tight : Tree.Tight text.toList
  readBack : v.toTree.levels ≤ maxLevels → ∃ w : Value, Decoder.value.read? text = some w ∧
    w.data = v.data ∧ w.canonicalText = text

/-- The canonical text of a value tells its data from all other data, and is read back. -/
theorem identifies_canonicalText (v : Value) : Identifies v.canonicalText v := by
  have hread := read?_compact v.canonical
  rw [canonical_eq (canonical_sorted v)] at hread
  refine ⟨fun w => canonicalText_eq_iff, ⟨v.canonical, Tree.read?_compact _, canonical_sorted v,
    data_canonical v⟩, Tree.tight_compact _, fun hlevels => ?_⟩
  rw [if_pos ((levels_canonical v).trans hlevels)] at hread
  exact ⟨v.canonical, hread, data_canonical v, canonicalText_eq_iff.2 (data_canonical v)⟩

end Value

end Newsletter.Json
