/-
Records as syntax trees. Main facts: an object whose members are the fields of a record, in any order,
gives each field of the record; and the canonical form of an object with different keys has its
members in another order, each in canonical form, and no others.
-/
import Newsletter.Json.Decoder
import Mathlib.Data.List.Basic

namespace Newsletter

open Json

/-! ## Levels -/

namespace Json.Tree

mutual

/-- The greatest number of arrays and objects that are open at once. -/
def levels : Tree → Nat
  | .array items => levelsItems items + 1
  | .object members => levelsMembers members + 1
  | _ => 0
termination_by structural tree => tree

def levelsItems : List Tree → Nat
  | [] => 0
  | item :: items => max (levels item) (levelsItems items)
termination_by structural items => items

def levelsMembers : List (Option String × Tree) → Nat
  | [] => 0
  | (_, value) :: members => max (levels value) (levelsMembers members)
termination_by structural members => members

end

/-- The levels inside an object with the given members. -/
def levelsFields (fields : List (String × Tree)) : Nat :=
  levelsMembers (fields.map fun (key, value) => (some key, value))

theorem levels_record (fields : List (String × Tree)) :
    (record fields).levels = levelsFields fields + 1 := by
  unfold record levelsFields
  rw [levels]

@[simp] theorem levels_text (s : String) : (text s).levels = 0 := rfl

@[simp] theorem levels_nat (n : Nat) : (nat n).levels = 0 := rfl

@[simp] theorem levelsFields_nil : levelsFields [] = 0 := rfl

@[simp] theorem levelsFields_cons (key : String) (value : Tree) (fields : List (String × Tree)) :
    levelsFields ((key, value) :: fields) = max value.levels (levelsFields fields) := rfl

@[simp] theorem levelsFields_append (first second : List (String × Tree)) :
    levelsFields (first ++ second) = max (levelsFields first) (levelsFields second) := by
  induction first with
  | nil => simp
  | cons field first ih =>
    obtain ⟨key, value⟩ := field
    rw [List.cons_append, levelsFields_cons, levelsFields_cons, ih, Nat.max_assoc]

theorem levelsFields_texts (entries : List (String × String)) :
    levelsFields (entries.map fun (key, value) => (key, text value)) = 0 := by
  induction entries with
  | nil => rfl
  | cons entry entries ih => rw [List.map_cons, levelsFields_cons, ih]; rfl

theorem levelsItems_texts (texts : List String) : levelsItems (texts.map text) = 0 := by
  induction texts with
  | nil => rfl
  | cons s texts ih => rw [List.map_cons, levelsItems, ih]; rfl

end Json.Tree

/-! ## Records and dictionaries -/

namespace Json

/-- All members of an object are fields if they have different names and all names are known. -/
theorem Fields.ofTree?_record {names : List String} {fields : Fields}
    (hnames : ∀ field ∈ fields, field.1 ∈ names) (hnodup : (fields.map (·.1)).Nodup) :
    ofTree? names (.record fields) = some fields := by
  show ofMembers? names _ = _
  induction fields with
  | nil => rfl
  | cons field fields ih =>
    obtain ⟨key, tree⟩ := field
    rw [List.map_cons, List.nodup_cons] at hnodup
    have hkey : key ∈ names := hnames _ List.mem_cons_self
    have hnone : fields.lookup key = none := by
      rw [List.lookup_eq_none_iff]
      intro field hfield
      have hne : key ≠ field.1 := fun heq => hnodup.1 (List.mem_map.2 ⟨field, hfield, heq.symm⟩)
      simpa using hne
    rw [List.map_cons, ofMembers?, ih (fun f hf => hnames f (List.mem_cons_of_mem _ hf)) hnodup.2]
    dsimp only
    rw [if_pos hkey, hnone, Option.isSome_none, if_neg Bool.false_ne_true]

/-- A field that is left out when there is no text is read as that text. -/
theorem Fields.optional_eq {fields : Fields} {name : String} {text : Option String}
    (h : fields.lookup name = text.map Tree.text) (levels : Nat) :
    fields.optional levels name Decoder.string = some text := by
  unfold optional withDefault
  rw [h]
  cases text <;> rfl

theorem Fields.required_eq {α : Type} {fields : Fields} {name : String} {t : Tree}
    (h : fields.lookup name = some t) (levels : Nat) (d : Decoder α) :
    fields.required levels name d = d levels t := by
  unfold required
  rw [h, Option.bind_some]

theorem Fields.required_text {fields : Fields} {name s : String}
    (h : fields.lookup name = some (.text s)) (levels : Nat) :
    fields.required levels name Decoder.string = some s :=
  required_eq h levels Decoder.string

theorem Fields.withDefault_eq {α : Type} {fields : Fields} {name : String} {t : Tree}
    (h : fields.lookup name = some t) (levels : Nat) (d : Decoder α) (absent : α) :
    fields.withDefault levels name d absent = d levels t := by
  unfold withDefault
  rw [h]

end Json

/-- A dictionary is made of its own entries. -/
theorem Dict.ofList_entries {α : Type} (d : Dict α) : Dict.ofList d.entries = d := by
  have key : ∀ (rest : List (String × α)) (found : Dict α), Ascending (found.entries ++ rest) →
      (rest.foldl (fun d entry => d.insert entry.1 entry.2) found).entries =
        found.entries ++ rest := by
    intro rest
    induction rest with
    | nil => intro found _; rw [List.foldl_nil, List.append_nil]
    | cons entry rest ih =>
      obtain ⟨name, value⟩ := entry
      intro found h
      have hbefore : ∀ e ∈ found.entries, e.1 < name := fun e he =>
        (List.pairwise_append.1 h).2.2 e he _ List.mem_cons_self
      have hinsert : (found.insert name value).entries = found.entries ++ [(name, value)] :=
        Ascending.put_eq_append value hbefore
      rw [List.foldl_cons, ih _ (by rw [hinsert, List.append_assoc]; exact h), hinsert,
        List.append_assoc]
      rfl
  exact Dict.ext (key d.entries Dict.empty d.ascending)

theorem List.mapM_map_eq_some {α β : Type} {f : β → Option α} {g : α → β}
    (h : ∀ a, f (g a) = some a) (l : List α) : (l.map g).mapM f = some l := by
  induction l with
  | nil => rfl
  | cons a l ih => rw [List.map_cons, List.mapM_cons, h, ih]; rfl

/-- A dictionary of texts is read back. -/
theorem Json.Decoder.dict_record (levels : Nat) (d : Dict String) :
    Decoder.dict Decoder.string (levels + 1)
      (.record (d.entries.map fun (key, value) => (key, .text value))) = some d := by
  have hread := List.mapM_map_eq_some (g := fun entry => (some entry.1, Tree.text entry.2))
    (f := Decoder.member? (Decoder.string levels)) (fun _ => rfl) d.entries
  unfold Tree.record
  rw [List.map_map]
  refine (congrArg (Option.map Dict.ofList) hread).trans ?_
  rw [Option.map_some, Dict.ofList_entries]

/-! ## Numbers and lists -/

/-- The tree of a natural number that is a value. -/
theorem Json.Tree.number_ofNat (n : Nat) (h : n < 0x10000000000000000) :
    number (Number.ofNat n h).toNumeral = nat n := by
  have hsign : decide ((n : Int) < 0) = false := by simp
  show number { negative := decide ((n : Int) < 0), whole := n, fraction := [], exponent := none } = _
  rw [hsign]
  rfl

namespace Json.Decoder

theorem integer?_eq_some {m : Numeral} (hnegative : m.negative = false)
    (hplain : m.fraction = [] ∧ m.exponent = none) (h : m.whole < 0x10000000000000000) :
    ∃ i, Number.integer? m = some i ∧ i.value = m.whole := by
  obtain ⟨negative, whole, fraction, exponent⟩ := m
  subst hnegative
  have hrange : -0x8000000000000000 ≤ (whole : Int) ∧ (whole : Int) < 0x10000000000000000 := by
    dsimp only at h
    omega
  exact ⟨_, dif_pos ⟨hplain.1, hplain.2, nofun, hrange⟩, rfl⟩

theorem integer?_eq_none {m : Numeral} (hnegative : m.negative = false)
    (h : ¬m.whole < 0x10000000000000000) : Number.integer? m = none := by
  obtain ⟨negative, whole, fraction, exponent⟩ := m
  subst hnegative
  have hrange : ¬(whole : Int) < 0x10000000000000000 := by
    dsimp only at h
    omega
  exact dif_neg fun hinteger => hrange hinteger.2.2.2.2

theorem natBelow_number (bound levels : Nat) (m : Numeral) :
    natBelow bound levels (.number m) =
      match Number.integer? m with
      | some i => if 0 ≤ i.value ∧ i.value < bound then some i.value.toNat else none
      | none => none := rfl

theorem natBelow_nat {bound : Nat} (hbound : bound ≤ 0x10000000000000000) (levels n : Nat) :
    natBelow bound levels (.nat n) = if n < bound then some n else none := by
  obtain ⟨m, hm, rfl, hnegative, hplain⟩ : ∃ m : Numeral, Tree.nat n = .number m ∧ m.whole = n ∧
      m.negative = false ∧ m.fraction = [] ∧ m.exponent = none := ⟨_, rfl, rfl, rfl, rfl, rfl⟩
  rw [hm, natBelow_number]
  by_cases h : m.whole < 0x10000000000000000
  · obtain ⟨i, hi, hvalue⟩ := integer?_eq_some hnegative hplain h
    rw [hi]
    simp [hvalue]
  · rw [integer?_eq_none hnegative h, if_neg (by omega)]

theorem list_array {α : Type} (d : Decoder α) (levels : Nat) (items : List Tree) :
    list d (levels + 1) (.array items) = items.mapM (d levels) := rfl

end Json.Decoder

/-! ## Fields in another order -/

/-- Where no key repeats, the order of members makes no difference to what is found. -/
theorem Json.Fields.lookup_perm {found fields : Fields} (h : found.Perm fields)
    (hnodup : (fields.map (·.1)).Nodup) (name : String) : found.lookup name = fields.lookup name := by
  induction h with
  | nil => rfl
  | cons field h ih =>
    rw [List.map_cons, List.nodup_cons] at hnodup
    rw [List.lookup_cons, List.lookup_cons, ih hnodup.2]
  | swap first second fields =>
    obtain ⟨key, tree⟩ := first
    obtain ⟨other, value⟩ := second
    simp only [List.map_cons, List.nodup_cons, List.mem_cons, not_or] at hnodup
    rw [List.lookup_cons, List.lookup_cons, List.lookup_cons, List.lookup_cons]
    by_cases hkey : name = key
    · rw [hkey, beq_self_eq_true, beq_false_of_ne hnodup.1.1]
    · rw [beq_false_of_ne hkey]
  | trans h h' ih ih' =>
    have hmiddle := hnodup
    rw [← (h'.map (·.1)).nodup_iff] at hmiddle
    rw [ih hmiddle, ih' hnodup]

/-- An object with all the fields of a record is read as that record, in whatever order they are. -/
theorem Json.Fields.ofTree?_perm {names : List String} {found fields : Fields}
    (h : found.Perm fields) (hnames : fields.map (·.1) = names) (hnodup : names.Nodup) :
    ofTree? names (.record found) = some found ∧
      ∀ name, found.lookup name = fields.lookup name := by
  subst hnames
  refine ⟨ofTree?_record (fun field hfield => ?_) ?_, lookup_perm h hnodup⟩
  · exact List.mem_map_of_mem (h.mem_iff.1 hfield)
  · rwa [(h.map (·.1)).nodup_iff]

theorem Ascending.perm_put {α : Type} {key : String} (value : α) {entries : List (String × α)}
    (h : key ∉ entries.map (·.1)) : (put key value entries).Perm ((key, value) :: entries) := by
  induction entries with
  | nil => exact .refl _
  | cons entry entries ih =>
    obtain ⟨other, found⟩ := entry
    rw [List.map_cons, List.mem_cons, not_or] at h
    rw [put, if_neg h.1]
    split
    · exact .refl _
    · exact ((ih h.2).cons _).trans (.swap ..)

namespace Json.Value

theorem perm_canonicalMembers {members : List (String × Value)} (sorted : List (String × Value))
    (h : ((sorted ++ members).map (·.1)).Nodup) : (canonicalMembers sorted members).Perm
      (sorted ++ members.map fun member => (member.1, member.2.canonical)) := by
  induction members generalizing sorted with
  | nil => rw [List.map_nil, List.append_nil]; exact .refl _
  | cons member members ih =>
    obtain ⟨key, value⟩ := member
    have hkey : key ∉ sorted.map (·.1) := by
      rw [List.map_append, List.nodup_append] at h
      exact fun hmem => h.2.2 key hmem key List.mem_cons_self rfl
    have hput := Ascending.perm_put value.canonical hkey
    rw [canonicalMembers]
    refine (ih _ ?_).trans ?_
    · -- the new member only goes to another place among the keys
      have hkeys := (hput.append_right members).map (·.1)
      rw [hkeys.nodup_iff]
      rw [List.map_append, List.map_cons, List.perm_middle.nodup_iff, ← List.map_append] at h
      exact h
    · rw [List.map_cons]
      exact (hput.append_right _).trans List.perm_middle.symm

theorem memberTrees_eq (members : List (String × Value)) :
    memberTrees members = members.map fun member => (some member.1, member.2.toTree) := by
  induction members with
  | nil => rfl
  | cons member members ih => rw [memberTrees, ih]; rfl

theorem itemTrees_eq (items : List Value) : itemTrees items = items.map toTree := by
  induction items with
  | nil => rfl
  | cons item items ih => rw [itemTrees, ih]; rfl

theorem canonicalItems_eq_map (items : List Value) : canonicalItems items = items.map canonical := by
  induction items with
  | nil => rfl
  | cons item items ih => rw [canonicalItems, ih]; rfl

/-- The tree of an object is a record with its members. -/
theorem toTree_object (members : List (String × Value)) :
    (object members).toTree = .record (members.map fun member => (member.1, member.2.toTree)) := by
  rw [toTree, memberTrees_eq, Tree.record, List.map_map]
  rfl

/-- The tree of a canonical array has the trees of its canonical items. -/
theorem toTree_canonical_array (items : List Value) :
    (array items).canonical.toTree = .array (items.map fun item => item.canonical.toTree) := by
  rw [canonical, canonicalItems_eq_map, toTree, itemTrees_eq, List.map_map]
  rfl

/-- The tree of a canonical object has the trees of its canonical members, in some order. -/
theorem exists_perm_canonical (members : List (String × Value)) (h : (members.map (·.1)).Nodup) :
    ∃ found : Fields, (object members).canonical.toTree = .record found ∧
      found.Perm (members.map fun member => (member.1, member.2.canonical.toTree)) := by
  refine ⟨_, toTree_object _, ?_⟩
  have hperm := perm_canonicalMembers [] h
  refine (hperm.map _).trans ?_
  rw [List.nil_append, List.map_map]
  exact .refl _

end Json.Value

end Newsletter
