/-
JSON values: what a syntax tree stands for when every part of it is used. The members of an object
may come in any order; the canonical form of a value has them in ascending key order at every
depth, without repeats. Main statement: canonical values are sorted.
-/
import Newsletter.Dict
import Newsletter.Json.Number
import Newsletter.Json.Tree

namespace Newsletter.Json

/-! ## Values -/

/-- A JSON value. -/
inductive Value where
  | null
  | bool (b : Bool)
  | number (n : Number)
  | string (s : String)
  | array (items : List Value)
  | object (members : List (String × Value))

namespace Value

instance : Inhabited Value := ⟨.null⟩

/-! ## Canonical form -/

mutual

/-- The keys of every object, at every depth, are in ascending order. -/
def Sorted : Value → Prop
  | .array items => SortedItems items
  | .object members => Ascending members ∧ SortedMembers members
  | _ => True
termination_by structural v => v

def SortedItems : List Value → Prop
  | [] => True
  | item :: items => Sorted item ∧ SortedItems items
termination_by structural items => items

def SortedMembers : List (String × Value) → Prop
  | [] => True
  | (_, value) :: members => Sorted value ∧ SortedMembers members
termination_by structural members => members

end

mutual

/-- The same value with the members of every object in ascending key order; of several members
with one key the last one counts. -/
def canonical : Value → Value
  | .null => .null
  | .bool b => .bool b
  | .number n => .number n
  | .string s => .string s
  | .array items => .array (canonicalItems items)
  | .object members => .object (canonicalMembers [] members)
termination_by structural v => v

def canonicalItems : List Value → List Value
  | [] => []
  | item :: items => canonical item :: canonicalItems items
termination_by structural items => items

/-- Adds members one by one to those already `sorted`. -/
def canonicalMembers (sorted : List (String × Value)) :
    List (String × Value) → List (String × Value)
  | [] => sorted
  | (key, value) :: members =>
    canonicalMembers (Ascending.put key (canonical value) sorted) members
termination_by structural members => members

end

theorem sortedMembers_iff {members : List (String × Value)} :
    SortedMembers members ↔ ∀ m ∈ members, m.2.Sorted := by
  induction members with
  | nil => simp [SortedMembers]
  | cons m ms ih => obtain ⟨k, v⟩ := m; simp [SortedMembers, ih]

theorem sortedMembers_put {key : String} {value : Value} {members : List (String × Value)}
    (hv : value.Sorted) (h : SortedMembers members) :
    SortedMembers (Ascending.put key value members) := by
  induction members with
  | nil => exact ⟨hv, trivial⟩
  | cons m ms ih =>
    obtain ⟨k, v⟩ := m
    simp only [Ascending.put]
    split
    · exact ⟨hv, h⟩
    · split
      · exact ⟨hv, h.2⟩
      · exact ⟨h.1, ih h.2⟩

mutual

/-- A canonical value is sorted. -/
theorem canonical_sorted : ∀ v : Value, v.canonical.Sorted
  | .null => trivial
  | .bool _ => trivial
  | .number _ => trivial
  | .string _ => trivial
  | .array items => canonicalItems_sorted items
  | .object members =>
    canonicalMembers_sorted members [] Ascending.nil trivial

theorem canonicalItems_sorted : ∀ items : List Value, SortedItems (canonicalItems items)
  | [] => trivial
  | item :: items => ⟨canonical_sorted item, canonicalItems_sorted items⟩

theorem canonicalMembers_sorted : ∀ (members sorted : List (String × Value)),
    Ascending sorted → SortedMembers sorted →
      Ascending (canonicalMembers sorted members) ∧
        SortedMembers (canonicalMembers sorted members)
  | [], _, ha, hs => ⟨ha, hs⟩
  | (key, value) :: members, _, ha, hs =>
    canonicalMembers_sorted members _ (Ascending.put_ascending key _ ha)
      (sortedMembers_put (canonical_sorted value) hs)

end

/-! ## Values and trees -/

mutual

/-- The syntax tree of a value, members in the order of the value. -/
def toTree : Value → Tree
  | .null => .null
  | .bool b => .bool b
  | .number n => .number n.toNumeral
  | .string s => .text s
  | .array items => .array (itemTrees items)
  | .object members => .object (memberTrees members)
termination_by structural v => v

def itemTrees : List Value → List Tree
  | [] => []
  | item :: items => toTree item :: itemTrees items
termination_by structural items => items

def memberTrees : List (String × Value) → List (Option String × Tree)
  | [] => []
  | (key, value) :: members => (some key, toTree value) :: memberTrees members
termination_by structural members => members

end

/-- The compact text of a value. -/
def compact (v : Value) : String := v.toTree.compact

/-- The compact text of the canonical form: the same for equal values, however their members are
ordered. -/
def canonicalText (v : Value) : String := v.canonical.compact

mutual

/-- The value of a tree as it stands, members in the order of the tree. Fails on numbers beyond
the largest double, on texts with lone surrogates, and when more than `levels` arrays and objects
are open at once. -/
def ofTreeUnsorted? (levels : Nat) : Tree → Option Value
  | .null => some .null
  | .bool b => some (.bool b)
  | .number n => (Number.ofNumeral? n).map .number
  | .string s => s.map .string
  | .array items =>
    match levels with
    | 0 => none
    | levels + 1 => (ofItems? levels items).map .array
  | .object members =>
    match levels with
    | 0 => none
    | levels + 1 => (ofMembers? levels members).map .object
termination_by structural tree => tree

def ofItems? (levels : Nat) : List Tree → Option (List Value)
  | [] => some []
  | item :: items =>
    match ofTreeUnsorted? levels item, ofItems? levels items with
    | some item, some items => some (item :: items)
    | _, _ => none
termination_by structural items => items

def ofMembers? (levels : Nat) :
    List (Option String × Tree) → Option (List (String × Value))
  | [] => some []
  | (key, value) :: members =>
    match key, ofTreeUnsorted? levels value, ofMembers? levels members with
    | some key, some value, some members => some ((key, value) :: members)
    | _, _, _ => none
termination_by structural members => members

end

/-- The canonical value of a tree in which at most `levels` arrays and objects are open at once. -/
def ofTree? (levels : Nat) (tree : Tree) : Option Value :=
  (ofTreeUnsorted? levels tree).map canonical

end Value

end Newsletter.Json
