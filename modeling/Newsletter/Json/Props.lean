/-
Property bags: JSON objects with their keys in ascending order at every depth.
-/
import Newsletter.Json.Decoder

namespace Newsletter

open Json

/-- The free-form properties of a node. -/
structure Props where
  entries : List (String × Value)
  sorted : (Value.object entries).Sorted

namespace Props

def empty : Props := ⟨[], Ascending.nil, trivial⟩

instance : Inhabited Props := ⟨empty⟩

/-- The properties with the given members; of several with one key the last one counts. -/
def ofMembers (members : List (String × Value)) : Props :=
  ⟨Value.canonicalMembers [] members, Value.canonical_sorted (.object members)⟩

/-- The value stored under `key`, if there is one. -/
def get? (props : Props) (key : String) : Option Value := props.entries.lookup key

/-- The text stored under `key`, if there is a text. -/
def text? (props : Props) (key : String) : Option String :=
  match props.get? key with
  | some (.string s) => some s
  | _ => none

/-- Stores a text under `key`. -/
def setText (props : Props) (key text : String) : Props :=
  ⟨Ascending.put key (.string text) props.entries,
   Ascending.put_ascending key _ props.sorted.1,
   Value.sortedMembers_put trivial props.sorted.2⟩

def toValue (props : Props) : Value := .object props.entries

def toTree (props : Props) : Tree := props.toValue.toTree

/-- The compact JSON text of the properties. -/
def compact (props : Props) : String := props.toTree.compact

@[ext] theorem ext {p q : Props} (h : p.entries = q.entries) : p = q := by
  cases p; cases q; simp_all

/-- The properties that a JSON object holds. -/
def decoder : Decoder Props := fun levels tree =>
  match Value.ofTreeUnsorted? levels tree with
  | some (.object members) => some (ofMembers members)
  | _ => none

end Props

end Newsletter
