/-
Typed readers of syntax trees. A record is given as an object, in which unknown members are skipped
and known ones may not repeat, or as an array of its fields in order. Every reader is told how many
arrays and objects may still be opened, so that deep nesting is refused.
-/
import Newsletter.Json.Value

namespace Newsletter.Json

/-- The greatest number of arrays and objects that may be open at once. -/
def maxLevels : Nat := 127

/-- Reads a typed value from a tree in which at most a given number of arrays and objects are open
at once. -/
abbrev Decoder (α : Type) := Nat → Tree → Option α

namespace Decoder

variable {α : Type}

/-! ## Plain types -/

def string : Decoder String
  | _, .string s => s
  | _, _ => none

def bool : Decoder Bool
  | _, .bool b => some b
  | _, _ => none

/-- Any JSON value. -/
def value : Decoder Value := Value.ofTree?

/-- Any number. -/
def number : Decoder Number
  | _, .number n => Number.ofNumeral? n
  | _, _ => none

/-- An integer numeral from zero up to, but without, `bound`. -/
def natBelow (bound : Nat) : Decoder Nat
  | _, .number n =>
    match Number.integer? n with
    | some i => if 0 ≤ i.value ∧ i.value < bound then some i.value.toNat else none
    | none => none
  | _, _ => none

/-- A natural number of 64 bits. -/
def nat64 : Decoder Nat := natBelow 0x10000000000000000

/-- A byte. -/
def byte : Decoder UInt8 := fun levels tree => (natBelow 256 levels tree).map UInt8.ofNat

/-- One of a set of words: as a text, or as the only key of an object whose value is null. -/
def word (ofText? : String → Option α) : Decoder α
  | _, .string s => s.bind ofText?
  | _ + 1, .object [(key, .null)] => key.bind ofText?
  | _, _ => none

/-- `null` or a value. -/
def optional (d : Decoder α) : Decoder (Option α)
  | _, .null => some none
  | levels, tree => (d levels tree).map some

/-- An array. -/
def list (d : Decoder α) : Decoder (List α)
  | levels + 1, .array items => items.mapM (d levels)
  | _, _ => none

/-- A member of an object, given a reader of its value. -/
def member? (d : Tree → Option α) : Option String × Tree → Option (String × α)
  | (some key, tree) => (d tree).map fun a => (key, a)
  | (none, _) => none

/-- An object with arbitrary keys; of several members with one key the last one counts. -/
def dict (d : Decoder α) : Decoder (Dict α)
  | levels + 1, .object members =>
    (members.mapM (member? (d levels))).map Dict.ofList
  | _, _ => none

end Decoder

/-! ## Records -/

/-- The fields found in a record, each with its tree. -/
abbrev Fields := List (String × Tree)

namespace Fields

/-- The members of an object that have one of the `names`; fails on a repeated one and on a key
that stands for no text. -/
def ofMembers? (names : List String) : List (Option String × Tree) → Option Fields
  | [] => some []
  | (none, _) :: _ => none
  | (some key, tree) :: members =>
    match ofMembers? names members with
    | none => none
    | some fields =>
      if key ∈ names then
        if (fields.lookup key).isSome then none else some ((key, tree) :: fields)
      else some fields

/-- The fields of a record with the given field names: by name from an object, by position from
an array, which may end early but not go on. -/
def ofTree? (names : List String) : Tree → Option Fields
  | .object members => ofMembers? names members
  | .array items => if items.length ≤ names.length then some (names.zip items) else none
  | _ => none

variable {α : Type}

/-- A field that must be there. -/
def required (fields : Fields) (levels : Nat) (name : String) (d : Decoder α) : Option α :=
  (fields.lookup name).bind (d levels)

/-- A field that has the value `absent` when it is missing. -/
def withDefault (fields : Fields) (levels : Nat) (name : String) (d : Decoder α) (absent : α) :
    Option α :=
  match fields.lookup name with
  | none => some absent
  | some tree => d levels tree

/-- A field that may be missing or null. -/
def optional (fields : Fields) (levels : Nat) (name : String) (d : Decoder α) :
    Option (Option α) :=
  fields.withDefault levels name (Decoder.optional d) none

end Fields

/-- A record with the given field names, in order. -/
def Decoder.record {α : Type} (names : List String) (build : Fields → Nat → Option α) :
    Decoder α
  | 0, _ => none
  | levels + 1, tree => (Fields.ofTree? names tree).bind fun fields => build fields levels

/-- Reads a JSON text as a typed value. -/
def Decoder.read? {α : Type} (d : Decoder α) (text : String) : Option α :=
  (Tree.read? text).bind (d maxLevels)

end Newsletter.Json
