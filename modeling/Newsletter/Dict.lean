/-
Dictionaries with text keys, kept as association lists in strictly ascending key order (by code
point). Main statements: storing under a key keeps the order, the stored value is found under that
key, and every other key finds what it found before.
-/

namespace Newsletter

/-! ## Association lists in key order -/

/-- Every key is smaller than all keys after it. -/
def Ascending {α : Type} (entries : List (String × α)) : Prop :=
  entries.Pairwise (fun a b => a.1 < b.1)

instance {α : Type} (entries : List (String × α)) : Decidable (Ascending entries) :=
  inferInstanceAs (Decidable (List.Pairwise _ _))

namespace Ascending

/-- Stores `value` under `key`: in place of an older value, else where the key belongs. -/
def put {α : Type} (key : String) (value : α) : List (String × α) → List (String × α)
  | [] => [(key, value)]
  | (k, v) :: rest =>
    if key < k then (key, value) :: (k, v) :: rest
    else if key = k then (key, value) :: rest
    else (k, v) :: put key value rest

/-- The keys after storing are the new key and the old ones. -/
theorem mem_keys_put {α : Type} {key k : String} {value : α} {entries : List (String × α)} :
    k ∈ (put key value entries).map Prod.fst ↔ k = key ∨ k ∈ entries.map Prod.fst := by
  induction entries with
  | nil => simp [put]
  | cons head rest ih =>
    obtain ⟨k', v⟩ := head
    simp only [put]
    split
    · simp
    · split
      · rename_i h; subst h; simp
      · simp only [List.map_cons, List.mem_cons, ih]
        grind

theorem nil {α : Type} : Ascending ([] : List (String × α)) := List.Pairwise.nil

theorem cons_iff {α : Type} {head : String × α} {rest : List (String × α)} :
    Ascending (head :: rest) ↔ (∀ k ∈ rest.map Prod.fst, head.1 < k) ∧ Ascending rest := by
  simp [Ascending, List.pairwise_cons]

theorem lt_of_not_lt_of_ne {a b : String} (hlt : ¬a < b) (hne : a ≠ b) : b < a := by
  by_cases h : b < a
  · exact h
  · exact absurd (String.le_antisymm (String.not_lt.mp h) (String.not_lt.mp hlt)) hne

/-- Storing keeps the keys in ascending order. -/
theorem put_ascending {α : Type} (key : String) (value : α) {entries : List (String × α)}
    (h : Ascending entries) : Ascending (put key value entries) := by
  induction entries with
  | nil => simp [put, cons_iff, Ascending.nil]
  | cons head rest ih =>
    obtain ⟨k, v⟩ := head
    obtain ⟨hk, hrest⟩ := cons_iff.mp h
    simp only [put]
    split
    · rename_i hlt
      refine cons_iff.mpr ⟨?_, h⟩
      intro k' hk'
      rcases List.mem_cons.mp hk' with rfl | hmem
      · exact hlt
      · exact String.lt_trans hlt (hk k' hmem)
    · rename_i hlt
      split
      · rename_i heq; subst heq
        exact cons_iff.mpr ⟨hk, hrest⟩
      · rename_i hne
        refine cons_iff.mpr ⟨?_, ih hrest⟩
        intro k' hk'
        rcases mem_keys_put.mp hk' with rfl | hmem
        · exact lt_of_not_lt_of_ne hlt hne
        · exact hk k' hmem

/-- A key above all others is stored at the end. -/
theorem put_eq_append {α : Type} {key : String} (value : α) {entries : List (String × α)}
    (h : ∀ entry ∈ entries, entry.1 < key) : put key value entries = entries ++ [(key, value)] := by
  induction entries with
  | nil => rfl
  | cons entry entries ih =>
    obtain ⟨k, v⟩ := entry
    have hlt : k < key := h _ List.mem_cons_self
    rw [put, if_neg (String.lt_asymm hlt), if_neg (fun heq => String.lt_irrefl _ (heq ▸ hlt)),
      ih fun e he => h e (List.mem_cons_of_mem _ he)]
    rfl

end Ascending

/-! ## Dictionaries -/

/-- A finite map from texts, with its entries in ascending key order. -/
structure Dict (α : Type) where
  entries : List (String × α)
  ascending : Ascending entries

namespace Dict

variable {α : Type}

def empty : Dict α := ⟨[], Ascending.nil⟩

instance : Inhabited (Dict α) := ⟨empty⟩

def isEmpty (d : Dict α) : Bool := d.entries.isEmpty

/-- The value stored under `key`, if there is one. -/
def get? (d : Dict α) (key : String) : Option α := d.entries.lookup key

/-- Stores `value` under `key`, replacing what was there. -/
def insert (d : Dict α) (key : String) (value : α) : Dict α :=
  ⟨Ascending.put key value d.entries, Ascending.put_ascending key value d.ascending⟩

/-- The dictionary of a list of entries; of several values under one key the last counts. -/
def ofList (entries : List (String × α)) : Dict α :=
  entries.foldl (fun d entry => d.insert entry.1 entry.2) empty

@[ext] theorem ext {d e : Dict α} (h : d.entries = e.entries) : d = e := by
  cases d; cases e; simp_all

/-- What is found after storing. -/
theorem get?_insert (d : Dict α) (key other : String) (value : α) :
    (d.insert key value).get? other = if other = key then some value else d.get? other := by
  simp only [get?, insert]
  induction d.entries with
  | nil => simp only [Ascending.put, List.lookup_cons, List.lookup_nil]; grind
  | cons head rest ih =>
    obtain ⟨k, v⟩ := head
    simp only [Ascending.put]
    grind

end Dict

end Newsletter
