/-
Values that are given back by the texts they are written as. Main statement: where a reader gives a
value back from its tree whenever as many levels may be open as the tree has, it gives the value back
from the compact and from the indented text of the tree, unless these have more nested levels than
any reader opens. One lemma for each part that trees of values are made of.
-/
import Newsletter.Proofs.Json.Nesting
import Newsletter.Proofs.Json.Values

namespace Newsletter

open Json

/-- What follows a value that is there on a condition is there on that condition. -/
theorem Option.bind_ite_none {α β : Type} (p : Prop) [Decidable p] (a : α) (f : α → Option β) :
    (if p then some a else none).bind f = if p then f a else none := by
  split <;> rfl

theorem Json.Tree.levelsFields_perm {found fields : Fields} (h : found.Perm fields) :
    Tree.levelsFields found = Tree.levelsFields fields := by
  induction h with
  | nil => rfl
  | cons field h ih =>
    obtain ⟨key, tree⟩ := field
    rw [Tree.levelsFields_cons, Tree.levelsFields_cons, ih]
  | swap first second fields =>
    obtain ⟨key, tree⟩ := first
    obtain ⟨other, value⟩ := second
    simp only [Tree.levelsFields_cons]
    exact Nat.max_left_comm ..
  | trans h h' ih ih' => exact ih.trans ih'

namespace Json.Decoder

variable {α : Type}

/-! ## Readers and texts -/

/-- A reader gives a value back from a tree if as many levels may be open as the tree has, and gives
nothing if fewer may be. -/
def Restores (d : Decoder α) (tree : Tree) (a : α) : Prop :=
  ∀ levels, d levels tree = if tree.levels ≤ levels then some a else none

/-- A reader gives a value back from both texts of a tree, unless they have too many nested levels;
then it gives nothing. -/
def RestoresTexts (d : Decoder α) (tree : Tree) (a : α) : Prop :=
  ∀ text ∈ [tree.compact, tree.pretty],
    d.read? text = if Tree.nesting text ≤ maxLevels then some a else none

theorem Restores.texts {d : Decoder α} {tree : Tree} {a : α} (h : d.Restores tree a) :
    d.RestoresTexts tree a := by
  have hread : ∀ text, Tree.read? text = some tree → Tree.nesting text = tree.levels →
      d.read? text = if Tree.nesting text ≤ maxLevels then some a else none := by
    intro text htext hnesting
    rw [read?, htext, hnesting, Option.bind_some, h]
  intro text htext
  rcases List.mem_pair.1 htext with rfl | rfl
  · exact hread _ (Tree.read?_compact tree) (Tree.nesting_compact tree)
  · exact hread _ (Tree.read?_pretty tree) (Tree.nesting_pretty tree)

/-! ## Parts of trees -/

theorem restores_string (s : String) : string.Restores (.text s) s :=
  fun levels => (if_pos (Nat.zero_le levels)).symm

theorem restores_byte (b : UInt8) : byte.Restores (.nat b.toNat) b := by
  intro levels
  rw [Tree.levels_nat, if_pos (Nat.zero_le levels), byte, natBelow_nat (by decide),
    if_pos b.toNat_lt, Option.map_some, UInt8.ofNat_toNat]

theorem mapM_restores {d : Decoder α} {tree : α → Tree} {l : List α}
    (h : ∀ a ∈ l, d.Restores (tree a) a) (levels : ℕ) : (l.map tree).mapM (d levels) =
      if Tree.levelsItems (l.map tree) ≤ levels then some l else none := by
  induction l with
  | nil => exact (if_pos (Nat.zero_le levels)).symm
  | cons a l ih =>
    obtain ⟨ha, hl⟩ := List.forall_mem_cons.1 h
    rw [List.map_cons, List.mapM_cons, ha, ih hl, Tree.levelsItems]
    simp only [Nat.max_le, Option.bind_eq_bind, Option.bind_ite_none, ite_and]
    rfl

theorem restores_list {d : Decoder α} {tree : α → Tree} {l : List α}
    (h : ∀ a ∈ l, d.Restores (tree a) a) : (list d).Restores (.array (l.map tree)) l := by
  intro levels
  rw [Tree.levels]
  cases levels with
  | zero => exact (if_neg (Nat.not_succ_le_zero _)).symm
  | succ levels =>
    rw [list_array, mapM_restores h]
    simp only [Nat.add_le_add_iff_right]

theorem Restores.required {d : Decoder α} {tree : Tree} {a : α} (h : d.Restores tree a)
    {fields : Fields} {name : String} (hname : fields.lookup name = some tree) (levels : ℕ) :
    fields.required levels name d = if tree.levels ≤ levels then some a else none := by
  rw [Fields.required_eq hname, h]

/-- A record is given back from its fields, whatever their order, if each field is. -/
theorem record_perm {names : List String} {build : Fields → ℕ → Option α} {found fields : Fields}
    (h : found.Perm fields) (hnames : fields.map (·.1) = names) (hnodup : names.Nodup) {a : α}
    (hbuild : ∀ found : Fields, (∀ name, found.lookup name = fields.lookup name) → ∀ levels,
      build found levels = if Tree.levelsFields fields ≤ levels then some a else none) :
    (record names build).Restores (.record found) a := by
  obtain ⟨hfound, hlookup⟩ := Fields.ofTree?_perm h hnames hnodup
  intro levels
  rw [Tree.levels_record, Tree.levelsFields_perm h]
  cases levels with
  | zero => exact (if_neg (Nat.not_succ_le_zero _)).symm
  | succ levels =>
    unfold record
    dsimp only
    rw [hfound, Option.bind_some, hbuild found hlookup]
    simp only [Nat.add_le_add_iff_right]

end Json.Decoder

/-! ## Trees that stand for values -/

namespace Json.Tree

/-- What some value is written as. -/
def IsValue (tree : Tree) : Prop := ∃ v : Value, v.toTree = tree

theorem IsValue.isSome_ofTree? {tree : Tree} (h : tree.IsValue) (levels : ℕ) :
    (Value.ofTree? levels tree).isSome = decide (tree.levels ≤ levels) := by
  obtain ⟨v, rfl⟩ := h
  rw [Value.ofTree?, Option.isSome_map, Value.ofTreeUnsorted?_toTree]
  split <;> simp [*]

theorem isValue_text (s : String) : (text s).IsValue := ⟨.string s, rfl⟩

theorem isValue_nat {n : ℕ} (h : n < 0x10000000000000000) : (nat n).IsValue :=
  ⟨.number (.ofNat n h), number_ofNat n h⟩

theorem isValue_array {items : List Tree} (h : ∀ item ∈ items, item.IsValue) :
    (array items).IsValue := by
  obtain ⟨values, hvalues⟩ : ∃ values, Value.itemTrees values = items := by
    induction items with
    | nil => exact ⟨[], rfl⟩
    | cons item items ih =>
      obtain ⟨⟨v, hv⟩, hitems⟩ := List.forall_mem_cons.1 h
      obtain ⟨values, hvalues⟩ := ih hitems
      exact ⟨v :: values, by rw [Value.itemTrees, hv, hvalues]⟩
  exact ⟨.array values, congrArg array hvalues⟩

theorem isValue_record {fields : Fields} (h : ∀ field ∈ fields, field.2.IsValue) :
    (record fields).IsValue := by
  obtain ⟨members, hmembers⟩ : ∃ members : List (String × Value),
      (members.map fun member => (member.1, member.2.toTree)) = fields := by
    induction fields with
    | nil => exact ⟨[], rfl⟩
    | cons field fields ih =>
      obtain ⟨⟨v, hv⟩, hfields⟩ := List.forall_mem_cons.1 h
      obtain ⟨members, hmembers⟩ := ih hfields
      exact ⟨(field.1, v) :: members, by rw [List.map_cons, hv, hmembers]⟩
  exact ⟨.object members, by rw [Value.toTree_object, hmembers]⟩

end Json.Tree

end Newsletter
