/-
Values as texts. Main statements: the tree of a value is read back by a reader that opens as many
arrays and objects as the value has inside one another, and by no other; and the values that some
text is read as are exactly those that have no more of them than any reader opens and have the
members of every object, at every depth, in order.
-/
import Newsletter.Proofs.Json.Numbers
import Newsletter.Proofs.Json.Records
import Newsletter.Proofs.Json.Spelling

namespace Newsletter.Json.Value

/-! ## Sorted values -/

mutual

/-- A sorted value is its own canonical form. -/
theorem canonical_eq : ∀ {v : Value}, v.Sorted → v.canonical = v
  | .null, _ => rfl
  | .bool _, _ => rfl
  | .number _, _ => rfl
  | .string _, _ => rfl
  | .array items, h => by rw [canonical, canonicalItems_eq h]
  | .object members, h => by
    have hmembers : canonicalMembers [] members = [] ++ members := canonicalMembers_eq h.1 h.2
    rw [canonical, hmembers, List.nil_append]

theorem canonicalItems_eq : ∀ {items : List Value}, SortedItems items → canonicalItems items = items
  | [], _ => rfl
  | item :: items, h => by rw [canonicalItems, canonical_eq h.1, canonicalItems_eq h.2]

theorem canonicalMembers_eq : ∀ {members sorted : List (String × Value)},
    Ascending (sorted ++ members) → SortedMembers members →
      canonicalMembers sorted members = sorted ++ members
  | [], sorted, _, _ => by rw [canonicalMembers, List.append_nil]
  | (key, value) :: members, sorted, h, hsorted => by
    have hbefore : ∀ entry ∈ sorted, entry.1 < key := fun entry hentry =>
      (List.pairwise_append.1 h).2.2 entry hentry _ List.mem_cons_self
    have happend : sorted ++ (key, value) :: members = (sorted ++ [(key, value)]) ++ members := by
      rw [List.append_assoc, List.singleton_append]
    rw [canonicalMembers, canonical_eq hsorted.1, Ascending.put_eq_append value hbefore, happend]
    exact canonicalMembers_eq (happend ▸ h) hsorted.2

end

theorem sortedItems_iff {items : List Value} : SortedItems items ↔ ∀ item ∈ items, item.Sorted := by
  induction items with
  | nil => simp [SortedItems]
  | cons item items ih => simp [SortedItems, ih]

/-! ## Trees of values -/

mutual

/-- The tree of a value is read as that value, if so many levels may be open. -/
theorem ofTreeUnsorted?_toTree : ∀ (v : Value) (levels : ℕ),
    ofTreeUnsorted? levels v.toTree = if v.toTree.levels ≤ levels then some v else none
  | .null, levels => (if_pos (Nat.zero_le levels)).symm
  | .bool b, levels => (if_pos (Nat.zero_le levels)).symm
  | .string s, levels => (if_pos (Nat.zero_le levels)).symm
  | .number n, levels => by
    rw [toTree, ofTreeUnsorted?, n.ofNumeral?_toNumeral]
    exact (if_pos (Nat.zero_le levels)).symm
  | .array items, 0 => by rw [toTree, Tree.levels, if_neg (Nat.not_succ_le_zero _)]; rfl
  | .object members, 0 => by rw [toTree, Tree.levels, if_neg (Nat.not_succ_le_zero _)]; rfl
  | .array items, levels + 1 => by
    rw [toTree, ofTreeUnsorted?, ofItems?_itemTrees items levels, Tree.levels]
    simp only [Nat.add_le_add_iff_right]
    split <;> rfl
  | .object members, levels + 1 => by
    rw [toTree, ofTreeUnsorted?, ofMembers?_memberTrees members levels, Tree.levels]
    simp only [Nat.add_le_add_iff_right]
    split <;> rfl

theorem ofItems?_itemTrees : ∀ (items : List Value) (levels : ℕ),
    ofItems? levels (itemTrees items) =
      if Tree.levelsItems (itemTrees items) ≤ levels then some items else none
  | [], levels => (if_pos (Nat.zero_le levels)).symm
  | item :: items, levels => by
    have hitem := ofTreeUnsorted?_toTree item levels
    have hitems := ofItems?_itemTrees items levels
    simp only [itemTrees, ofItems?, hitem, hitems, Tree.levelsItems, Nat.max_le]
    by_cases hfirst : item.toTree.levels ≤ levels
    · by_cases hrest : Tree.levelsItems (itemTrees items) ≤ levels
      · simp [hfirst, hrest]
      · simp [hrest]
    · simp [hfirst]

theorem ofMembers?_memberTrees : ∀ (members : List (String × Value)) (levels : ℕ),
    ofMembers? levels (memberTrees members) =
      if Tree.levelsMembers (memberTrees members) ≤ levels then some members else none
  | [], levels => (if_pos (Nat.zero_le levels)).symm
  | (key, value) :: members, levels => by
    have hvalue := ofTreeUnsorted?_toTree value levels
    have hmembers := ofMembers?_memberTrees members levels
    simp only [memberTrees, Tree.levelsMembers, Nat.max_le]
    by_cases hfirst : value.toTree.levels ≤ levels
    · rw [if_pos hfirst] at hvalue
      by_cases hrest : Tree.levelsMembers (memberTrees members) ≤ levels
      · rw [if_pos hrest] at hmembers
        simp [ofMembers?, hvalue, hmembers, hfirst, hrest]
      · rw [if_neg hrest] at hmembers
        simp [ofMembers?, hvalue, hmembers, hrest]
    · rw [if_neg hfirst] at hvalue
      simp [ofMembers?, hvalue, hfirst]

end

mutual

/-- A value that was read has no more levels than were open. -/
theorem levels_of_ofTreeUnsorted? : ∀ {tree : Tree} {levels : ℕ} {v : Value},
    ofTreeUnsorted? levels tree = some v → v.toTree.levels ≤ levels
  | .null, levels, v, h => by cases h; exact Nat.zero_le _
  | .bool b, levels, v, h => by cases h; exact Nat.zero_le _
  | .number n, levels, v, h => by
    obtain ⟨n, -, rfl⟩ := Option.map_eq_some_iff.1 h
    exact Nat.zero_le _
  | .string s, levels, v, h => by
    obtain ⟨s, -, rfl⟩ := Option.map_eq_some_iff.1 h
    exact Nat.zero_le _
  | .array items, 0, v, h => by cases h
  | .object members, 0, v, h => by cases h
  | .array items, levels + 1, v, h => by
    rw [ofTreeUnsorted?] at h
    obtain ⟨found, hfound, rfl⟩ := Option.map_eq_some_iff.1 h
    rw [toTree, Tree.levels]
    exact Nat.succ_le_succ (levels_of_ofItems? hfound)
  | .object members, levels + 1, v, h => by
    rw [ofTreeUnsorted?] at h
    obtain ⟨found, hfound, rfl⟩ := Option.map_eq_some_iff.1 h
    rw [toTree, Tree.levels]
    exact Nat.succ_le_succ (levels_of_ofMembers? hfound)

theorem levels_of_ofItems? : ∀ {trees : List Tree} {levels : ℕ} {items : List Value},
    ofItems? levels trees = some items → Tree.levelsItems (itemTrees items) ≤ levels
  | [], levels, items, h => by cases h; exact Nat.zero_le _
  | tree :: trees, levels, items, h => by
    rw [ofItems?] at h
    split at h
    · rename_i item rest hitem hrest
      cases h
      exact Nat.max_le.2 ⟨levels_of_ofTreeUnsorted? hitem, levels_of_ofItems? hrest⟩
    · cases h

theorem levels_of_ofMembers? : ∀ {trees : List (Option String × Tree)} {levels : ℕ}
    {members : List (String × Value)}, ofMembers? levels trees = some members →
      Tree.levelsMembers (memberTrees members) ≤ levels
  | [], levels, members, h => by cases h; exact Nat.zero_le _
  | (key, tree) :: trees, levels, members, h => by
    unfold ofMembers? at h
    split at h
    · rename_i value rest hvalue hrest
      cases h
      exact Nat.max_le.2 ⟨levels_of_ofTreeUnsorted? hvalue, levels_of_ofMembers? hrest⟩
    · cases h

end

/-! ## Levels of canonical values -/

theorem levels_put (key : String) (value : Value) (members : List (String × Value)) :
    Tree.levelsMembers (memberTrees (Ascending.put key value members)) ≤
      max value.toTree.levels (Tree.levelsMembers (memberTrees members)) := by
  induction members with
  | nil => exact Nat.le_refl _
  | cons member members ih =>
    obtain ⟨other, found⟩ := member
    rw [Ascending.put]
    split
    · exact Nat.le_refl _
    · split
      · simp only [memberTrees, Tree.levelsMembers]
        omega
      · simp only [memberTrees, Tree.levelsMembers]
        omega

mutual

/-- The canonical form has no more levels; members that repeat a key may take some with them. -/
theorem levels_canonical : ∀ v : Value, v.canonical.toTree.levels ≤ v.toTree.levels
  | .null => Nat.le_refl _
  | .bool _ => Nat.le_refl _
  | .number _ => Nat.le_refl _
  | .string _ => Nat.le_refl _
  | .array items => by
    rw [canonical, toTree, toTree, Tree.levels, Tree.levels]
    exact Nat.succ_le_succ (levels_canonicalItems items)
  | .object members => by
    rw [canonical, toTree, toTree, Tree.levels, Tree.levels]
    refine Nat.succ_le_succ ((levels_canonicalMembers members []).trans_eq ?_)
    exact Nat.zero_max _

theorem levels_canonicalItems : ∀ items : List Value,
    Tree.levelsItems (itemTrees (canonicalItems items)) ≤ Tree.levelsItems (itemTrees items)
  | [] => Nat.le_refl _
  | item :: items => by
    have hitem := levels_canonical item
    have hitems := levels_canonicalItems items
    simp only [canonicalItems, itemTrees, Tree.levelsItems]
    omega

theorem levels_canonicalMembers : ∀ members sorted : List (String × Value),
    Tree.levelsMembers (memberTrees (canonicalMembers sorted members)) ≤
      max (Tree.levelsMembers (memberTrees sorted)) (Tree.levelsMembers (memberTrees members))
  | [], sorted => Nat.le_max_left _ _
  | (key, value) :: members, sorted => by
    have hvalue := levels_canonical value
    have hput := levels_put key value.canonical sorted
    have hmembers := levels_canonicalMembers members (Ascending.put key value.canonical sorted)
    simp only [canonicalMembers, memberTrees, Tree.levelsMembers]
    omega

end

/-! ## Values that are read from texts -/

/-- The text of a value is read as its canonical form, if a reader opens as many levels as it has. -/
theorem read?_compact (v : Value) : Decoder.value.read? v.compact =
    if v.toTree.levels ≤ maxLevels then some v.canonical else none := by
  rw [Decoder.read?, compact, Tree.read?_compact, Option.bind_some, Decoder.value, ofTree?,
    ofTreeUnsorted?_toTree]
  split <;> rfl

/-- A value that a text can stand for. -/
structure Readable (v : Value) : Prop where
  sorted : v.Sorted
  levels : v.toTree.levels ≤ maxLevels

/-- The values that texts stand for; each is read from its own text. -/
theorem readable_iff {v : Value} :
    v.Readable ↔ ∃ text, Decoder.value.read? text = some v := by
  constructor
  · intro h
    refine ⟨v.compact, ?_⟩
    rw [read?_compact, if_pos h.levels, canonical_eq h.sorted]
  · rintro ⟨text, htext⟩
    obtain ⟨tree, -, hvalue⟩ := Option.bind_eq_some_iff.1 htext
    obtain ⟨found, hfound, rfl⟩ := Option.map_eq_some_iff.1 hvalue
    have hlevels := levels_of_ofTreeUnsorted? hfound
    exact ⟨canonical_sorted found, (levels_canonical found).trans hlevels⟩

theorem Readable.item {items : List Value} (h : (array items).Readable) {item : Value}
    (hitem : item ∈ items) : item.Readable := by
  have hlevels := h.levels
  rw [toTree, Tree.levels] at hlevels
  refine ⟨sortedItems_iff.1 h.sorted item hitem, ?_⟩
  have hitemLevels : item.toTree.levels ≤ Tree.levelsItems (itemTrees items) := by
    clear h hlevels
    induction items with
    | nil => cases hitem
    | cons first items ih =>
      rw [itemTrees, Tree.levelsItems]
      rcases List.mem_cons.1 hitem with rfl | hitem
      · exact Nat.le_max_left _ _
      · exact (ih hitem).trans (Nat.le_max_right _ _)
  omega

theorem Readable.lookup {members : List (String × Value)} (h : (object members).Readable)
    {key : String} {value : Value} (hvalue : members.lookup key = some value) :
    value.Readable := by
  have hlevels := h.levels
  rw [toTree, Tree.levels] at hlevels
  have hmem : (key, value) ∈ members := by
    obtain ⟨before, after, rfl, -⟩ := List.lookup_eq_some_iff.1 hvalue
    exact List.mem_append_right _ List.mem_cons_self
  refine ⟨sortedMembers_iff.1 h.sorted.2 _ hmem, ?_⟩
  have hvalueLevels : value.toTree.levels ≤ Tree.levelsMembers (memberTrees members) := by
    clear h hlevels hvalue
    induction members with
    | nil => cases hmem
    | cons first members ih =>
      obtain ⟨other, found⟩ := first
      rw [memberTrees, Tree.levelsMembers]
      rcases List.mem_cons.1 hmem with heq | hmem
      · cases heq
        exact Nat.le_max_left _ _
      · exact (ih hmem).trans (Nat.le_max_right _ _)
  omega

end Newsletter.Json.Value
