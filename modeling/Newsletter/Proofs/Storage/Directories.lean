/-
Directories under paths. Main facts: a path leads to a directory exactly if all its names can be
walked, and one can be made exactly where its last name stands for nothing; and where either holds,
the paths above it lead to directories.
-/
import Newsletter.Proofs.Path.Ancestors
import Newsletter.Proofs.Storage.Place
import Mathlib.Data.String.Basic

namespace Newsletter.FileTree

/-! ## Walks -/

theorem walk_append (tree : FileTree) (first rest : List String) : ∀ place : Place,
    tree.walk place (first ++ rest) =
      (tree.walk place first).bind fun found => tree.walk found rest := by
  induction first with
  | nil => exact fun _ => rfl
  | cons name first ih =>
    intro place
    rw [List.cons_append, walk_cons, walk_cons]
    cases tree.enter place name with
    | error error => rfl
    | ok found => exact ih found

/-- Names `.` make no difference to a walk. -/
theorem walk_filter (tree : FileTree) (names : List String) : ∀ place : Place,
    tree.walk place (names.filter (· ≠ ".")) = tree.walk place names := by
  induction names with
  | nil => exact fun _ => rfl
  | cons name names ih =>
    intro place
    by_cases hdot : name = "."
    · rw [List.filter_cons_of_neg (by simpa using hdot), walk_cons, hdot]
      exact ih place
    · rw [List.filter_cons_of_pos (by simpa using hdot), walk_cons, walk_cons]
      cases tree.enter place name with
      | error error => rfl
      | ok found => exact ih found

theorem walk_singleton (tree : FileTree) (place : Place) (name : String) :
    tree.walk place [name] = tree.enter place name := by
  rw [walk_cons]
  cases tree.enter place name <;> rfl

/-- A walk of names is one of the first of them. -/
theorem exists_walk_first {tree : FileTree} {place found : Place} {first names : List String}
    (hfirst : first <+: names) (h : tree.walk place names = .ok found) :
    ∃ middle, tree.walk place first = .ok middle := by
  obtain ⟨rest, rfl⟩ := hfirst
  rw [walk_append] at h
  cases hwalk : tree.walk place first with
  | error error => rw [hwalk] at h; cases h
  | ok middle => exact ⟨middle, rfl⟩

/-- A name that is not found stands for nothing. -/
theorem missing_of_enter {tree : FileTree} {place : Place} {name : String}
    (h : tree.enter place name = .error .notFound) : name ≠ "." ∧ name ≠ ".." ∧
      name.utf8ByteSize ≤ maxName ∧ tree.entry (place ++ [name]) = none := by
  unfold enter at h
  split at h
  · cases h
  rename_i hdot
  split at h
  · cases h
  rename_i hup
  split at h
  · cases h
  rename_i hsize
  split at h
  · rename_i hnone
    exact ⟨hdot, hup, Nat.not_lt.1 hsize, hnone⟩
  · cases h
  · cases h

/-- Where a name leads it led before, or it was missing. -/
theorem Alters.enter_before {files made : Place → Prop} {tree later : FileTree}
    (h : Alters files made tree later) {place found : Place} {name : String}
    (henter : later.enter place name = .ok found) :
    tree.enter place name = .ok found ∨ tree.enter place name = .error .notFound := by
  rcases enter_eq_ok_iff.1 henter with hdot | hup | ⟨hdot, hup, hsize, hentry, rfl⟩
  · exact .inl (enter_eq_ok_iff.2 (.inl hdot))
  · exact .inl (enter_eq_ok_iff.2 (.inr (.inl hup)))
  · have hchange := h.changes (place ++ [name])
    rw [hentry] at hchange
    rcases hchange.before_directory with hbefore | hbefore
    · exact .inl (enter_eq_ok_iff.2 (.inr (.inr ⟨hdot, hup, hsize, hbefore, rfl⟩)))
    · right
      rw [enter, if_neg hdot, if_neg hup, if_neg (Nat.not_lt.2 hsize), hbefore]

/-- Names that can be walked could be walked before, or one of them was missing. -/
theorem Alters.walk_before {files made : Place → Prop} {tree later : FileTree}
    (h : Alters files made tree later) :
    ∀ {names : List String} {place found : Place}, later.walk place names = .ok found →
      tree.walk place names = .ok found ∨ tree.walk place names = .error .notFound
  | [], _, _, hwalk => .inl hwalk
  | name :: names, place, found, hwalk => by
    rw [walk_cons] at hwalk ⊢
    cases henter : later.enter place name with
    | error error => rw [henter] at hwalk; cases hwalk
    | ok next =>
      rw [henter] at hwalk
      -- from a name that was missing before nothing else was walked
      rcases h.enter_before henter with hbefore | hbefore
      · rw [hbefore]
        exact h.walk_before hwalk
      · rw [hbefore]
        exact .inr rfl

theorem Alters.start_eq {files made : Place → Prop} {tree later : FileTree}
    (h : Alters files made tree later) (path : String) :
    later.start path = tree.start path := by
  unfold start
  rw [h.home]

/-! ## Looking up directories -/

/-- A path that is looked up at all. -/
structure Usable (path : String) : Prop where
  valid : '\x00' ∉ path.toList
  named : path ≠ ""
  short : path.utf8ByteSize ≤ maxPath

theorem usable_of_spot {tree : FileTree} {path : String} {spot : Spot}
    (h : tree.spot path = .ok spot) : Usable path := by
  unfold FileTree.spot at h
  split at h
  · cases h
  rename_i hvalid
  split at h
  · cases h
  rename_i hnamed
  split at h
  · cases h
  rename_i hshort
  exact ⟨hvalid, hnamed, by omega⟩

/-- A path without names leads to where it starts. -/
theorem spot_of_nil (tree : FileTree) {path : String} (h : Usable path)
    (hnames : Path.names path = []) : tree.spot path = .ok (.directory (tree.start path)) := by
  have hlast : ((Path.segments path).filter (· ≠ "")).getLast? = none :=
    List.getLast?_eq_none_iff.2 hnames
  unfold FileTree.spot
  rw [if_neg h.valid, if_neg h.named, if_neg (Nat.not_lt.2 h.short)]
  dsimp only
  rw [hlast]
  rfl

/-- What the last name of a path leads to, once the others are walked. -/
def spotIn (path last : String) (place : Place) : Spot :=
  if last = "." then .directory place
  else if last = ".." then .directory place.dropLast
  else .name place last (path.toList.getLast? = some '/')

/-- The last name of a path is looked up where the others lead. -/
theorem spot_of_concat (tree : FileTree) {path : String} {front : List String} {last : String}
    (h : Usable path) (hnames : Path.names path = front ++ [last]) :
    tree.spot path = (tree.walk (tree.start path) front).map (spotIn path last) := by
  have hlast : ((Path.segments path).filter (· ≠ "")).getLast? = some last :=
    List.getLast?_eq_some_iff.2 ⟨front, hnames⟩
  have hfront : ((Path.segments path).filter (· ≠ "")).dropLast = front := by
    rw [← Path.names, hnames, List.dropLast_concat]
  unfold FileTree.spot
  rw [if_neg h.valid, if_neg h.named, if_neg (Nat.not_lt.2 h.short)]
  dsimp only
  rw [hlast, hfront]
  dsimp only
  have hwalk : tree.walk (if Path.isAbsolute path then [] else tree.home) front =
      tree.walk (tree.start path) front := rfl
  rw [hwalk]
  cases tree.walk (tree.start path) front with
  | error error => rfl
  | ok place =>
    unfold spotIn Except.map
    dsimp only
    split
    · rfl
    · split <;> rfl

/-- A name in a directory leads to a directory if one is found there. -/
theorem isDirectory_of_name {tree : FileTree} {path : String} {parent : Place} {name : String}
    {slashed : Bool} (h : tree.spot path = .ok (.name parent name slashed)) :
    tree.isDirectory path = true ↔
      name.utf8ByteSize ≤ maxName ∧ tree.entry (parent ++ [name]) = some .directory := by
  unfold isDirectory stat
  rw [h]
  by_cases hsize : maxName < name.utf8ByteSize
  · have hentry : tree.entryIn parent name = .error .nameTooLong := if_pos hsize
    simp only [bind, Except.bind, hentry]
    exact iff_of_false nofun fun h => Nat.not_lt.2 h.1 hsize
  · have hentry : tree.entryIn parent name = .ok (tree.entry (parent ++ [name])) := if_neg hsize
    simp only [bind, Except.bind, hentry]
    rw [and_iff_right (Nat.not_lt.1 hsize)]
    cases tree.entry (parent ++ [name]) with
    | none => exact iff_of_false nofun nofun
    | some entry =>
      cases entry with
      | directory => exact iff_of_true rfl rfl
      | file content => cases slashed <;> exact iff_of_false nofun nofun

/-- A path leads to a directory exactly if all its names can be walked. -/
theorem isDirectory_iff {tree : FileTree} {path : String} : tree.isDirectory path = true ↔
    Usable path ∧ ∃ found, tree.walk (tree.start path) (Path.names path) = .ok found := by
  by_cases husable : Usable path
  · rw [and_iff_right husable]
    rcases List.eq_nil_or_concat (Path.names path) with hnames | ⟨front, last, hnames⟩
    · rw [hnames]
      refine iff_of_true ?_ ⟨_, rfl⟩
      unfold isDirectory stat
      rw [spot_of_nil tree husable hnames]
      rfl
    · rw [List.concat_eq_append] at hnames
      have hspot := spot_of_concat tree husable hnames
      rw [hnames, walk_append]
      cases hwalk : tree.walk (tree.start path) front with
      | error error =>
        rw [hwalk] at hspot
        unfold isDirectory stat
        rw [hspot]
        exact iff_of_false nofun nofun
      | ok place =>
        rw [hwalk] at hspot
        change tree.spot path = .ok (spotIn path last place) at hspot
        show tree.isDirectory path = true ↔ ∃ found, tree.walk place [last] = .ok found
        simp only [walk_singleton, enter_eq_ok_iff]
        -- `.` and `..` lead to a directory wherever they stand
        by_cases hdots : last = "." ∨ last = ".."
        · refine iff_of_true ?_ ?_
          · unfold isDirectory stat
            rw [hspot]
            unfold spotIn
            rcases hdots with rfl | rfl <;> rfl
          · rcases hdots with hdot | hup
            · exact ⟨place, .inl ⟨hdot, rfl⟩⟩
            · exact ⟨place.dropLast, .inr (.inl ⟨hup, rfl⟩)⟩
        · rw [not_or] at hdots
          rw [spotIn, if_neg hdots.1, if_neg hdots.2] at hspot
          simp [isDirectory_of_name hspot, hdots]
  · refine iff_of_false (fun h => ?_) fun h => husable h.1
    unfold isDirectory stat at h
    cases hspot : tree.spot path with
    | error error => rw [hspot] at h; cases h
    | ok spot => exact husable (usable_of_spot hspot)

/-- A path above one that is looked up is looked up too. -/
theorem Usable.above {path above : String} (h : Usable path) (habove : above ∈ Path.ancestors path)
    (hne : above ≠ "") : Usable above := by
  obtain ⟨n, -, rfl⟩ := Path.mem_ancestors_iff.1 habove
  -- its text is within that of the path, so it has no other characters and is not longer
  have hsublist := Path.sublist_ofParts_take path n
  refine ⟨fun hmem => h.valid (hsublist.subset hmem), hne, Nat.le_trans ?_ h.short⟩
  have hsize := String.utf8Len_le_of_sublist hsublist
  rwa [← String.utf8ByteSize_ofList, ← String.utf8ByteSize_ofList, String.ofList_toList,
    String.ofList_toList] at hsize

/-- A path above another one starts where that does. -/
theorem start_above (tree : FileTree) {path above : String} (habove : above ∈ Path.ancestors path)
    (hne : above ≠ "") : tree.start above = tree.start path := by
  obtain ⟨n, -, rfl⟩ := Path.mem_ancestors_iff.1 habove
  have hn : n ≠ 0 := by
    rintro rfl
    exact hne rfl
  have habsolute : Path.isAbsolute (Path.ofParts ((Path.parts path).take n)) =
      Path.isAbsolute path := by
    rw [Bool.eq_iff_iff, Path.isAbsolute_iff, Path.isAbsolute_iff, Path.parts_ofParts_take,
      List.head?_take, if_neg hn]
  unfold start
  rw [habsolute]

/-! ## Making directories -/

/-- A directory is made exactly where a name stands for nothing. -/
theorem makeDirectory_eq_ok_iff {tree later : FileTree} {path : String} :
    tree.makeDirectory path = .ok later ↔ ∃ parent name, tree.LeadsTo path parent name ∧
      name.utf8ByteSize ≤ maxName ∧ tree.entry (parent ++ [name]) = none ∧
        later = tree.put (parent ++ [name]) .directory := by
  constructor
  · intro h
    unfold makeDirectory at h
    rcases hspot : tree.spot path with error | ⟨place⟩ | ⟨parent, name, slashed⟩
    · rw [hspot] at h; cases h
    · rw [hspot] at h; cases h
    · rw [hspot] at h
      refine ⟨parent, name, (spot_eq_name_iff.1 hspot).1, ?_⟩
      by_cases hsize : maxName < name.utf8ByteSize
      · have hentry : tree.entryIn parent name = .error .nameTooLong := if_pos hsize
        simp only [bind, Except.bind, hentry] at h
        cases h
      · have hentry : tree.entryIn parent name = .ok (tree.entry (parent ++ [name])) := if_neg hsize
        simp only [bind, Except.bind, hentry] at h
        refine ⟨Nat.not_lt.1 hsize, ?_⟩
        split at h
        · cases h
        · rename_i hnone
          cases h
          exact ⟨hnone, rfl⟩
  · rintro ⟨parent, name, hleads, hsize, hnone, rfl⟩
    have hentry : tree.entryIn parent name = .ok (tree.entry (parent ++ [name])) :=
      if_neg (Nat.not_lt.2 hsize)
    unfold makeDirectory
    rw [spot_eq_name_iff.2 ⟨hleads, rfl⟩]
    simp only [bind, Except.bind, hentry, hnone]
    rfl

theorem makeDirectory_of_isDirectory {tree later : FileTree} {path : String}
    (h : tree.isDirectory path = true) : tree.makeDirectory path ≠ .ok later := by
  intro hmake
  obtain ⟨parent, name, hleads, -, hnone, -⟩ := makeDirectory_eq_ok_iff.1 hmake
  have hfound := (isDirectory_of_name (spot_eq_name_iff.2 ⟨hleads, rfl⟩)).1 h
  rw [hnone] at hfound
  cases hfound.2

/-- Where a name on the way is missing, no directory can be made. -/
theorem makeDirectory_of_walk {tree : FileTree} {path : String} {front : List String}
    {last : String} {error : FileError} (h : Usable path) (hnames : Path.names path = front ++ [last])
    (hwalk : tree.walk (tree.start path) front = .error error) :
    tree.makeDirectory path = .error error := by
  have hspot := spot_of_concat tree h hnames
  rw [hwalk] at hspot
  unfold makeDirectory
  rw [hspot]
  rfl

/-- Making a directory alters the place of its path, which is not empty then. -/
theorem alters_of_makeDirectory {files directories : Place → Prop} {tree after : FileTree}
    {path : String} (hplace : path ≠ "" → directories (tree.place path))
    (h : tree.makeDirectory path = .ok after) : Alters files directories tree after := by
  obtain ⟨parent, name, hleads, -, hnone, rfl⟩ := makeDirectory_eq_ok_iff.1 h
  have hplace := hplace hleads.named
  rw [hleads.place_eq] at hplace
  exact alters_put_directory hplace hnone

end Newsletter.FileTree
