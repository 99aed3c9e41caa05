/-
Directories that are made with all that is missing above them. The path itself is tried first, then
those above it up to one that is there. Main statement: this succeeds exactly if the paths from the
shortest on lead to directories one after another, each of which is there or can be made, and then
those that were missing are made; if it fails, nothing but directories above the path was made.
-/
import Newsletter.Proofs.Storage.Programs

namespace Newsletter.FileTree

/-! ## Directories that are there or made -/

/-- A later tree in which a path leads to a directory: it did before, and the tree is the same, or
the directory was made in one that was there. -/
inductive Provides (tree : FileTree) (path : String) : FileTree → Prop
  | found : tree.isDirectory path = true → Provides tree path tree
  | made {later : FileTree} : tree.makeDirectory path = .ok later → Provides tree path later

theorem Provides.eq_of_isDirectory {tree later : FileTree} {path : String}
    (h : tree.Provides path later) (hfound : tree.isDirectory path = true) : later = tree := by
  cases h with
  | found => rfl
  | made hmake => exact absurd hmake (makeDirectory_of_isDirectory hfound)

theorem ensureDirectory_apply (path : String) (tree : FileTree) :
    system.ensureDirectory path tree =
      match tree.makeDirectory path with
      | .ok later => (.ok (), later)
      | .error error =>
        if tree.isDirectory path = true then (.ok (), tree) else (.error error, tree) := by
  have hattempt : system.makeDirectory path tree = match tree.makeDirectory path with
    | .ok later => (.ok (), later)
    | .error error => (.error error, tree) := rfl
  unfold System.ensureDirectory
  rw [bind_apply, hattempt]
  cases tree.makeDirectory path with
  | ok later => rfl
  | error error =>
    show (if tree.isDirectory path = true then _ else _ : StateM FileTree _) tree = _
    dsimp only
    split <;> rfl

theorem ensureDirectory_eq_ok_iff {tree later : FileTree} {path : String} :
    system.ensureDirectory path tree = (.ok (), later) ↔ tree.Provides path later := by
  rw [ensureDirectory_apply]
  constructor
  · intro h
    split at h
    · rename_i hmake
      cases h
      exact .made hmake
    · split at h
      · rename_i hfound
        cases h
        exact .found hfound
      · cases h
  · rintro (hfound | hmake)
    · cases hmake : tree.makeDirectory path with
      | ok later => exact absurd hmake (makeDirectory_of_isDirectory hfound)
      | error error => exact if_pos hfound
    · rw [hmake]

/-- Where no directory can be had, nothing changes. -/
theorem ensureDirectory_eq_error {tree later : FileTree} {path : String} {error : FileError}
    (h : system.ensureDirectory path tree = (.error error, later)) :
    later = tree ∧ tree.makeDirectory path = .error error := by
  rw [ensureDirectory_apply] at h
  split at h
  · cases h
  · rename_i hmake
    split at h
    · cases h
    · cases h
      exact ⟨rfl, hmake⟩

/-- All names but the last can be walked where a directory is there or made. -/
theorem Provides.exists_walk {tree later : FileTree} {path : String}
    (h : tree.Provides path later) : Usable path ∧ ∃ found, tree.walk (tree.start path)
      ((Path.parts path).dropLast.filterMap Path.Part.move?) = .ok found := by
  cases h with
  | found hfound =>
    obtain ⟨husable, found, hwalk⟩ := isDirectory_iff.1 hfound
    refine ⟨husable, exists_walk_first ?_ ((walk_filter tree _ _).trans hwalk)⟩
    show _ <+: Path.texts path
    rw [Path.texts_eq]
    exact (List.dropLast_prefix _).filterMap _
  | made hmake =>
    obtain ⟨parent, name, hleads, -⟩ := makeDirectory_eq_ok_iff.1 hmake
    obtain ⟨front, hnames⟩ := List.getLast?_eq_some_iff.1 hleads.last
    have hwalk := hleads.walked
    rw [hnames, List.dropLast_concat, ← walk_filter] at hwalk
    refine ⟨⟨hleads.valid, hleads.named, hleads.short⟩, parent, ?_⟩
    rw [Path.filterMap_move?_dropLast hnames hleads.proper.1 hleads.proper.2, hwalk]

/-- Where a path leads to a directory or one is made, those above it are there. -/
theorem Provides.isDirectory_above {tree later : FileTree} {path above : String}
    (h : tree.Provides path later) (habove : above ∈ Path.ancestors path) (hne : above ≠ "") :
    tree.isDirectory above = true := by
  obtain ⟨husable, found, hwalk⟩ := h.exists_walk
  refine isDirectory_iff.2 ⟨husable.above habove hne, ?_⟩
  rw [start_above tree habove hne, ← walk_filter]
  show ∃ found, tree.walk _ (Path.texts above) = .ok found
  obtain ⟨n, hn, rfl⟩ := Path.mem_ancestors_iff.1 habove
  rw [Path.texts_eq, Path.parts_ofParts_take]
  refine exists_walk_first (List.IsPrefix.filterMap _ ?_) hwalk
  rw [List.dropLast_eq_take]
  exact List.take_prefix_take_left (by omega)

/-- Where a path leads to a directory or one can be made, this was so before too, or something on
the way was missing. -/
theorem Provides.before {files made : Place → Prop} {tree later last : FileTree} {path : String}
    (h : Alters files made tree later) (hprovides : later.Provides path last) :
    (∃ after, tree.Provides path after) ∨ tree.makeDirectory path = .error .notFound := by
  cases hprovides with
  | found hfound =>
    obtain ⟨husable, found, hwalk⟩ := isDirectory_iff.1 hfound
    rw [h.start_eq] at hwalk
    rcases h.walk_before hwalk with hbefore | hbefore
    · exact .inl ⟨tree, .found (isDirectory_iff.2 ⟨husable, found, hbefore⟩)⟩
    · -- the missing name is the last, which can be made then, or one before it
      rcases List.eq_nil_or_concat (Path.names path) with hnames | ⟨front, name, hnames⟩
      · rw [hnames] at hbefore
        cases hbefore
      · rw [List.concat_eq_append] at hnames
        rw [hnames, walk_append] at hbefore
        cases hfront : tree.walk (tree.start path) front with
        | error error =>
          rw [hfront] at hbefore
          cases hbefore
          exact .inr (makeDirectory_of_walk husable hnames hfront)
        | ok parent =>
          rw [hfront] at hbefore
          have henter := (walk_singleton tree parent name).symm.trans hbefore
          obtain ⟨hdot, hup, hsize, hnone⟩ := missing_of_enter henter
          have hleads : tree.LeadsTo path parent name :=
            { valid := husable.valid, named := husable.named, short := husable.short
              last := List.getLast?_eq_some_iff.2 ⟨front, hnames⟩
              walked := by rw [hnames, List.dropLast_concat, hfront]
              proper := ⟨hdot, hup⟩ }
          exact .inl ⟨_, .made (makeDirectory_eq_ok_iff.2
            ⟨parent, name, hleads, hsize, hnone, rfl⟩)⟩
  | made hmake =>
    obtain ⟨parent, name, hleads, hsize, hnone, -⟩ := makeDirectory_eq_ok_iff.1 hmake
    have hwalk := hleads.walked
    rw [h.start_eq] at hwalk
    rcases h.walk_before hwalk with hbefore | hbefore
    · have hentry := h.changes (parent ++ [name])
      rw [hnone] at hentry
      refine .inl ⟨_, .made (makeDirectory_eq_ok_iff.2 ⟨parent, name, ?_, hsize,
        hentry.before_none, rfl⟩)⟩
      exact ⟨hleads.valid, hleads.named, hleads.short, hleads.last, hbefore, hleads.proper⟩
    · obtain ⟨front, hnames⟩ := List.getLast?_eq_some_iff.1 hleads.last
      rw [hnames, List.dropLast_concat] at hbefore
      exact .inr (makeDirectory_of_walk ⟨hleads.valid, hleads.named, hleads.short⟩ hnames hbefore)

/-! ## Directories with those above them -/

/-- A later tree in which all paths lead to directories; those that are missing are made one by one,
from the last to the first. -/
def ProvidesAll (tree : FileTree) : List String → FileTree → Prop
  | [], later => later = tree
  | path :: paths, later => ∃ middle, ProvidesAll tree paths middle ∧ middle.Provides path later

/-- The paths to a directory, the longest first. -/
def way (path : String) : List String := (path :: Path.ancestors path).filter (· ≠ "")

theorem providesAll_of_isDirectory {tree later : FileTree} : ∀ {paths : List String},
    (∀ path ∈ paths, tree.isDirectory path = true) → (tree.ProvidesAll paths later ↔ later = tree)
  | [], _ => Iff.rfl
  | path :: paths, h => by
    obtain ⟨hpath, hpaths⟩ := List.forall_mem_cons.1 h
    constructor
    · rintro ⟨middle, hmiddle, hprovides⟩
      rw [providesAll_of_isDirectory hpaths] at hmiddle
      subst hmiddle
      exact hprovides.eq_of_isDirectory hpath
    · rintro rfl
      exact ⟨later, (providesAll_of_isDirectory hpaths).2 rfl, .found hpath⟩

theorem ensureBelow_apply (path parent : String) (above : List String) (tree : FileTree) :
    system.ensureBelow path (parent :: above) tree =
      match system.ensureDirectory path tree with
      | (.error .notFound, missing) =>
        if parent = "" then (.error .notFound, missing)
        else
          match system.ensureBelow parent above missing with
          | (.error error, later) => (.error error, later)
          | (.ok (), later) => system.ensureDirectory path later
      | result => result := by
  rw [System.ensureBelow, bind_apply]
  rcases system.ensureDirectory path tree with ⟨result, missing⟩
  cases result with
  | ok done => rfl
  | error error =>
    cases error with
    | notFound =>
      dsimp only
      by_cases hparent : parent = ""
      · rw [if_pos hparent, if_pos hparent]; rfl
      · rw [if_neg hparent, if_neg hparent, bind_apply]
        rcases system.ensureBelow parent above missing with ⟨below, later⟩
        cases below <;> rfl
    | alreadyExists => rfl
    | _ => rfl

/-- Where a directory is there or can be made, no other is made for it. -/
theorem Provides.providesAll_iff {tree found later : FileTree} {path : String} {above : List String}
    (h : tree.Provides path found) (habove : ∀ other ∈ above, other ∈ Path.ancestors path) :
    (∃ middle, tree.ProvidesAll (above.filter (· ≠ "")) middle ∧ middle.Provides path later) ↔
      tree.Provides path later := by
  have hthere : ∀ other ∈ above.filter (· ≠ ""), tree.isDirectory other = true := by
    intro other hother
    obtain ⟨hmem, hne⟩ := List.mem_filter.1 hother
    exact h.isDirectory_above (habove other hmem) (by simpa using hne)
  simp only [providesAll_of_isDirectory hthere, exists_eq_left]

/-- A directory that cannot be made for another reason than one missing above it cannot be made
after those above it either. -/
theorem not_provides_of_ensureBelow {tree middle later : FileTree} {path parent : String}
    {above : List String} {error : FileError} (herror : error ≠ .notFound)
    (hensure : system.ensureDirectory path tree = (.error error, tree))
    (hbelow : system.ensureBelow parent above tree = (.ok (), middle)) :
    ¬middle.Provides path later := by
  intro hprovides
  have halters : Alters (fun _ => False) (fun _ => True) tree
      (system.ensureBelow parent above tree).2 :=
    altersOnly_ensureBelow (fun _ _ _ => trivial) tree rfl
  rw [hbelow] at halters
  rcases hprovides.before halters with ⟨after, hbefore⟩ | hbefore
  · rw [ensureDirectory_eq_ok_iff.2 hbefore] at hensure
    cases hensure
  · rw [(ensureDirectory_eq_error hensure).2] at hbefore
    cases hbefore
    exact herror rfl

/-- Directories are made from the longest path up to one that is there and then down again, which
comes down to the paths from the shortest on. -/
theorem ensureBelow_eq_ok_iff : ∀ {above : List String} {path : String} {tree later : FileTree},
    path ≠ "" → (path :: above).Pairwise (fun lower upper => upper ∈ Path.ancestors lower) →
      (system.ensureBelow path above tree = (.ok (), later) ↔
        tree.ProvidesAll ((path :: above).filter (· ≠ "")) later)
  | [], path, tree, later, hpath, _ => by
    rw [List.filter_cons_of_pos (by simpa using hpath), List.filter_nil]
    show system.ensureDirectory path tree = _ ↔ ∃ middle, middle = tree ∧ _
    rw [exists_eq_left, ensureDirectory_eq_ok_iff]
  | parent :: above, path, tree, later, hpath, hpairwise => by
    obtain ⟨habove, hpairwise⟩ := List.pairwise_cons.1 hpairwise
    rw [List.filter_cons_of_pos (by simpa using hpath), ensureBelow_apply]
    show _ ↔ ∃ middle, tree.ProvidesAll ((parent :: above).filter (· ≠ "")) middle ∧
      middle.Provides path later
    rcases hensure : system.ensureDirectory path tree with ⟨error | _, missing⟩
    · obtain ⟨rfl, -⟩ := ensureDirectory_eq_error hensure
      by_cases hparent : parent = ""
      · -- above the empty path there is nothing
        subst hparent
        cases Path.eq_nil_of_pairwise hpairwise
        refine iff_of_false (fun h => ?_) ?_
        · cases error <;> cases h
        · rintro ⟨_, rfl, hprovides⟩
          rw [ensureDirectory_eq_ok_iff.2 hprovides] at hensure
          cases hensure
      · -- those above are made before the path is tried again
        have ih : ∀ middle, missing.ProvidesAll ((parent :: above).filter (· ≠ "")) middle ↔
            system.ensureBelow parent above missing = (.ok (), middle) :=
          fun middle => (ensureBelow_eq_ok_iff hparent hpairwise).symm
        simp only [ih]
        by_cases herror : error = .notFound
        · subst herror
          dsimp only
          rw [if_neg hparent]
          rcases system.ensureBelow parent above missing with ⟨error | _, middle⟩
          · exact iff_of_false nofun nofun
          · constructor
            · exact fun h => ⟨middle, rfl, ensureDirectory_eq_ok_iff.1 h⟩
            · rintro ⟨_, hmiddle, h⟩
              cases hmiddle
              exact ensureDirectory_eq_ok_iff.2 h
        · refine iff_of_false (fun h => ?_) ?_
          · cases error with
            | notFound => exact herror rfl
            | _ => cases h
          · rintro ⟨middle, hbelow, hprovides⟩
            exact not_provides_of_ensureBelow herror hensure hbelow hprovides
    · have hprovides := ensureDirectory_eq_ok_iff.1 hensure
      rw [hprovides.providesAll_iff habove, ← ensureDirectory_eq_ok_iff, hensure]

/-- A directory can be made with all that is missing above it exactly if the paths to it lead to
directories one after another, the shortest first, each of which is there or can be made. -/
theorem makeDirectories_eq_ok_iff {tree later : FileTree} {path : String} :
    system.makeDirectories path tree = (.ok (), later) ↔ tree.ProvidesAll (way path) later := by
  unfold System.makeDirectories way
  by_cases hpath : path = ""
  · subst hpath
    rw [if_pos rfl, Path.ancestors_empty]
    show (Except.ok (), tree) = _ ↔ later = tree
    simp [eq_comm]
  · rw [if_neg hpath]
    exact ensureBelow_eq_ok_iff hpath (Path.pairwise_ancestors path)

theorem alters_of_ensureBelow {made : Place → Prop} {tree later : FileTree} {path : String}
    {above : List String} {error : FileError}
    (hplaces : ∀ other ∈ above, other ≠ "" → made (tree.place other))
    (h : system.ensureBelow path above tree = (.error error, later)) :
    Alters (fun _ => False) made tree later := by
  cases above with
  | nil =>
    rw [(ensureDirectory_eq_error h).1]
    exact .refl tree
  | cons parent above =>
    rw [ensureBelow_apply] at h
    rcases hensure : system.ensureDirectory path tree with ⟨failure | _, missing⟩
    · obtain ⟨rfl, -⟩ := ensureDirectory_eq_error hensure
      rw [hensure] at h
      cases failure with
      | notFound =>
        dsimp only at h
        split at h
        · cases h
          exact .refl _
        · have halters : Alters (fun _ => False) made missing
              (system.ensureBelow parent above missing).2 :=
            altersOnly_ensureBelow hplaces missing rfl
          rcases hbelow : system.ensureBelow parent above missing with ⟨result, middle⟩
          rw [hbelow] at h halters
          cases result with
          | error failure =>
            cases h
            exact halters
          | ok _ =>
            rw [(ensureDirectory_eq_error h).1]
            exact halters
      | _ =>
        cases h
        exact .refl _
    · rw [hensure] at h
      cases h

/-- Where a directory cannot be made, some of those above it are made at most. -/
theorem alters_of_makeDirectories {tree later : FileTree} {path : String} {error : FileError}
    (h : system.makeDirectories path tree = (.error error, later)) :
    Alters (fun _ => False)
      (fun place => ∃ above ∈ Path.ancestors path, above ≠ "" ∧ tree.place above = place)
      tree later := by
  unfold System.makeDirectories at h
  split at h
  · cases h
  · exact alters_of_ensureBelow (fun above hmem hne => ⟨above, hmem, hne, rfl⟩) h

end Newsletter.FileTree
