/-
What a package may alter. Main statement: whatever becomes of a write, every file it has written is
the markup, an image or the manifest and lies below the directory of the package, every directory it
has made lies on the way to that directory or on the way from there to the directory of the images,
and everything else is as it was; and where the settings are invalid nothing is altered at all.
-/
import Newsletter.Proofs.Package.Contents
import Newsletter.Proofs.Path.Ancestors

namespace Newsletter

/-! ## Places above places -/

namespace FileTree

/-- Where a part leads from a place, if the working directory is the one given. -/
def follow (place : Place) : Path.Part → Place
  | .root => []
  | .current => place
  | .parent => place.dropLast
  | .name text => place ++ [text]

theorem foldl_follow_names (place : Place) (texts : List String) :
    (texts.map Path.Part.name).foldl follow place = place ++ texts := by
  induction texts generalizing place with
  | nil => rw [List.append_nil]; rfl
  | cons text texts ih =>
    rw [List.map_cons, List.foldl_cons, follow, ih, List.append_assoc, List.singleton_append]

theorem resolve_eq_foldl {names : List String} (h : "" ∉ names) (place : Place) :
    resolve place names = (names.filterMap Path.Part.ofSegment?).foldl follow place := by
  induction names generalizing place with
  | nil => rfl
  | cons name names ih =>
    rw [List.mem_cons, not_or] at h
    obtain ⟨hname, hnames⟩ := h
    rw [resolve]
    by_cases hdot : name = "."
    · rw [if_pos hdot, hdot, List.filterMap_cons_none (by decide), ih hnames]
    · by_cases hup : name = ".."
      · rw [if_neg hdot, if_pos hup, hup, List.filterMap_cons_some (b := .parent) (by decide),
          List.foldl_cons, ih hnames]
        rfl
      · have hpart : Path.Part.ofSegment? name = some (.name name) := by
          rw [Path.Part.ofSegment?, if_neg (not_or.2 ⟨fun heq => hname heq.symm, hdot⟩), if_neg hup]
        rw [if_neg hdot, if_neg hup, List.filterMap_cons_some hpart, List.foldl_cons, ih hnames]
        rfl

/-- The place of a path depends on its parts alone. -/
theorem place_eq_foldl (tree : FileTree) (path : String) :
    tree.place path = (Path.parts path).foldl follow tree.home := by
  have hnames : "" ∉ Path.names path := fun hmem => by simpa using (List.mem_filter.1 hmem).2
  have hopening : (Path.opening path).foldl follow tree.home = tree.start path := by
    unfold Path.opening start
    split
    · rfl
    · split
      · rfl
      · rfl
  rw [Path.parts_eq, List.foldl_append, hopening, ← resolve_eq_foldl hnames]
  rfl

/-- The part in front of the names of a relative path leads nowhere. -/
theorem foldl_follow_opening {path : String} (h : Path.isAbsolute path = false) (n : Nat)
    (place : Place) : ((Path.opening path).take n).foldl follow place = place := by
  unfold Path.opening
  rw [h, if_neg Bool.false_ne_true]
  split
  · cases n with
    | zero => rfl
    | succ n =>
      rw [List.take_succ_cons, List.take_nil]
      rfl
  · rw [List.take_nil]
    rfl

/-- A path above one below a directory is above the directory, or leads some of the way from there. -/
theorem place_of_mem_ancestors {tree : FileTree} {directory path above : String}
    (h : Path.Contained path) (habove : above ∈ Path.ancestors (Path.join directory path)) :
    above ∈ Path.ancestors directory ∨
      ∃ names, names <+: Path.texts path ∧ tree.place above = tree.place directory ++ names := by
  obtain ⟨n, -, htake⟩ := Path.mem_ancestors_iff.1 habove
  have hparts := Path.parts_ofParts_take (Path.join directory path) n
  rw [htake] at hparts
  rw [place_eq_foldl tree above, hparts]
  by_cases hdirectory : directory = ""
  · have hhome : tree.place "" = tree.home := place_eq_foldl tree ""
    rw [hdirectory, Path.join_empty h.relative, h.parts_eq, List.take_append, List.foldl_append,
      foldl_follow_opening h.relative, ← List.map_take, foldl_follow_names, hhome]
    exact .inr ⟨_, List.take_prefix .., rfl⟩
  · rw [Path.parts_join hdirectory h, List.take_append] at htake ⊢
    by_cases hlength : n < (Path.parts directory).length
    · have hzero : n - (Path.parts directory).length = 0 := by omega
      rw [hzero, List.take_zero, List.append_nil] at htake
      exact .inl (Path.mem_ancestors_iff.2 ⟨n, hlength, htake⟩)
    · rw [List.take_of_length_le (by omega), List.foldl_append, ← place_eq_foldl, ← List.map_take,
        foldl_follow_names]
      exact .inr ⟨_, List.take_prefix .., rfl⟩

end FileTree

/-! ## Places of packages -/

namespace Package

open FileTree

/-- The places of the files of a package in a directory: that of the markup, those of the images
and, if one is wanted, that of the manifest. -/
inductive IsFile (p : Package) (directory : String) (tree : FileTree) : Place → Prop
  | markup : IsFile p directory tree (tree.place (Path.join directory p.settings.markupFile))
  | asset {asset : Asset} : asset ∈ p.edition.assets → IsFile p directory tree
      (tree.place (Path.join (Path.join directory p.settings.assetsDir) asset.name))
  | manifest : p.settings.manifest = true →
      IsFile p directory tree (tree.place (Path.join directory manifestFile))

/-- The places on the way to a package and its images: those of its directory and of the paths above
that, and those that lead from there to the directory of the images. -/
inductive OnTheWay (p : Package) (directory : String) (tree : FileTree) : Place → Prop
  | top {above : String} : above ∈ directory :: Path.ancestors directory → above ≠ "" →
      OnTheWay p directory tree (tree.place above)
  | images {names : List String} : names <+: Path.texts p.settings.assetsDir →
      OnTheWay p directory tree (tree.place directory ++ names)

/-- What becomes of a tree in which a package was written, in full or in part: the files written lie
below the directory and are those of the package, and the directories made are on the way to them;
and every other file is read as before. -/
structure Confined (p : Package) (directory : String) (tree after : FileTree) : Prop where
  alters : Alters (fun place => p.IsFile directory tree place ∧
    ∃ names, names ≠ [] ∧ place = tree.place directory ++ names) (p.OnTheWay directory tree) tree after
  reads : ∀ path content, tree.read path = .ok content →
    ¬p.IsFile directory tree (tree.place path) → after.read path = .ok content

theorem confined_of_alters {p : Package} {directory : String} {tree after : FileTree}
    (h : Alters (fun place => p.IsFile directory tree place ∧
      ∃ names, names ≠ [] ∧ place = tree.place directory ++ names) (p.OnTheWay directory tree)
      tree after) : p.Confined directory tree after := by
  refine ⟨h, fun path content hread hfile => ?_⟩
  obtain ⟨hleads, hentry⟩ := read_eq_ok_iff.1 hread
  refine read_eq_ok_iff.2 ⟨hleads.keeps h.keeps, ?_⟩
  rw [place_of_home h.home]
  exact h.entry_eq (fun hwritten => hfile hwritten.1) hentry

variable {p : Package} {markup directory : String} {tree : FileTree}

/-- The files that the steps write are those of the package, and lie below its directory. -/
theorem Admitted.isFile (h : p.Admitted markup) :
    ∀ file ∈ PackageStep.files (p.steps directory), p.IsFile directory tree (tree.place file.1) ∧
      ∃ names, names ≠ [] ∧ tree.place file.1 = tree.place directory ++ names := by
  intro file hfile
  rw [files_steps, List.cons_append, List.mem_cons, List.mem_append] at hfile
  rcases hfile with rfl | hfile | hfile
  · exact ⟨.markup, [markup], List.cons_ne_nil _ _, h.place_markup tree directory⟩
  · obtain ⟨asset, hasset, rfl⟩ := List.mem_map.1 hfile
    refine ⟨.asset hasset, Path.texts p.settings.assetsDir ++ [asset.name], by simp, ?_⟩
    rw [← List.append_assoc]
    exact h.place_asset tree directory asset hasset
  · obtain ⟨m, hmanifest, rfl⟩ := Option.map_eq_some_iff.1 (Option.mem_toList.1 hfile)
    have hwanted : p.settings.manifest = true := by
      unfold manifest? at hmanifest
      split at hmanifest
      · assumption
      · cases hmanifest
    exact ⟨.manifest hwanted, [manifestFile], List.cons_ne_nil _ _, place_manifest tree directory⟩

theorem path_of_makeDirectory_mem {path : String}
    (h : PackageStep.makeDirectory path ∈ p.steps directory) :
    path = directory ∨ path = Path.join directory p.settings.assetsDir := by
  unfold steps at h
  rcases List.mem_append.1 h with h | h
  · rcases List.mem_append.1 h with h | h
    · left
      simpa using h
    · right
      unfold assetSteps at h
      split at h
      · cases h
      · simpa using h
  · unfold manifestSteps at h
    split at h
    · cases h
    · simp at h

/-- The directories that the steps make are on the way to the package and its images. -/
theorem Admitted.onTheWay (h : p.Admitted markup) {path : String}
    (hpath : PackageStep.makeDirectory path ∈ p.steps directory) :
    ∀ above ∈ path :: Path.ancestors path, above ≠ "" →
      p.OnTheWay directory tree (tree.place above) := by
  intro above habove hne
  rcases path_of_makeDirectory_mem hpath with rfl | rfl
  · exact .top habove hne
  · rcases List.mem_cons.1 habove with rfl | habove
    · rw [place_join tree directory h.assetsDir]
      exact .images (List.prefix_refl _)
    · rcases place_of_mem_ancestors h.assetsDir habove with habove | ⟨names, hnames, hplace⟩
      · exact .top (List.mem_cons_of_mem _ habove) hne
      · rw [hplace]
        exact .images hnames

/-! ## Confined packages -/

/-- Whatever becomes of a write, it is confined to the package, and where the settings are invalid it
does nothing. -/
theorem write_confined {settings : Settings} {root : Node} {p : Package}
    (hcompile : Edition.compile settings root = .ok p.edition) (directory : String)
    (tree : FileTree) :
    p.Confined directory tree (p.write system directory tree).2 ∧
      ∀ fault, p.settings.fault? = some fault →
        p.write system directory tree = (.error (.invalid fault), tree) := by
  unfold write
  cases hfault : p.settings.fault? with
  | some fault =>
    refine ⟨confined_of_alters (.refl tree), ?_⟩
    rintro _ ⟨⟩
    rfl
  | none =>
    obtain ⟨markup, hadmitted⟩ := exists_admitted hcompile hfault
    refine ⟨confined_of_alters ?_, nofun⟩
    refine altersOnly_bind (PackageStep.altersOnly_runAll hadmitted.isFile fun path => hadmitted.onTheWay)
      (fun result => ?_) tree rfl
    rcases result with ⟨path, error⟩ | _
    · exact altersOnly_pure _
    · exact altersOnly_pure _

theorem write_confined_pictures : ∃ (p : Package) (report : PackageReport) (after : FileTree),
    Edition.compile .standard Edition.pictures = .ok p.edition ∧
      p.settings.assetsDir = "./img//big/" ∧
      p.write system "old/../new" (FileTree.empty "desk") = (.ok report, after) ∧
      p.Confined "old/../new" (FileTree.empty "desk") after := by
  have hwritten : isWritten .standard { assetsDir := "./img//big/" } Edition.pictures "old/../new"
      (FileTree.empty "desk") = true := by decide +kernel
  obtain ⟨edition, report, after, hcompile, hwrite⟩ := exists_of_isWritten hwritten
  obtain ⟨hconfined, -⟩ := write_confined
    (p := { settings := { assetsDir := "./img//big/" }, edition, stamp := firstStamp })
    hcompile "old/../new" (FileTree.empty "desk")
  rw [hwrite] at hconfined
  exact ⟨_, report, after, hcompile, rfl, hwrite, hconfined⟩

end Package

end Newsletter
