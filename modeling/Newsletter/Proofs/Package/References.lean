/-
References to packaged images. The markup names an image by a reference that is put together apart
from the path the image is written to. Main statement: from the directory of the package both have
the same parts, and the file there is the image; a reference is relative and never goes up.
-/
import Newsletter.Proofs.Package.Contents

namespace Newsletter

open FileTree

/-! ## Slashes at the end -/

namespace Asset

theorem names_slashes {slashes : List Char} (h : ∀ c ∈ slashes, c = '/') :
    Path.names (String.ofList slashes) = [] := by
  induction slashes with
  | nil => exact Path.names_empty
  | cons c slashes ih =>
    have hc : c = '/' := h c List.mem_cons_self
    have heq : String.ofList (c :: slashes) = "" ++ "/" ++ String.ofList slashes := by
      rw [← String.toList_inj, hc]
      simp
    rw [heq, Path.names_append, Path.names_empty, List.nil_append]
    exact ih fun d hd => h d (List.mem_cons_of_mem _ hd)

theorem getLast_trimSlashes (directory : String) :
    (trimSlashes directory).toList.getLast? ≠ some '/' := by
  intro h
  unfold trimSlashes at h
  rw [String.toList_ofList, List.getLast?_reverse] at h
  have := List.head?_dropWhile_not (fun c => decide (c = '/')) directory.toList.reverse
  rw [h] at this
  simp at this

/-- A directory is the same without its last slashes, or one of them follows it. -/
theorem trimSlashes_cases (directory : String) :
    directory = trimSlashes directory ∨
      ∃ more, directory = trimSlashes directory ++ "/" ++ more ∧ Path.names more = [] := by
  obtain ⟨slashes, hdirectory, hslashes⟩ := exists_append_slashes directory
  rcases hcs : slashes.toList with _ | ⟨c, cs⟩
  · left
    rw [String.toList_eq_nil_iff.1 hcs, String.append_empty] at hdirectory
    exact hdirectory
  · right
    rw [hcs] at hslashes
    have hc : c = '/' := hslashes c List.mem_cons_self
    have hslash : slashes = "/" ++ String.ofList cs := by
      rw [← String.toList_inj, hcs, hc]
      simp
    refine ⟨String.ofList cs, ?_, names_slashes fun d hd => hslashes d (List.mem_cons_of_mem _ hd)⟩
    rw [String.append_assoc, ← hslash]
    exact hdirectory

theorem names_trimSlashes (directory : String) :
    Path.names (trimSlashes directory) = Path.names directory := by
  rcases trimSlashes_cases directory with h | ⟨more, h, hmore⟩
  · rw [← h]
  · conv => rhs; rw [h]
    rw [Path.names_append, hmore, List.append_nil]

theorem contained_trimSlashes {directory : String} (h : Path.Contained directory) :
    Path.Contained (trimSlashes directory) := by
  have hnames := names_trimSlashes directory
  have hne : trimSlashes directory ≠ "" := by
    intro hempty
    have hnamed := h.named
    unfold Path.texts at hnamed
    rw [← hnames, hempty, Path.names_empty] at hnamed
    exact hnamed rfl
  refine ⟨?_, by rw [hnames]; exact h.steady, by unfold Path.texts; rw [hnames]; exact h.named⟩
  obtain ⟨slashes, hdirectory, -⟩ := exists_append_slashes directory
  rw [← Path.isAbsolute_append hne slashes, ← hdirectory]
  exact h.relative

end Asset

/-! ## Parts of references -/

namespace Path

/-- A name below a directory stands behind a slash, after what the directory is without the slashes
at its end. -/
theorem exists_join_trimSlashes {directory name : String} (h : Contained directory)
    (hname : Contained name) :
    ∃ more, join directory name = Asset.trimSlashes directory ++ "/" ++ more := by
  obtain ⟨first, hfirst, hjoin⟩ := exists_join_eq h.ne_empty
  rw [hjoin name hname.relative]
  rcases Asset.trimSlashes_cases directory with htrim | ⟨more, htrim, -⟩
  · rcases hfirst with rfl | hslash
    · exact ⟨name, by rw [← htrim]⟩
    · -- nothing was trimmed, so the directory ends in no slash
      have hlast := Asset.getLast_trimSlashes directory
      rw [← htrim, hslash] at hlast
      simp at hlast
  · rcases hfirst with rfl | hslash
    · refine ⟨more ++ "/" ++ name, ?_⟩
      conv => lhs; rw [htrim]
      simp only [String.append_assoc]
    · refine ⟨more ++ name, ?_⟩
      rw [← hslash]
      conv => lhs; rw [htrim]
      simp only [String.append_assoc]

/-- A reference to an image is relative and never goes up. -/
theorem contained_reference {assetsDir name : String} (h : Contained assetsDir)
    (hname : Contained name) : Contained (Asset.reference assetsDir name) :=
  ((Asset.contained_trimSlashes h).append hname).1

/-- From any directory, a reference to an image has the parts of the path of the image. -/
theorem parts_join_reference (directory : String) {assetsDir name : String}
    (h : Contained assetsDir) (hname : Contained name) :
    parts (join directory (Asset.reference assetsDir name)) =
      parts (join (join directory assetsDir) name) := by
  have hreference := (contained_reference h hname).relative
  have hnames : names (join directory (Asset.reference assetsDir name)) =
      names (join (join directory assetsDir) name) := by
    rw [names_join directory hreference, Asset.reference, names_append, Asset.names_trimSlashes,
      names_join _ hname.relative, names_join directory h.relative, List.append_assoc]
  have hopening : opening (join directory (Asset.reference assetsDir name)) =
      opening (join (join directory assetsDir) name) := by
    by_cases hdirectory : directory = ""
    · obtain ⟨more, hmore⟩ := exists_join_trimSlashes h hname
      rw [hdirectory, join_empty hreference, join_empty h.relative, hmore]
      exact opening_append ..
    · have hne : join directory assetsDir ≠ "" := by
        obtain ⟨first, -, hjoin⟩ := exists_join_eq hdirectory
        rw [hjoin assetsDir h.relative]
        simp
      rw [opening_join hdirectory hreference, opening_join hne hname.relative,
        opening_join hdirectory h.relative]
  rw [parts_eq, parts_eq, hnames, hopening]

theorem Contained.parent_notMem {path : String} (h : Contained path) : Part.parent ∉ parts path := by
  rw [h.parts_eq, List.mem_append, not_or]
  constructor
  · unfold opening
    rw [if_neg (by simp [h.relative])]
    split <;> simp
  · simp

end Path

/-! ## Images of a written package -/

namespace Package

theorem writeFile_mem_steps (p : Package) (directory : String) : ∀ asset ∈ p.edition.assets,
    PackageStep.writeFile (Path.join (Path.join directory p.settings.assetsDir) asset.name)
      asset.bytes ∈ p.steps directory := by
  intro asset hasset
  unfold steps
  refine List.mem_append_left _ (List.mem_append_right _ ?_)
  unfold assetSteps
  rw [if_neg (by simpa using List.ne_nil_of_mem hasset)]
  exact List.mem_cons_of_mem _ (List.mem_map.2 ⟨asset, hasset, rfl⟩)

/-- Every image of a written package is read under its path: nothing else is written there. -/
theorem read_asset {p : Package} {markup directory : String} {tree after : FileTree}
    (h : p.Admitted markup)
    (hrun : PackageStep.runAll system (p.steps directory) tree = (.ok (), after)) :
    ∀ asset ∈ p.edition.assets,
      after.read (Path.join (Path.join directory p.settings.assetsDir) asset.name) =
        .ok asset.bytes := by
  intro asset hasset
  have hfile : (Path.join (Path.join directory p.settings.assetsDir) asset.name, asset.bytes) ∈
      PackageStep.files (p.steps directory) :=
    List.mem_filterMap.2 ⟨_, p.writeFile_mem_steps directory asset hasset, rfl⟩
  refine PackageStep.read_of_mem_files hrun hfile fun file hmem hplace => ?_
  rw [h.place_asset tree directory asset hasset] at hplace
  rw [files_steps, List.cons_append, List.mem_cons, List.mem_append] at hmem
  rcases hmem with rfl | hmem | hmem
  · rw [h.place_markup tree directory] at hplace
    exact absurd hplace.symm (h.place_asset_ne _ _ _)
  · obtain ⟨other, hother, rfl⟩ := List.mem_map.1 hmem
    rw [h.place_asset tree directory other hother, List.append_cancel_left_eq] at hplace
    have hname : other.name = asset.name := List.singleton_inj.1 hplace
    rw [List.inj_on_of_nodup_map h.names hother hasset hname]
  · obtain ⟨m, -, rfl⟩ := Option.map_eq_some_iff.1 (Option.mem_toList.1 hmem)
    rw [place_manifest] at hplace
    exact absurd hplace.symm (h.place_asset_ne _ _ _)

/-- A reference found in the markup of a written package: taken from the directory it is the path of
a file that was written with the picture given. -/
structure RefersTo (p : Package) (directory : String) (after : FileTree) (src : String)
    (picture : Bytes) : Prop where
  relative : Path.isAbsolute src = false
  steady : Path.Part.parent ∉ Path.parts src
  file : ∃ path, PackageStep.writeFile path picture ∈ p.steps directory ∧
    Path.parts (Path.join directory src) = Path.parts path ∧ after.read path = .ok picture

theorem refersTo_asset {p : Package} {markup directory : String} {tree after : FileTree}
    (h : p.Admitted markup)
    (hrun : PackageStep.runAll system (p.steps directory) tree = (.ok (), after)) :
    ∀ asset ∈ p.edition.assets,
      p.RefersTo directory after (Asset.reference p.settings.assetsDir asset.name) asset.bytes := by
  intro asset hasset
  have hname := (h.assets asset hasset).2
  have hreference := Path.contained_reference h.assetsDir hname
  refine ⟨hreference.relative, hreference.parent_notMem, _,
    p.writeFile_mem_steps directory asset hasset, ?_, read_asset h hrun asset hasset⟩
  exact Path.parts_join_reference directory h.assetsDir hname

/-- In a package written with the settings it was compiled with, the image elements are those of the
kept image nodes, and where the export of a node succeeded its element refers to the file with the
picture. -/
theorem write_refersTo {p : Package} {root : Node} {directory : String} {tree after : FileTree}
    {report : PackageReport} (hcompile : Edition.compile p.settings root = .ok p.edition)
    (h : p.write system directory tree = (.ok report, after)) :
    ∃ forest, Markup.read? p.edition.markup = some forest ∧
      (Markup.images forest).length = (Node.images root.kept).length ∧
      ∀ (k : Nat) (node : Node) (picture : Bytes), (Node.images root.kept)[k]? = some node →
        (Edition.job p.settings).exported node = some picture →
        ∃ (attributes : List (String × String)) (src : String),
          (Markup.images forest)[k]? = some attributes ∧ attributes.lookup "src" = some src ∧
            p.RefersTo directory after src picture := by
  obtain ⟨-, -, hrun⟩ := write_eq_ok h
  obtain ⟨markup, hadmitted⟩ := exists_admitted hcompile (write_eq_ok h).1
  obtain ⟨forest, hforest, himages⟩ := Edition.images_of_compile hcompile
  refine ⟨forest, hforest, by rw [himages, List.length_map, List.length_zipIdx], ?_⟩
  intro k node picture hk hpicture
  have hbinds := Edition.bindsImage_ofProps p.settings (Edition.assets_of_compile hcompile) hk
  obtain ⟨-, hsrc, hfilter⟩ := hbinds.exported picture hpicture
  refine ⟨_, _, ?_, hsrc, ?_⟩
  · rw [himages, List.getElem?_map, List.getElem?_zipIdx, hk, Nat.add_comm k 1]
    rfl
  · -- the assets of its name are the picture alone
    have hasset := List.mem_of_mem_filter (hfilter ▸ List.mem_singleton_self _)
    exact refersTo_asset hadmitted hrun _ hasset

theorem write_refersTo_pictures : ∃ (p : Package) (report : PackageReport) (after : FileTree),
    Edition.compile p.settings Edition.pictures = .ok p.edition ∧
      p.write system "out" (FileTree.empty "desk") = (.ok report, after) ∧
      ∃ forest, Markup.read? p.edition.markup = some forest ∧
        ∃ (attributes : List (String × String)) (src : String),
          (Markup.images forest)[0]? = some attributes ∧ attributes.lookup "src" = some src ∧
            p.RefersTo "out" after src [137] := by
  have hwritten : isWritten { assetsDir := "./img//big/" } { assetsDir := "./img//big/" }
      Edition.pictures "out" (FileTree.empty "desk") = true := by decide +kernel
  obtain ⟨edition, report, after, hcompile, hwrite⟩ := exists_of_isWritten hwritten
  obtain ⟨node, hnode, hpicture⟩ := Option.bind_eq_some_iff.1
    (show (Node.images Edition.pictures.kept)[0]?.bind
      (Edition.job { assetsDir := "./img//big/" }).exported = some [137] by decide +kernel)
  refine ⟨{ settings := { assetsDir := "./img//big/" }, edition, stamp := firstStamp }, report,
    after, hcompile, hwrite, ?_⟩
  obtain ⟨forest, hforest, -, hbinds⟩ := write_refersTo
    (p := { settings := { assetsDir := "./img//big/" }, edition, stamp := firstStamp })
    hcompile hwrite
  exact ⟨forest, hforest, hbinds 0 node _ hnode hpicture⟩

end Package

end Newsletter
