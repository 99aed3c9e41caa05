/-
What a package holds once it is written. Main statement: after a write that succeeds every file of
the report has a place of its own and holds what was packaged, unless a manifest is wanted and the
markup has the name of its file; then the manifest takes the place of the markup.
-/
import Newsletter.Proofs.Edition.Images
import Newsletter.Proofs.Package.Steps

namespace Newsletter

open FileTree

/-! ## Names of images -/

namespace Asset

theorem slash_notMem_imageName (position : Nat) : '/' ∉ (imageName position).toList := by
  have hdigit : ∀ d : Digit, d.char ≠ '/' := by decide
  unfold imageName Digits.chars
  simp only [String.toList_append, String.toList_ofList, List.mem_append, List.mem_map, not_or]
  refine ⟨⟨by decide, ?_⟩, by decide⟩
  rintro ⟨d, -, hd⟩
  exact hdigit d hd

theorem head_imageName (position : Nat) : (imageName position).toList.head? = some 'i' := by
  unfold imageName
  simp [String.toList_append]

/-- The name of an image stays where it is put. -/
theorem contained_imageName (position : Nat) :
    Path.texts (imageName position) = [imageName position] ∧ Path.Contained (imageName position) := by
  have hhead := head_imageName position
  refine Path.contained_of_notMem (slash_notMem_imageName position) ?_ ?_ ?_
  all_goals
    intro heq
    rw [heq] at hhead
    simp at hhead

end Asset

namespace Package

/-! ## Files of a package -/

theorem files_steps (p : Package) (directory : String) :
    PackageStep.files (p.steps directory) =
      (Path.join directory p.settings.markupFile, Bytes.ofText p.edition.markup) ::
        (p.edition.assets.map fun asset =>
          (Path.join (Path.join directory p.settings.assetsDir) asset.name, asset.bytes)) ++
        (p.manifest?.map fun m => (Path.join directory manifestFile, Bytes.ofText m.text)).toList := by
  have hassets : PackageStep.files (p.assetSteps directory) = p.edition.assets.map fun asset =>
      (Path.join (Path.join directory p.settings.assetsDir) asset.name, asset.bytes) := by
    unfold assetSteps
    split
    · rename_i h
      rw [List.isEmpty_iff.1 h]
      rfl
    · show PackageStep.files (List.map _ _) = _
      unfold PackageStep.files
      rw [List.filterMap_map]
      exact congrFun List.filterMap_eq_map _
  have hmanifest : PackageStep.files (p.manifestSteps directory) =
      (p.manifest?.map fun m => (Path.join directory manifestFile, Bytes.ofText m.text)).toList := by
    unfold manifestSteps
    cases p.manifest? with
    | none => rfl
    | some m => rfl
  unfold steps PackageStep.files
  rw [List.filterMap_append, List.filterMap_append, ← hassets, ← hmanifest]
  rfl

/-- A package of a compiled newsletter with valid settings: every path in it leads to a place below
the directory, and no two images have one name. -/
structure Admitted (p : Package) (markup : String) : Prop where
  parts : Path.parts p.settings.markupFile = [.name markup]
  markup : Path.texts p.settings.markupFile = [markup] ∧ Path.Contained p.settings.markupFile
  assetsDir : Path.Contained p.settings.assetsDir
  assets : ∀ asset ∈ p.edition.assets,
    Path.texts asset.name = [asset.name] ∧ Path.Contained asset.name
  names : (p.edition.assets.map (·.name)).Nodup

theorem exists_admitted {settings : Settings} {root : Node} {p : Package}
    (hcompile : Edition.compile settings root = .ok p.edition) (hfault : p.settings.fault? = none) :
    ∃ markup, p.Admitted markup := by
  obtain ⟨-, hplain, -, hcontained, -⟩ := Settings.fault?_eq_none_iff.1 hfault
  obtain ⟨markup, hparts, htexts, hmarkup⟩ := Path.contained_of_isPlainName hplain
  have hassets := Edition.assets_of_compile hcompile
  refine ⟨markup, hparts, ⟨htexts, hmarkup⟩, Path.contained_of_isContained hcontained, ?_, ?_⟩
  · intro asset hasset
    rw [hassets] at hasset
    obtain ⟨position, -, hname⟩ := ExportJob.exists_name_numberedAssets _ asset hasset
    rw [hname]
    exact Asset.contained_imageName position
  · rw [hassets]
    exact ExportJob.nodup_numberedAssets _ _ _

namespace Admitted

variable {p : Package} {markup : String} (h : p.Admitted markup) (tree : FileTree)
  (directory : String)
include h

theorem place_markup :
    tree.place (Path.join directory p.settings.markupFile) = tree.place directory ++ [markup] := by
  rw [place_join tree directory h.markup.2, h.markup.1]

theorem place_asset : ∀ asset ∈ p.edition.assets,
    tree.place (Path.join (Path.join directory p.settings.assetsDir) asset.name) =
      tree.place directory ++ Path.texts p.settings.assetsDir ++ [asset.name] := by
  intro asset hasset
  obtain ⟨htexts, hcontained⟩ := h.assets asset hasset
  rw [place_join tree _ hcontained, place_join tree directory h.assetsDir, htexts]

/-- The report names the image at the same place, with another slash in its path at most. -/
theorem place_reported : ∀ asset ∈ p.edition.assets,
    tree.place (Path.join directory (p.settings.assetsDir ++ "/" ++ asset.name)) =
      tree.place directory ++ Path.texts p.settings.assetsDir ++ [asset.name] := by
  intro asset hasset
  obtain ⟨htexts, hcontained⟩ := h.assets asset hasset
  obtain ⟨hcontained, happend⟩ := h.assetsDir.append hcontained
  rw [place_join tree directory hcontained, happend, htexts, List.append_assoc]

/-- Images lie deeper than the other files. -/
theorem place_asset_ne (top : Place) (name other : String) :
    top ++ Path.texts p.settings.assetsDir ++ [other] ≠ top ++ [name] := by
  intro heq
  have hlength := congrArg List.length heq
  have hpos := List.length_pos_iff.2 h.assetsDir.named
  simp only [List.length_append, List.length_singleton] at hlength
  omega

end Admitted

theorem place_manifest (tree : FileTree) (directory : String) :
    tree.place (Path.join directory manifestFile) = tree.place directory ++ [manifestFile] := by
  obtain ⟨htexts, hcontained⟩ : Path.texts manifestFile = [manifestFile] ∧
      Path.Contained manifestFile :=
    Path.contained_of_notMem (by decide) (by decide) (by decide) (by decide)
  rw [place_join tree directory hcontained, htexts]

/-- The places of a package in a directory, the markup having the name given. -/
def layout (p : Package) (markup : String) (top : Place) : List Place :=
  (top ++ [markup]) ::
    (p.edition.assets.map fun asset => top ++ Path.texts p.settings.assetsDir ++ [asset.name]) ++
    (if p.settings.manifest then [top ++ [manifestFile]] else [])

/-- The steps write to these places, and the report names them, in this order. -/
theorem places_eq_layout {p : Package} {markup : String} (h : p.Admitted markup) (tree : FileTree)
    (directory : String) :
    PackageStep.places tree (PackageStep.files (p.steps directory)) =
        p.layout markup (tree.place directory) ∧
      (p.report.files.map fun file => tree.place (Path.join directory file)) =
        p.layout markup (tree.place directory) := by
  constructor
  · rw [files_steps]
    unfold PackageStep.places layout
    rw [List.map_append, List.map_cons, List.map_map, h.place_markup tree directory]
    unfold Function.comp
    rw [List.map_congr_left (h.place_asset tree directory)]
    unfold manifest?
    split
    · rw [← place_manifest]; rfl
    · rfl
  · unfold report layout
    rw [List.map_append, List.map_append, List.map_map, List.map_singleton,
      h.place_markup tree directory]
    unfold Function.comp
    rw [List.map_congr_left (h.place_reported tree directory)]
    split
    · rw [List.map_singleton, place_manifest]; rfl
    · rfl

/-- Only the manifest can take the place of another file: that of the markup. -/
theorem nodup_layout {p : Package} {markup : String} (h : p.Admitted markup) (top : Place) :
    (p.layout markup top).Nodup ↔ ¬(p.settings.manifest = true ∧ markup = manifestFile) := by
  have hassets : (p.edition.assets.map fun asset =>
      top ++ Path.texts p.settings.assetsDir ++ [asset.name]).Nodup := by
    have := h.names.map (f := fun name => top ++ Path.texts p.settings.assetsDir ++ [name])
      (fun name other h => by simpa using h)
    rwa [List.map_map] at this
  have hdeep : ∀ name, top ++ [name] ∉ p.edition.assets.map fun asset =>
      top ++ Path.texts p.settings.assetsDir ++ [asset.name] := by
    intro name hmem
    obtain ⟨asset, -, heq⟩ := List.mem_map.1 hmem
    exact h.place_asset_ne top name asset.name heq
  unfold layout
  cases p.settings.manifest with
  | false =>
    simp only [Bool.false_eq_true, if_false, List.append_nil, false_and, not_false_iff, iff_true]
    exact List.nodup_cons.2 ⟨hdeep markup, hassets⟩
  | true =>
    simp only [if_true, true_and]
    rw [List.cons_append, List.nodup_cons, List.nodup_append]
    constructor
    · rintro ⟨hmarkup, -⟩ rfl
      exact hmarkup (List.mem_append_right _ (List.mem_singleton_self _))
    · intro hne
      refine ⟨?_, hassets, List.nodup_singleton _, ?_⟩
      · rw [List.mem_append, List.mem_singleton, not_or]
        exact ⟨hdeep markup, by simpa using hne⟩
      · rintro place hplace _ hmanifest rfl
        rw [List.mem_singleton.1 hmanifest] at hplace
        exact hdeep manifestFile hplace

/-! ## Written packages -/

/-- A package with valid settings is written by its steps. -/
theorem write_of_valid {p : Package} (h : p.settings.fault? = none) (directory : String)
    (tree : FileTree) : p.write system directory tree =
      match PackageStep.runAll system (p.steps directory) tree with
      | (.error (path, error), after) => (.error (.unwritable path error), after)
      | (.ok (), after) => (.ok p.report, after) := by
  unfold write
  rw [h]
  dsimp only
  rw [bind_apply]
  rcases PackageStep.runAll system (p.steps directory) tree with ⟨error | _, after⟩ <;> rfl

theorem write_eq_ok {p : Package} {directory : String} {tree after : FileTree}
    {report : PackageReport} (h : p.write system directory tree = (.ok report, after)) :
    p.settings.fault? = none ∧ report = p.report ∧
      PackageStep.runAll system (p.steps directory) tree = (.ok (), after) := by
  cases hfault : p.settings.fault? with
  | some fault =>
    unfold write at h
    rw [hfault] at h
    cases h
  | none =>
    rw [write_of_valid hfault] at h
    rcases hrun : PackageStep.runAll system (p.steps directory) tree with ⟨error | _, final⟩
    · rw [hrun] at h; cases h
    · rw [hrun] at h; cases h; exact ⟨rfl, rfl, rfl⟩

/-- A tree in which a package stands in a directory as it was reported: the files of the report are
all different, and each holds what was packaged. -/
structure Holds (p : Package) (directory : String) (report : PackageReport) (tree : FileTree) :
    Prop where
  distinct : (report.files.map fun file => tree.place (Path.join directory file)).Nodup
  markup : tree.read (Path.join directory p.settings.markupFile) =
    .ok (Bytes.ofText p.edition.markup)
  assets : ∀ asset ∈ p.edition.assets,
    tree.read (Path.join (Path.join directory p.settings.assetsDir) asset.name) = .ok asset.bytes
  manifest : p.settings.manifest = true → ∃ m, p.manifest? = some m ∧
    report.manifestHash = some m.hash ∧
    tree.read (Path.join directory manifestFile) = .ok (Bytes.ofText m.text)

/-- A package stands where every file of its steps is read as it was meant. -/
theorem holds_of_read {p : Package} {directory : String} {tree : FileTree}
    (hdistinct : (p.report.files.map fun file => tree.place (Path.join directory file)).Nodup)
    (hread : ∀ path content, (path, content) ∈ PackageStep.files (p.steps directory) →
      tree.read path = .ok content) : p.Holds directory p.report tree := by
  rw [files_steps] at hread
  refine ⟨hdistinct, ?_, fun asset hasset => ?_, fun hwanted => ?_⟩
  · exact hread _ _ List.mem_cons_self
  · have hmem : (Path.join (Path.join directory p.settings.assetsDir) asset.name, asset.bytes) ∈
        p.edition.assets.map fun asset =>
          (Path.join (Path.join directory p.settings.assetsDir) asset.name, asset.bytes) :=
      List.mem_map.2 ⟨asset, hasset, rfl⟩
    exact hread _ _ (List.mem_append_left _ (List.mem_cons_of_mem _ hmem))
  · obtain ⟨m, hmanifest⟩ : ∃ m, p.manifest? = some m := ⟨_, if_pos hwanted⟩
    refine ⟨m, hmanifest, by unfold report; rw [hmanifest]; rfl, ?_⟩
    refine hread _ _ (List.mem_append_right _ ?_)
    rw [hmanifest]
    exact List.mem_singleton_self _

/-- A package that was written stands as it was reported exactly if the manifest, where one is
wanted, is not the file of the markup. -/
theorem holds_write_iff {settings : Settings} {root : Node} {p : Package} {directory : String}
    {tree after : FileTree} {report : PackageReport}
    (hcompile : Edition.compile settings root = .ok p.edition)
    (h : p.write system directory tree = (.ok report, after)) :
    p.Holds directory report after ↔
      ¬(p.settings.manifest = true ∧ Path.parts p.settings.markupFile = [.name manifestFile]) := by
  obtain ⟨hfault, rfl, hrun⟩ := write_eq_ok h
  obtain ⟨markup, hadmitted⟩ := exists_admitted hcompile hfault
  have hlayout := nodup_layout hadmitted (tree.place directory)
  obtain ⟨hsteps, hfiles⟩ := places_eq_layout hadmitted tree directory
  have hhome := (PackageStep.runAll_ok_keeps hrun).1.home
  have hdistinct : (p.report.files.map fun file => after.place (Path.join directory file)) =
      p.layout markup (tree.place directory) := by
    rw [← hfiles]
    exact List.map_congr_left fun file _ => place_of_home hhome _
  rw [hadmitted.parts]
  simp only [List.cons.injEq, Path.Part.name.injEq, and_true]
  rw [← hlayout]
  constructor
  · intro hholds
    rw [← hdistinct]
    exact hholds.distinct
  · intro hnodup
    have hplaces := hnodup
    rw [← hsteps] at hplaces
    rw [← hdistinct] at hnodup
    exact holds_of_read hnodup fun path content => PackageStep.read_of_nodup hrun hplaces

/-- A stamp for packages. -/
def firstStamp : Manifest.Stamp :=
  { id := "first"
    time :=
      { date := { year := 2024, month := 2, day := 29, year_range := by decide,
                  month_range := by decide, day_range := by decide }
        hour := 12, minute := 0, second := 0, nanosecond := 0, hour_lt := by decide,
        minute_lt := by decide, second_le := by decide, nanosecond_lt := by decide } }

/-- Whether the package of a compiled tree can be written. -/
def isWritten (settings wanted : Settings) (root : Node) (directory : String) (tree : FileTree) :
    Bool :=
  (Edition.compile settings root).toOption.any fun edition =>
    (write system { settings := wanted, edition, stamp := firstStamp } directory
      tree).1.toOption.isSome

theorem exists_of_isWritten {settings wanted : Settings} {root : Node} {directory : String}
    {tree : FileTree} (h : isWritten settings wanted root directory tree = true) :
    ∃ edition report after, Edition.compile settings root = .ok edition ∧
      write system { settings := wanted, edition, stamp := firstStamp } directory tree =
        (.ok report, after) := by
  unfold isWritten at h
  cases hcompile : Edition.compile settings root with
  | error error => rw [hcompile] at h; cases h
  | ok edition =>
    rw [hcompile] at h
    rcases hwrite : write system { settings := wanted, edition, stamp := firstStamp } directory tree
      with ⟨error | report, after⟩
    · change (write system { settings := wanted, edition, stamp := firstStamp } directory
        tree).1.toOption.isSome = true at h
      rw [hwrite] at h; cases h
    · exact ⟨edition, report, after, rfl, hwrite⟩

theorem holds_write_iff_pictures : ∃ (p : Package) (report : PackageReport) (after : FileTree),
    Edition.compile .standard Edition.pictures = .ok p.edition ∧ p.settings.manifest = true ∧
      p.write system "out" (FileTree.empty "desk") = (.ok report, after) ∧
      p.Holds "out" report after := by
  have hwritten : isWritten .standard { manifest := true } Edition.pictures "out"
      (FileTree.empty "desk") = true := by decide +kernel
  obtain ⟨edition, report, after, hcompile, hwrite⟩ := exists_of_isWritten hwritten
  have hname : Path.parts "index.mjml" ≠ [.name manifestFile] := by decide
  exact ⟨_, report, after, hcompile, rfl, hwrite,
    (holds_write_iff hcompile hwrite).2 fun hsame => hname hsame.2⟩

/-- The manifest of a package takes the place of the markup if both have one name, and the report
lists that name twice. -/
theorem exists_not_holds : ∃ (p : Package) (report : PackageReport) (after : FileTree),
    Edition.compile .standard (.tagged .container []) = .ok p.edition ∧
      p.write system "out" (FileTree.empty "desk") = (.ok report, after) ∧
      report.files = ["manifest.json", "manifest.json"] ∧ ¬p.Holds "out" report after := by
  have hwritten : isWritten .standard { markupFile := "manifest.json", manifest := true }
      (.tagged .container []) "out" (FileTree.empty "desk") = true := by decide +kernel
  obtain ⟨edition, report, after, hcompile, hwrite⟩ := exists_of_isWritten hwritten
  have hassets : edition.assets = [] := by
    rw [Edition.assets_of_compile hcompile]; decide
  have hfiles : report.files = ["manifest.json", "manifest.json"] := by
    rw [(write_eq_ok hwrite).2.1]
    unfold Package.report
    dsimp only
    rw [hassets]; rfl
  refine ⟨_, report, after, hcompile, hwrite, hfiles, fun hholds => ?_⟩
  have hdistinct := hholds.distinct
  rw [hfiles] at hdistinct
  simp at hdistinct

end Package

end Newsletter
