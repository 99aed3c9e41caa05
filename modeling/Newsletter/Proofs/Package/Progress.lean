/-
How far a package is written. Main statement: a write does the steps of the package one after
another; if all can be done it succeeds and its report lists the files in the order of the steps, and
if not it stops at the first that cannot be done, with the path of that step, and leaves what the
steps before it left, and some of the directories above its path at most.
-/
import Newsletter.Proofs.Manifest.Stored
import Newsletter.Proofs.Storage.Nested

namespace Newsletter

open FileTree

/-! ## Doing steps -/

namespace PackageStep

/-- What it is to do a step: the paths to a directory lead to directories one after another, the
shortest first; a file stands at its place with all its content, where no directory did. -/
inductive Does : PackageStep → FileTree → FileTree → Prop
  | makeDirectory {path : String} {tree later : FileTree} :
    tree.ProvidesAll (way path) later → Does (.makeDirectory path) tree later
  | writeFile {path : String} {content : Bytes} {tree : FileTree} : tree.Leads path →
    tree.entry (tree.place path) ≠ some .directory →
      Does (.writeFile path content) tree (tree.put (tree.place path) (.file content))

/-- What is left of a step that cannot be done: some of the directories above a directory that were
missing, and nothing of a file. -/
inductive Leaves : PackageStep → FileTree → FileTree → Prop
  | makeDirectory {path : String} {tree later : FileTree} :
    Alters (fun _ => False)
      (fun place => ∃ above ∈ Path.ancestors path, above ≠ "" ∧ tree.place above = place)
      tree later → Leaves (.makeDirectory path) tree later
  | writeFile {path : String} {content : Bytes} {tree : FileTree} :
    Leaves (.writeFile path content) tree tree

/-- Steps are done one after another. -/
inductive DoesAll : List PackageStep → FileTree → FileTree → Prop
  | nil {tree : FileTree} : DoesAll [] tree tree
  | cons {step : PackageStep} {steps : List PackageStep} {tree middle after : FileTree} :
    step.Does tree middle → DoesAll steps middle after → DoesAll (step :: steps) tree after

/-- The path that a step is to make. -/
inductive Targets : PackageStep → String → Prop
  | makeDirectory {path : String} : Targets (.makeDirectory path) path
  | writeFile {path : String} {content : Bytes} : Targets (.writeFile path content) path

/-- Steps stop at a path: those before a step with this path are done, the step itself cannot be,
and those behind it are not tried. -/
def StopsAt (steps : List PackageStep) (tree : FileTree) (path : String) (after : FileTree) :
    Prop :=
  ∃ (done : List PackageStep) (step : PackageStep) (rest : List PackageStep) (before : FileTree),
    steps = done ++ step :: rest ∧ step.Targets path ∧ DoesAll done tree before ∧
      (∀ later, ¬step.Does before later) ∧ step.Leaves before after

theorem targets_iff {step : PackageStep} {path : String} :
    step.Targets path ↔ step.path = path := by
  constructor
  · rintro (_ | _) <;> rfl
  · rintro rfl
    cases step with
    | makeDirectory path => exact .makeDirectory
    | writeFile path content => exact .writeFile

theorem run_eq_ok_iff {step : PackageStep} {tree later : FileTree} :
    step.run system tree = (.ok (), later) ↔ step.Does tree later := by
  cases step with
  | makeDirectory path =>
    refine makeDirectories_eq_ok_iff.trans ⟨.makeDirectory, fun h => ?_⟩
    cases h with
    | makeDirectory hall => exact hall
  | writeFile path content =>
    have hwrite : (PackageStep.writeFile path content).run system tree = (.ok (), later) ↔
        tree.write path content = .ok later := attempt_eq_ok_iff (·.write path content)
    rw [hwrite, write_eq_ok_iff]
    constructor
    · rintro ⟨hleads, hentry, rfl⟩
      exact .writeFile hleads hentry
    · intro h
      cases h with
      | writeFile hleads hentry => exact ⟨hleads, hentry, rfl⟩

theorem leaves_of_run {step : PackageStep} {tree later : FileTree} {error : FileError}
    (h : step.run system tree = (.error error, later)) : step.Leaves tree later := by
  cases step with
  | makeDirectory path => exact .makeDirectory (alters_of_makeDirectories h)
  | writeFile path content =>
    have hsame : later = tree := attempt_eq_error (·.write path content) h
    subst hsame
    exact .writeFile

/-! ## Runs -/

/-- A run succeeds exactly if all steps can be done, and leaves what they leave. -/
theorem runAll_eq_ok_iff {steps : List PackageStep} {tree after : FileTree} :
    runAll system steps tree = (.ok (), after) ↔ DoesAll steps tree after := by
  induction steps generalizing tree with
  | nil =>
    constructor
    · intro h
      cases h
      exact .nil
    · intro h
      cases h
      rfl
  | cons step steps ih =>
    constructor
    · intro h
      obtain ⟨middle, hstep, hsteps⟩ := runAll_cons_ok h
      exact .cons (run_eq_ok_iff.1 hstep) (ih.1 hsteps)
    · intro h
      cases h with
      | cons hstep hsteps =>
        rw [runAll_cons, run_eq_ok_iff.2 hstep]
        exact ih.2 hsteps

/-- A run that fails stops at the path it tells. -/
theorem stopsAt_of_runAll {steps : List PackageStep} {tree after : FileTree} {path : String}
    {error : FileError} (h : runAll system steps tree = (.error (path, error), after)) :
    StopsAt steps tree path after := by
  induction steps generalizing tree with
  | nil => cases h
  | cons step steps ih =>
    rw [runAll_cons] at h
    rcases hrun : step.run system tree with ⟨failure | _, later⟩
    · rw [hrun] at h
      cases h
      -- the first step fails already, with nothing done before it
      refine ⟨[], step, steps, tree, rfl, targets_iff.2 rfl, .nil, fun other hdoes => ?_,
        leaves_of_run hrun⟩
      rw [run_eq_ok_iff.2 hdoes] at hrun
      cases hrun
    · rw [hrun] at h
      obtain ⟨done, stopped, rest, before, rfl, hpath, hdone, hfails, hleaves⟩ := ih h
      exact ⟨step :: done, stopped, rest, before, rfl, hpath,
        .cons (run_eq_ok_iff.1 hrun) hdone, hfails, hleaves⟩

/-- A run fails where its steps stop. -/
theorem StopsAt.exists_runAll {steps : List PackageStep} {tree after : FileTree} {path : String}
    (h : StopsAt steps tree path after) :
    ∃ error later, runAll system steps tree = (.error (path, error), later) := by
  obtain ⟨done, step, rest, before, rfl, htargets, hdone, hfails, -⟩ := h
  rw [← targets_iff.1 htargets]
  -- the induction is on the steps that are done, each of which the run does too
  induction hdone with
  | nil =>
    rw [List.nil_append, runAll_cons]
    rcases hrun : step.run system _ with ⟨error | _, later⟩
    · exact ⟨error, later, rfl⟩
    · exact absurd (run_eq_ok_iff.1 hrun) (hfails later)
  | cons hstep _ ih =>
    rw [List.cons_append, runAll_cons, run_eq_ok_iff.2 hstep]
    exact ih hfails

/-- Steps stop at one path at most. -/
theorem StopsAt.path_eq {steps : List PackageStep} {tree after last : FileTree}
    {path other : String} (h : StopsAt steps tree path after)
    (h' : StopsAt steps tree other last) : other = path := by
  obtain ⟨_, _, hrun⟩ := h.exists_runAll
  obtain ⟨_, _, hother⟩ := h'.exists_runAll
  rw [hrun] at hother
  cases hother
  rfl

end PackageStep

/-! ## Plans -/

namespace Path

/-- What the paths below a directory start with: the directory and a slash, if none ends it; nothing
if it is the one that paths are looked up from. -/
def front (directory : String) : String :=
  if directory = "" ∨ directory.toList.getLast? = some '/' then directory else directory ++ "/"

theorem join_eq_front (directory : String) {path : String} (h : isAbsolute path = false) :
    join directory path = front directory ++ path := by
  unfold join front
  rw [h, if_neg Bool.false_ne_true]
  split <;> rfl

end Path

namespace Package

/-- The steps of a package with the text of its manifest: its directory is made and the markup
written there; if there are images, their directory is made and they are written there in order; and
the manifest is written last, if one is wanted. -/
def plan (p : Package) (directory manifest : String) : List PackageStep :=
  let images := Path.front directory ++ p.settings.assetsDir
  [.makeDirectory directory,
    .writeFile (Path.front directory ++ p.settings.markupFile)
      p.edition.markup.toByteArray.data.toList] ++
  (match p.edition.assets with
    | [] => []
    | assets => .makeDirectory images ::
        assets.map fun asset => .writeFile (Path.front images ++ asset.name) asset.bytes) ++
  if p.settings.manifest then
    [.writeFile (Path.front directory ++ "manifest.json") manifest.toByteArray.data.toList]
  else []

/-- The names of the files of a package, from its directory and in the order of the steps. -/
def fileNames (p : Package) : List String :=
  p.settings.markupFile ::
    (p.edition.assets.map fun asset => p.settings.assetsDir ++ "/" ++ asset.name) ++
    if p.settings.manifest then ["manifest.json"] else []

namespace Admitted

variable {p : Package} {markup : String} (h : p.Admitted markup) (directory : String)
include h

theorem assetSteps_eq : p.assetSteps directory =
    match p.edition.assets with
    | [] => []
    | assets => .makeDirectory (Path.front directory ++ p.settings.assetsDir) ::
        assets.map fun asset =>
          .writeFile (Path.front (Path.front directory ++ p.settings.assetsDir) ++ asset.name)
            asset.bytes := by
  have himages : Path.join directory p.settings.assetsDir =
      Path.front directory ++ p.settings.assetsDir :=
    Path.join_eq_front directory h.assetsDir.relative
  have hpaths : (p.edition.assets.map fun asset => PackageStep.writeFile
      (Path.join (Path.front directory ++ p.settings.assetsDir) asset.name) asset.bytes) =
      p.edition.assets.map fun asset => .writeFile
        (Path.front (Path.front directory ++ p.settings.assetsDir) ++ asset.name) asset.bytes :=
    List.map_congr_left fun asset hasset => by
      rw [Path.join_eq_front _ (h.assets asset hasset).2.relative]
  unfold assetSteps
  dsimp only
  rw [himages, hpaths]
  cases p.edition.assets <;> rfl

/-- A package that is admitted is written by the steps of its plan. -/
theorem steps_eq : p.steps directory =
    p.plan directory (Manifest.ofEdition p.stamp p.settings p.edition).text := by
  have hmanifest : Path.join directory manifestFile = Path.front directory ++ "manifest.json" :=
    Path.join_eq_front directory (by decide)
  unfold steps manifestSteps manifest? plan
  rw [h.assetSteps_eq, hmanifest, Path.join_eq_front directory h.markup.2.relative]
  cases p.settings.manifest <;> rfl

theorem relative : ∀ file ∈ p.fileNames, Path.isAbsolute file = false := by
  intro file hfile
  rcases List.mem_append.1 hfile with hfile | hfile
  · rcases List.mem_cons.1 hfile with rfl | hfile
    · exact h.markup.2.relative
    · obtain ⟨asset, hasset, rfl⟩ := List.mem_map.1 hfile
      exact (h.assetsDir.append (h.assets asset hasset).2).1.relative
  · split at hfile
    · rw [List.mem_singleton.1 hfile]
      decide
    · cases hfile

end Admitted

/-- What is reported of a package: the names of its files, and the hash of its manifest. -/
theorem report_eq (p : Package) : p.report =
    { files := p.fileNames
      manifestHash := if p.settings.manifest then
        some (Manifest.ofEdition p.stamp p.settings p.edition).hash else none } := by
  unfold report fileNames manifest?
  cases p.settings.manifest <;> rfl

/-! ## Writes -/

/-- The outcome of a write of a package with its manifest that does the steps one after another. -/
structure Stepwise (p : Package) (m : Manifest) (directory : String) (tree : FileTree)
    (outcome : Except PackageError PackageReport × FileTree) : Prop where
  /-- It succeeds exactly if all steps can be done, and reports the files. -/
  completes : ∀ report after, outcome = (.ok report, after) ↔
    report = { files := p.fileNames
               manifestHash := if p.settings.manifest then some m.hash else none } ∧
      PackageStep.DoesAll (p.plan directory m.text) tree after
  /-- It fails with the path of the first step that cannot be done, and there is one such path. -/
  stops : ∀ error after, outcome = (.error error, after) → ∃ path failure,
    error = .unwritable path failure ∧
      PackageStep.StopsAt (p.plan directory m.text) tree path after ∧
      ∀ other last, PackageStep.StopsAt (p.plan directory m.text) tree other last → other = path
  /-- The files are named in the order in which they are written. -/
  listed : (p.fileNames.map fun file => tree.place (Path.front directory ++ file)) =
    PackageStep.places tree (PackageStep.files (p.plan directory m.text))
  /-- The manifest is that of the package, and is read back from its text. -/
  manifest : m.Describes p ∧ Manifest.decoder.read? m.text = some m

/-- A package with valid settings is written step by step. -/
theorem write_stepwise {settings : Settings} {root : Node} {p : Package}
    (hcompile : Edition.compile settings root = .ok p.edition) (hvalid : p.settings.fault? = none)
    (directory : String) (tree : FileTree) :
    p.Stepwise (Manifest.ofEdition p.stamp p.settings p.edition) directory tree
      (p.write system directory tree) := by
  obtain ⟨markup, hadmitted⟩ := exists_admitted hcompile hvalid
  rw [write_of_valid hvalid, hadmitted.steps_eq, report_eq]
  generalize hplan :
    p.plan directory (Manifest.ofEdition p.stamp p.settings p.edition).text = plan
  refine { completes := fun report after => ?_, stops := fun error after h => ?_, listed := ?_,
           manifest := ⟨Manifest.describes_ofEdition p, Manifest.read?_text _⟩ }
  all_goals rw [hplan]
  · rw [← PackageStep.runAll_eq_ok_iff]
    rcases PackageStep.runAll system plan tree with ⟨error | _, found⟩
    · exact iff_of_false nofun nofun
    · constructor
      · intro h
        cases h
        exact ⟨rfl, rfl⟩
      · rintro ⟨rfl, h⟩
        cases h
        rfl
  · rcases hrun : PackageStep.runAll system plan tree with ⟨⟨path, failure⟩ | _, found⟩
    · rw [hrun] at h
      cases h
      have hstops := PackageStep.stopsAt_of_runAll hrun
      exact ⟨path, failure, rfl, hstops, fun _ _ hother => hstops.path_eq hother⟩
    · rw [hrun] at h
      cases h
  · obtain ⟨hsteps, hfiles⟩ := places_eq_layout hadmitted tree directory
    rw [hadmitted.steps_eq, hplan] at hsteps
    rw [report_eq] at hfiles
    rw [hsteps, ← hfiles]
    refine List.map_congr_left fun file hfile => ?_
    rw [Path.join_eq_front directory (hadmitted.relative file hfile)]

/-- Settings by which the directory of the images is to be made below the markup file. -/
def buriedImages : Settings := { assetsDir := "index.mjml/assets" }

theorem write_stepwise_blocked : ∃ (p : Package) (after : FileTree),
    Edition.compile .standard Edition.pictures = .ok p.edition ∧ p.settings.fault? = none ∧
      p.write system "deep/out" (FileTree.empty "desk") =
        (.error (.unwritable "deep/out/index.mjml/assets" .notADirectory), after) ∧
      PackageStep.StopsAt (p.plan "deep/out" (Manifest.ofEdition p.stamp p.settings p.edition).text)
        (FileTree.empty "desk") "deep/out/index.mjml/assets" after := by
  have hstops : (Edition.compile .standard Edition.pictures).toOption.any (fun edition =>
      (write system { settings := buriedImages, edition, stamp := firstStamp } "deep/out"
        (FileTree.empty "desk")).1 =
          .error (.unwritable "deep/out/index.mjml/assets" .notADirectory)) = true := by
    decide +kernel
  cases hcompile : Edition.compile .standard Edition.pictures with
  | error error => rw [hcompile] at hstops; cases hstops
  | ok edition =>
    rw [hcompile] at hstops
    have hresult := of_decide_eq_true hstops
    rcases hwrite : write system { settings := buriedImages, edition, stamp := firstStamp }
      "deep/out" (FileTree.empty "desk") with ⟨result, after⟩
    rw [hwrite] at hresult
    dsimp only at hresult
    subst hresult
    have hvalid : buriedImages.fault? = none := by decide
    have hstepwise := write_stepwise (p := { settings := buriedImages, edition, stamp := firstStamp })
      hcompile hvalid "deep/out" (FileTree.empty "desk")
    obtain ⟨path, failure, herror, hstopped, -⟩ := hstepwise.stops _ _ hwrite
    cases herror
    exact ⟨_, after, hcompile.symm ▸ rfl, hvalid, hwrite, hstopped⟩

end Package

end Newsletter
