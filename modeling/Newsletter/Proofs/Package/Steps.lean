/-
Runs of package steps on a tree of files. Main facts: however far steps are carried out, they write
at the places of their files and make directories at the places of their paths and of the paths above
them, and alter nothing else; and after a run that succeeds every file that was written to a place of
its own has the content it was given.
-/
import Newsletter.Package
import Newsletter.Proofs.Storage.Programs
import Mathlib.Data.List.Nodup

namespace Newsletter

/-! ## Steps -/

namespace PackageStep

open FileTree

/-- The file that a step writes. -/
def file? : PackageStep → Option (String × Bytes)
  | .makeDirectory _ => none
  | .writeFile path content => some (path, content)

/-- The files that steps write, in order. -/
def files (steps : List PackageStep) : List (String × Bytes) := steps.filterMap file?

/-- The places of files in a tree. -/
def places (tree : FileTree) (files : List (String × Bytes)) : List Place :=
  files.map fun file => tree.place file.1

theorem places_of_home {tree other : FileTree} (h : other.home = tree.home)
    (files : List (String × Bytes)) : places other files = places tree files := by
  unfold places
  apply List.map_congr_left
  intro file _
  exact place_of_home h file.1

/-- A run carries out its first step and then, if that succeeded, the others. -/
theorem runAll_cons (step : PackageStep) (steps : List PackageStep) (tree : FileTree) :
    runAll system (step :: steps) tree =
      match step.run system tree with
      | (.error error, later) => (.error (step.path, error), later)
      | (.ok (), later) => runAll system steps later := by
  rw [runAll, bind_apply]
  rcases step.run system tree with ⟨error | _, later⟩ <;> rfl

theorem runAll_cons_ok {step : PackageStep} {steps : List PackageStep} {tree after : FileTree}
    (h : runAll system (step :: steps) tree = (.ok (), after)) :
    ∃ middle, step.run system tree = (.ok (), middle) ∧
      runAll system steps middle = (.ok (), after) := by
  rw [runAll_cons] at h
  rcases hrun : step.run system tree with ⟨error | _, middle⟩
  · rw [hrun] at h; cases h
  · rw [hrun] at h; exact ⟨middle, rfl, h⟩

theorem write_of_run {tree after : FileTree} {path : String} {content : Bytes}
    (h : (PackageStep.writeFile path content).run system tree = (.ok (), after)) :
    tree.write path content = .ok after :=
  (attempt_eq_ok_iff (·.write path content)).1 h

section

variable {origin : FileTree} {written made : Place → Prop}

/-- A step alters the place of its file, or those of its directory and of the paths above it. -/
theorem altersOnly_run {step : PackageStep}
    (hfile : ∀ file ∈ files [step], written (origin.place file.1))
    (hplaces : ∀ path, step = .makeDirectory path →
      ∀ above ∈ path :: Path.ancestors path, above ≠ "" → made (origin.place above)) :
    AltersOnly origin written made (step.run system) := by
  cases step with
  | makeDirectory path => exact altersOnly_makeDirectories (hplaces path rfl)
  | writeFile path content => exact altersOnly_write (hfile _ List.mem_cons_self) content

theorem files_cons (step : PackageStep) (steps : List PackageStep) :
    files (step :: steps) = files [step] ++ files steps :=
  List.filterMap_append (l := [step])

/-- Steps alter the places of their files and directories alone, however far they are carried out. -/
theorem altersOnly_runAll {steps : List PackageStep}
    (hfiles : ∀ file ∈ files steps, written (origin.place file.1))
    (hplaces : ∀ path, .makeDirectory path ∈ steps →
      ∀ above ∈ path :: Path.ancestors path, above ≠ "" → made (origin.place above)) :
    AltersOnly origin written made (runAll system steps) := by
  induction steps with
  | nil => exact altersOnly_pure _
  | cons step steps ih =>
    rw [files_cons] at hfiles
    obtain ⟨hfile, hfiles⟩ := List.forall_mem_append.1 hfiles
    have hstep : AltersOnly origin written made (step.run system) :=
      altersOnly_run hfile fun path hpath => hplaces path (hpath ▸ List.mem_cons_self)
    unfold runAll
    refine altersOnly_bind hstep fun result => ?_
    cases result with
    | error error => exact altersOnly_pure _
    | ok _ => exact ih hfiles fun path hpath => hplaces path (List.mem_cons_of_mem _ hpath)

end

theorem home_of_run {step : PackageStep} {tree after : FileTree} {result : Except FileError Unit}
    (h : step.run system tree = (result, after)) : after.home = tree.home := by
  have halters : Alters (fun _ => True) (fun _ => True) tree (step.run system tree).2 :=
    altersOnly_run (fun _ _ => trivial) (fun _ _ _ _ _ => trivial) tree rfl
  rw [h] at halters
  exact halters.home

/-- A run that succeeds keeps the directories, and everything but the files it writes. -/
theorem runAll_ok_keeps {steps : List PackageStep} {tree after : FileTree}
    (h : runAll system steps tree = (.ok (), after)) :
    Keeps tree after ∧ ∀ place entry, place ∉ places tree (files steps) →
      tree.entry place = some entry → after.entry place = some entry := by
  have halters : Alters (· ∈ places tree (files steps)) (fun _ => True) tree
      (runAll system steps tree).2 :=
    altersOnly_runAll (fun file hfile => List.mem_map.2 ⟨file, hfile, rfl⟩)
      (fun _ _ _ _ _ => trivial) tree rfl
  rw [h] at halters
  exact ⟨halters.keeps, fun place entry hplace => halters.entry_eq hplace⟩

theorem leads_of_mem_files {steps : List PackageStep} {tree after : FileTree}
    (h : runAll system steps tree = (.ok (), after)) {path : String} {content : Bytes}
    (hfile : (path, content) ∈ files steps) : after.Leads path := by
  induction steps generalizing tree with
  | nil => cases hfile
  | cons step steps ih =>
    obtain ⟨middle, hstep, hsteps⟩ := runAll_cons_ok h
    cases step with
    | makeDirectory _ => exact ih hsteps hfile
    | writeFile written bytes =>
      rcases List.mem_cons.1 hfile with hfile | hfile
      · cases hfile
        have hwrite : tree.write path content = .ok middle := write_of_run hstep
        have hleads := (write_eq_ok_iff.1 hwrite).1
        exact (hleads.keeps (keeps_of_write hwrite)).keeps (runAll_ok_keeps hsteps).1
      · exact ih hsteps hfile

/-- Where files are written that all have one content, the last of them stays. -/
theorem entry_of_files {steps : List PackageStep} {tree after : FileTree} {place : Place}
    {content : Bytes} (h : runAll system steps tree = (.ok (), after))
    (hmem : place ∈ places tree (files steps))
    (hsame : ∀ file ∈ files steps, tree.place file.1 = place → file.2 = content) :
    after.entry place = some (.file content) := by
  induction steps generalizing tree with
  | nil => cases hmem
  | cons step steps ih =>
    obtain ⟨middle, hstep, hsteps⟩ := runAll_cons_ok h
    have hhome := home_of_run hstep
    cases step with
    | makeDirectory _ =>
      refine ih hsteps (by rw [places_of_home hhome]; exact hmem) fun file hfile hplace => ?_
      exact hsame file hfile (by rw [← place_of_home hhome]; exact hplace)
    | writeFile path bytes =>
      by_cases hlater : place ∈ places middle (files steps)
      · refine ih hsteps hlater fun file hfile hplace => ?_
        exact hsame file (List.mem_cons_of_mem _ hfile) (by rw [← place_of_home hhome]; exact hplace)
      · -- nothing is written there any more, so this is the last of them
        have hplace : place = tree.place path := by
          rw [places_of_home hhome] at hlater
          rcases List.mem_cons.1 hmem with hplace | hmem
          · exact hplace
          · exact absurd hmem hlater
        have hwrite : tree.write path bytes = .ok middle := write_of_run hstep
        obtain ⟨hleads, -, rfl⟩ := write_eq_ok_iff.1 hwrite
        have hbytes : bytes = content := hsame (path, bytes) List.mem_cons_self hplace.symm
        refine (runAll_ok_keeps hsteps).2 place _ hlater ?_
        rw [hplace, hbytes]
        exact entry_put_self tree hleads.place_ne_nil _

/-- After a run that succeeds a file that was written is read again, if all that was written to its
place has the same content. -/
theorem read_of_mem_files {steps : List PackageStep} {tree after : FileTree} {path : String}
    {content : Bytes} (h : runAll system steps tree = (.ok (), after))
    (hfile : (path, content) ∈ files steps)
    (hsame : ∀ file ∈ files steps, tree.place file.1 = tree.place path → file.2 = content) :
    after.read path = .ok content := by
  refine read_eq_ok_iff.2 ⟨leads_of_mem_files h hfile, ?_⟩
  rw [place_of_home (runAll_ok_keeps h).1.home]
  exact entry_of_files h (List.mem_map.2 ⟨_, hfile, rfl⟩) hsame

/-- Files at different places are all read again. -/
theorem read_of_nodup {steps : List PackageStep} {tree after : FileTree}
    (h : runAll system steps tree = (.ok (), after)) (hnodup : (places tree (files steps)).Nodup)
    {path : String} {content : Bytes} (hfile : (path, content) ∈ files steps) :
    after.read path = .ok content := by
  refine read_of_mem_files h hfile fun file hmem hplace => ?_
  rw [List.inj_on_of_nodup_map hnodup hmem hfile hplace]

end PackageStep

end Newsletter
