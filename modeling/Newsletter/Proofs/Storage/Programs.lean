/-
Programs on trees of files. Main fact: making a directory with all that is missing above it alters
nothing but the places of its path and of the paths above it, whether or not it succeeds.
-/
import Newsletter.Proofs.Storage.Directories

namespace Newsletter.FileTree

theorem bind_apply {α β : Type} (first : StateM FileTree α) (next : α → StateM FileTree β)
    (tree : FileTree) : (first >>= next) tree = next (first tree).1 (first tree).2 := rfl

/-! ## Programs that alter a few places -/

variable {α β : Type} {origin : FileTree} {written made : Place → Prop}

/-- A program that writes files and makes directories at places for them alone, in all trees with
the working directory of `origin`, and whether or not it succeeds. -/
def AltersOnly (origin : FileTree) (written made : Place → Prop) (program : StateM FileTree α) :
    Prop :=
  ∀ tree, tree.home = origin.home → Alters written made tree (program tree).2

theorem altersOnly_pure (a : α) : AltersOnly origin written made (pure a) :=
  fun tree _ => .refl tree

theorem altersOnly_bind {first : StateM FileTree α} {next : α → StateM FileTree β}
    (hfirst : AltersOnly origin written made first)
    (hnext : ∀ a, AltersOnly origin written made (next a)) :
    AltersOnly origin written made (first >>= next) := by
  intro tree hhome
  have hmiddle := hfirst tree hhome
  exact hmiddle.trans (hnext (first tree).1 (first tree).2 (hmiddle.home.trans hhome))

theorem altersOnly_isDirectory (path : String) :
    AltersOnly origin written made (system.isDirectory path) :=
  fun tree _ => .refl tree

theorem altersOnly_attempt {change : FileTree → Except FileError FileTree}
    (h : ∀ tree after, tree.home = origin.home → change tree = .ok after →
      Alters written made tree after) : AltersOnly origin written made (attempt change) := by
  intro tree hhome
  unfold attempt
  cases hchange : change tree with
  | ok after => exact h tree after hhome hchange
  | error error => exact .refl tree

theorem altersOnly_write {path : String} (hplace : written (origin.place path)) (content : Bytes) :
    AltersOnly origin written made (system.write path content) := by
  refine altersOnly_attempt fun tree after hhome h => alters_of_write ?_ h
  rw [place_of_home hhome]
  exact hplace

theorem altersOnly_makeDirectory {path : String} (hplace : path ≠ "" → made (origin.place path)) :
    AltersOnly origin written made (system.makeDirectory path) := by
  refine altersOnly_attempt fun tree after hhome h => alters_of_makeDirectory ?_ h
  rw [place_of_home hhome]
  exact hplace

theorem altersOnly_ensureDirectory {path : String} (hplace : path ≠ "" → made (origin.place path)) :
    AltersOnly origin written made (system.ensureDirectory path) := by
  unfold System.ensureDirectory
  refine altersOnly_bind (altersOnly_makeDirectory hplace) fun result => ?_
  cases result with
  | ok _ => exact altersOnly_pure _
  | error error =>
    refine altersOnly_bind (altersOnly_isDirectory path) fun found => ?_
    cases found with
    | true => exact altersOnly_pure _
    | false => exact altersOnly_pure _

theorem altersOnly_ensureBelow {ancestors : List String} : ∀ {path : String},
    (∀ above ∈ path :: ancestors, above ≠ "" → made (origin.place above)) →
      AltersOnly origin written made (system.ensureBelow path ancestors) := by
  -- each path is tried before the one above it, so the path is general in the induction
  induction ancestors with
  | nil =>
    intro path hplaces
    exact altersOnly_ensureDirectory (hplaces path List.mem_cons_self)
  | cons parent ancestors ih =>
    intro path hplaces
    obtain ⟨hpath, hplaces⟩ := List.forall_mem_cons.1 hplaces
    have hensure : AltersOnly origin written made (system.ensureDirectory path) :=
      altersOnly_ensureDirectory hpath
    unfold System.ensureBelow
    refine altersOnly_bind hensure fun result => ?_
    split
    · split
      · exact altersOnly_pure _
      · refine altersOnly_bind (ih hplaces) fun below => ?_
        cases below with
        | ok _ => exact hensure
        | error error => exact altersOnly_pure _
    · exact altersOnly_pure _

/-- Making a directory and those above it alters their places alone. -/
theorem altersOnly_makeDirectories {path : String}
    (hplaces : ∀ above ∈ path :: Path.ancestors path, above ≠ "" → made (origin.place above)) :
    AltersOnly origin written made (system.makeDirectories path) := by
  unfold System.makeDirectories
  split
  · exact altersOnly_pure _
  · exact altersOnly_ensureBelow hplaces

/-! ## Single changes -/

theorem attempt_eq_ok_iff (change : FileTree → Except FileError FileTree) {tree after : FileTree} :
    attempt change tree = (.ok (), after) ↔ change tree = .ok after := by
  unfold attempt
  cases change tree with
  | ok found => exact ⟨fun h => by cases h; rfl, fun h => by cases h; rfl⟩
  | error error => exact iff_of_false nofun nofun

theorem attempt_eq_error (change : FileTree → Except FileError FileTree) {tree after : FileTree}
    {error : FileError} (h : attempt change tree = (.error error, after)) : after = tree := by
  unfold attempt at h
  cases hchange : change tree with
  | ok found =>
    rw [hchange] at h
    cases h
  | error failure =>
    rw [hchange] at h
    cases h
    rfl

end Newsletter.FileTree
