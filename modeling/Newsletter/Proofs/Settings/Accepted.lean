/-
Which settings are valid. They are documented by the texts and the scale alone: a bare file name, a
relative directory that names something and never goes up, and a scale above zero and up to four.
Main statement: the check goes by the parts of the paths, so it admits the documented settings and
beyond them exactly those whose file name is followed by slashes and dots that mean nothing. With
those no package can be written.
-/
import Newsletter.Proofs.Binary.Rounding
import Newsletter.Proofs.Package.Contents

namespace Newsletter

/-! ## Paths by their segments -/

namespace Path

/-- A path begins with an empty segment if it is absolute or empty. -/
theorem head_segments_eq_empty {path : String} :
    (segments path).head? = some "" ↔ isAbsolute path = true ∨ path = "" := by
  have hpath : path = String.ofList path.toList := String.ofList_toList.symm
  unfold segments isAbsolute
  generalize path.toList = cs at hpath
  subst hpath
  cases cs with
  | nil => simp [splitSlashes]
  | cons c cs =>
    by_cases hc : c = '/'
    · subst hc
      simp [splitSlashes_slash]
    · obtain ⟨segment, segments, h⟩ := List.exists_cons_of_ne_nil (splitSlashes_ne_nil cs)
      simp [splitSlashes_cons hc h, hc, ← String.toList_inj]

/-- Nothing stands in front of the segments of a path that begins with a name. -/
theorem opening_eq_nil_iff {path first : String} {rest : List String}
    (h : segments path = first :: rest) :
    opening path = [] ↔ (first = "" → path = "") ∧ first ≠ "." := by
  have hhead : (segments path).head? = some "" ↔ isAbsolute path = true ∨ path = "" :=
    head_segments_eq_empty
  rw [h, List.head?_cons, Option.some.injEq] at hhead
  unfold opening
  rw [hhead, h, List.head?_cons]
  cases habs : isAbsolute path with
  | true =>
    have hne : path ≠ "" := by
      rintro rfl
      cases habs
    simp [hne]
  | false => simp

theorem ofSegment?_eq_none_iff {segment : String} :
    Part.ofSegment? segment = none ↔ segment = "" ∨ segment = "." := by
  unfold Part.ofSegment?
  split
  · rename_i h; simp [h]
  · rename_i h
    refine iff_of_false ?_ h
    split <;> simp

theorem ofSegment?_eq_name_iff {segment text : String} :
    Part.ofSegment? segment = some (.name text) ↔ segment = text ∧ segment ∉ ["", ".", ".."] := by
  unfold Part.ofSegment?
  split
  · rename_i h; rcases h with rfl | rfl <;> simp
  · rename_i h
    rw [not_or] at h
    split <;> simp_all

/-- A path with one name in front and nothing behind it but segments that mean nothing. -/
def NamesOne (path : String) : Prop :=
  ∃ name rest, segments path = name :: rest ∧ name ∉ ["", ".", ".."] ∧
    ∀ segment ∈ rest, segment = "" ∨ segment = "."

theorem isPlainName_iff {path : String} : Settings.isPlainName path = true ↔ NamesOne path := by
  have hparts : parts path = opening path ++ (segments path).filterMap Part.ofSegment? := rfl
  obtain ⟨first, rest, hsegments⟩ := List.exists_cons_of_ne_nil (segments_ne_nil path)
  have hopening := opening_eq_nil_iff hsegments
  rw [isPlainName_iff_parts]
  constructor
  · rintro ⟨text, hplain⟩
    have hnil := opening_eq_nil_of_parts hplain
    rw [hparts, hnil, hsegments, List.nil_append] at hplain
    cases hfirst : Part.ofSegment? first with
    | none =>
      -- only the empty path begins with a segment that means nothing, and it has no other
      have hempty := (hopening.1 hnil).1 ((ofSegment?_eq_none_iff.1 hfirst).resolve_right
        (hopening.1 hnil).2)
      rw [hempty, segments_of_notMem (by decide)] at hsegments
      obtain ⟨rfl, rfl⟩ := List.cons.inj hsegments
      cases hplain
    | some part =>
      rw [List.filterMap_cons_some hfirst] at hplain
      obtain ⟨rfl, hrest⟩ := List.cons.inj hplain
      exact ⟨first, rest, hsegments, (ofSegment?_eq_name_iff.1 hfirst).2, fun segment hsegment =>
        ofSegment?_eq_none_iff.1 (List.filterMap_eq_nil_iff.1 hrest segment hsegment)⟩
  · rintro ⟨name, others, hsame, hname, hrest⟩
    obtain ⟨rfl, rfl⟩ := List.cons.inj (hsegments.symm.trans hsame)
    have hmeans : first ≠ "" ∧ first ≠ "." := by
      constructor <;> rintro rfl <;> simp at hname
    have hnil : opening path = [] := hopening.2 ⟨fun h => absurd h hmeans.1, hmeans.2⟩
    have htail : rest.filterMap Part.ofSegment? = [] :=
      List.filterMap_eq_nil_iff.2 fun segment h => ofSegment?_eq_none_iff.2 (hrest segment h)
    refine ⟨first, ?_⟩
    rw [hparts, hnil, hsegments, List.nil_append,
      List.filterMap_cons_some (ofSegment?_eq_name_iff.2 ⟨rfl, hname⟩), htail]

/-- A path without slashes names one thing unless it is empty or dots alone. -/
theorem namesOne_of_notMem {path : String} (h : '/' ∉ path.toList) :
    NamesOne path ↔ path ∉ ["", ".", ".."] := by
  unfold NamesOne
  rw [segments_of_notMem h]
  constructor
  · rintro ⟨name, rest, hsegments, hname, -⟩
    rwa [← (List.cons.inj hsegments).1] at hname
  · exact fun hname => ⟨path, [], rfl, hname, nofun⟩

/-- A path is split at its last slash. -/
theorem exists_last_slash {path : String} (h : '/' ∈ path.toList) :
    ∃ first last, path = first ++ "/" ++ last ∧ '/' ∉ last.toList := by
  obtain ⟨last, first, hchars, hlast⟩ := List.eq_append_cons_of_mem (List.mem_reverse.2 h)
  refine ⟨String.ofList first.reverse, String.ofList last.reverse, ?_, by simpa using hlast⟩
  rw [← List.reverse_inj, List.reverse_reverse] at hchars
  rw [← String.toList_inj, hchars]
  simp

/-- Behind the last slash of a path of one name stands nothing, or a dot. -/
theorem NamesOne.exists_last {path : String} (h : NamesOne path) (hslash : '/' ∈ path.toList) :
    ∃ first last, path = first ++ "/" ++ last ∧ (last = "" ∨ last = ".") := by
  obtain ⟨name, rest, hsegments, -, hrest⟩ := h
  obtain ⟨first, last, hpath, hlast⟩ := exists_last_slash hslash
  refine ⟨first, last, hpath, hrest last ?_⟩
  obtain ⟨segment, segments, hfirst⟩ := List.exists_cons_of_ne_nil (segments_ne_nil first)
  rw [hpath, segments_append, segments_of_notMem hlast, hfirst, List.cons_append] at hsegments
  rw [← (List.cons.inj hsegments).2]
  exact List.mem_concat_self

theorem getLast_join (directory : String) {path : String} (hrelative : isAbsolute path = false)
    (hne : path ≠ "") : (join directory path).toList.getLast? = path.toList.getLast? := by
  have hchars : path.toList ≠ [] := mt String.toList_eq_nil_iff.1 hne
  unfold join
  rw [hrelative, if_neg nofun]
  split
  · rw [String.toList_append, List.getLast?_append_of_ne_nil _ hchars]
  · rw [String.toList_append, List.getLast?_append_of_ne_nil _ hchars]

/-- No file can stand under a path of one name with a slash behind it. -/
theorem NamesOne.slash_notMem_of_leads {path directory : String} (h : NamesOne path)
    {tree : FileTree} (hleads : tree.Leads (join directory path)) : '/' ∉ path.toList := by
  intro hslash
  obtain ⟨-, -, -, hcontained⟩ := contained_of_isPlainName (isPlainName_iff.2 h)
  obtain ⟨first, last, hpath, rfl | rfl⟩ := h.exists_last hslash
  · refine hleads.bare ?_
    rw [getLast_join directory hcontained.relative hcontained.ne_empty, hpath]
    simp [String.toList_append]
  · obtain ⟨parent, name, hfound, -⟩ := hleads.found
    have hlast := hfound.last
    have hdot : names "." = ["."] := names_of_notMem (by decide) (by decide)
    rw [names_join directory hcontained.relative, hpath, names_append, hdot, ← List.append_assoc,
      List.getLast?_concat] at hlast
    exact hfound.proper.1 (Option.some.inj hlast).symm

theorem contained_iff {path : String} : Contained path ↔ isAbsolute path = false ∧
    ".." ∉ segments path ∧ ∃ segment ∈ segments path, segment ≠ "" ∧ segment ≠ "." := by
  have hup : ".." ∈ names path ↔ ".." ∈ segments path := by simp [names]
  have hnamed : texts path ≠ [] ↔ ∃ segment ∈ segments path, segment ≠ "" ∧ segment ≠ "." := by
    unfold texts names
    rw [List.filter_filter, Ne, List.filter_eq_nil_iff]
    simp [and_comm]
  rw [← hup, ← hnamed]
  constructor
  · exact fun h => ⟨h.relative, h.steady, h.named⟩
  · rintro ⟨hrelative, hsteady, hnames⟩
    exact ⟨hrelative, hsteady, hnames⟩

theorem isContained_iff {path : String} : Settings.isContained path = true ↔ Contained path := by
  refine ⟨contained_of_isContained, fun h => ?_⟩
  have hopening : ∀ part ∈ opening path, part = .current := by
    unfold opening
    rw [h.relative, if_neg nofun]
    split <;> simp
  unfold Settings.isContained
  rw [h.parts_eq, Bool.and_eq_true, List.any_eq_true, List.all_eq_true]
  constructor
  · obtain ⟨text, htext⟩ := List.exists_mem_of_ne_nil _ h.named
    exact ⟨.name text, List.mem_append_right _ (List.mem_map_of_mem htext), rfl⟩
  · intro part hpart
    rcases List.mem_append.1 hpart with hpart | hpart
    · rw [hopening part hpart]; rfl
    · obtain ⟨text, -, rfl⟩ := List.mem_map.1 hpart
      rfl

end Path

/-! ## Scales by their values -/

namespace Binary

variable {f : Format}

/-- The value of a number. -/
def value (x : Binary f) : ℚ := if x.negative then -x.magnitude else x.magnitude

theorem magnitude_nonneg (x : Binary f) : 0 ≤ x.magnitude :=
  mul_nonneg (Nat.cast_nonneg _) (two_zpow_pos _).le

theorem value_pos_iff {x : Binary f} : 0 < x.value ↔ x.negative = false ∧ x.isZero = false := by
  have hnonneg := x.magnitude_nonneg
  have hzero : x.isZero = false ↔ x.magnitude ≠ 0 := by
    rw [Ne, magnitude_eq_zero_iff]
    exact beq_eq_false_iff_ne
  rw [hzero, value]
  cases x.negative with
  | true => simpa using hnonneg
  | false => simpa using hnonneg.lt_iff_ne.trans ne_comm

end Binary

namespace Scale

/-- The value of a scale that is finite. -/
def value? : Scale → Option ℚ
  | .finite x => some x.value
  | .infinite _ => none

theorem isExportable_iff {scale : Scale} :
    scale.isExportable = true ↔ ∃ r, scale.value? = some r ∧ 0 < r ∧ r ≤ 4 := by
  cases scale with
  | infinite negative => simp [isExportable, value?]
  | finite x =>
    have hfour : x.ratio.1 ≤ 4 * x.ratio.2 ↔ x.magnitude ≤ 4 := by
      have hden : (0 : ℚ) < x.ratio.2 := by exact_mod_cast x.ratio_pos
      rw [← x.ratio_value, div_le_iff₀ hden]
      exact_mod_cast Iff.rfl
    have hvalue : x.negative = false → x.value = x.magnitude := fun h => by simp [Binary.value, h]
    simp only [isExportable, value?, Option.some.injEq, exists_eq_left', Bool.and_eq_true,
      Bool.not_eq_true', decide_eq_true_eq, Binary.value_pos_iff, hfour]
    exact and_congr_right fun h => by rw [hvalue h.1]

end Scale

/-! ## Valid settings -/

namespace Settings

/-- What is documented of valid settings, apart from the file of the markup. -/
structure KeepsImages (s : Settings) : Prop where
  visible : Text.isBlank s.assetsDir = false
  relative : s.assetsDir.toList.head? ≠ some '/'
  steady : ".." ∉ Path.segments s.assetsDir
  named : ∃ segment ∈ Path.segments s.assetsDir, segment ≠ "" ∧ segment ≠ "."
  scale : ∃ r, s.exportScale.value? = some r ∧ 0 < r ∧ r ≤ 4

/-- What is documented of valid settings. -/
structure Documented (s : Settings) : Prop extends KeepsImages s where
  markupVisible : Text.isBlank s.markupFile = false
  markupBare : '/' ∉ s.markupFile.toList
  markupNamed : s.markupFile ≠ "." ∧ s.markupFile ≠ ".."

theorem keepsImages_iff {s : Settings} : s.KeepsImages ↔ Text.isBlank s.assetsDir = false ∧
    isContained s.assetsDir = true ∧ s.exportScale.isExportable = true := by
  rw [Path.isContained_iff, Path.contained_iff, Scale.isExportable_iff]
  have hrelative : Path.isAbsolute s.assetsDir = false ↔ s.assetsDir.toList.head? ≠ some '/' :=
    decide_eq_false_iff_not
  rw [hrelative]
  constructor
  · exact fun h => ⟨h.visible, ⟨h.relative, h.steady, h.named⟩, h.scale⟩
  · rintro ⟨hvisible, ⟨hrelative, hsteady, hnamed⟩, hscale⟩
    exact ⟨hvisible, hrelative, hsteady, hnamed, hscale⟩

theorem fault?_eq_none_iff_namesOne {s : Settings} : s.fault? = none ↔
    Text.isBlank s.markupFile = false ∧ Path.NamesOne s.markupFile ∧ s.KeepsImages := by
  rw [fault?_eq_none_iff, Path.isPlainName_iff, keepsImages_iff]

/-- The documented settings are those accepted without a slash in the name of the markup file. -/
theorem documented_iff {s : Settings} :
    s.Documented ↔ s.fault? = none ∧ '/' ∉ s.markupFile.toList := by
  rw [fault?_eq_none_iff_namesOne]
  constructor
  · intro h
    have hne : s.markupFile ≠ "" := by
      intro hempty
      have hvisible := h.markupVisible
      rw [hempty] at hvisible
      exact absurd hvisible (by decide)
    refine ⟨⟨h.markupVisible, (Path.namesOne_of_notMem h.markupBare).2 ?_, h.toKeepsImages⟩,
      h.markupBare⟩
    simp [hne, h.markupNamed]
  · rintro ⟨⟨hvisible, hone, himages⟩, hslash⟩
    have hnamed := (Path.namesOne_of_notMem hslash).1 hone
    simp only [List.mem_cons, List.not_mem_nil, or_false, not_or] at hnamed
    exact ⟨himages, hvisible, hslash, hnamed.2⟩

/-- Which settings are accepted: those documented, and those that have slashes and dots behind a
single name in place of a bare file name. -/
theorem accepted_exactly (s : Settings) :
    (s.fault? = none ↔
      Text.isBlank s.markupFile = false ∧ Path.NamesOne s.markupFile ∧ s.KeepsImages) ∧
    (s.Documented ↔ s.fault? = none ∧ '/' ∉ s.markupFile.toList) :=
  ⟨fault?_eq_none_iff_namesOne, documented_iff⟩

/-- A slash behind the name of the markup file is not noticed. -/
theorem slash_accepted : ({ markupFile := "a/" } : Settings).fault? = none ∧
    ¬ ({ markupFile := "a/" } : Settings).Documented :=
  ⟨by decide, fun h => h.markupBare (by decide)⟩

/-- Only documented settings are packaged: with those accepted beyond them every write fails. -/
theorem documented_of_write {p : Package} {directory : String} {tree after : FileTree}
    {report : PackageReport}
    (h : p.write FileTree.system directory tree = (.ok report, after)) : p.settings.Documented := by
  obtain ⟨hfault, -, hrun⟩ := Package.write_eq_ok h
  have hmarkup : (Path.join directory p.settings.markupFile, Bytes.ofText p.edition.markup) ∈
      PackageStep.files (p.steps directory) := by
    rw [Package.files_steps]
    exact List.mem_cons_self
  have hleads := PackageStep.leads_of_mem_files hrun hmarkup
  have hone := (fault?_eq_none_iff_namesOne.1 hfault).2.1
  exact documented_iff.2 ⟨hfault, hone.slash_notMem_of_leads hleads⟩

end Settings

end Newsletter
