/-
The names of a path: its segments that are not empty. Main facts: a path below a directory has the
names of the directory and then its own; slashes that are repeated make no difference to the parts of
a path; and a path that the settings admit never leaves the directory it is relative to.
-/
import Newsletter.Settings
import Mathlib.Data.List.Basic

namespace Newsletter

namespace Path

/-! ## Segments -/

theorem splitSlashes_ne_nil (cs : List Char) : splitSlashes cs ≠ [] := by
  cases cs with
  | nil => simp [splitSlashes]
  | cons c cs =>
    unfold splitSlashes
    split
    · simp
    · split <;> simp

theorem splitSlashes_slash (cs : List Char) : splitSlashes ('/' :: cs) = [] :: splitSlashes cs := by
  rw [splitSlashes]
  split
  · rename_i h; exact absurd h (splitSlashes_ne_nil cs)
  · rename_i h; rw [if_pos rfl, h]

theorem splitSlashes_cons {c : Char} (hc : c ≠ '/') {cs segment : List Char}
    {segments : List (List Char)} (h : splitSlashes cs = segment :: segments) :
    splitSlashes (c :: cs) = (c :: segment) :: segments := by
  rw [splitSlashes, h]
  simp only [if_neg hc]

/-- A slash parts the segments before it from those behind it. -/
theorem splitSlashes_append (first rest : List Char) :
    splitSlashes (first ++ '/' :: rest) = splitSlashes first ++ splitSlashes rest := by
  induction first with
  | nil => rw [List.nil_append, splitSlashes_slash]; rfl
  | cons c first ih =>
    rw [List.cons_append]
    by_cases hc : c = '/'
    · subst hc
      rw [splitSlashes_slash, splitSlashes_slash, ih, List.cons_append]
    · obtain ⟨segment, segments, h⟩ := List.exists_cons_of_ne_nil (splitSlashes_ne_nil first)
      rw [splitSlashes_cons hc h]
      rw [h, List.cons_append] at ih
      rw [splitSlashes_cons hc ih, List.cons_append]

theorem splitSlashes_of_notMem {cs : List Char} (h : '/' ∉ cs) : splitSlashes cs = [cs] := by
  induction cs with
  | nil => rfl
  | cons c cs ih =>
    rw [List.mem_cons, not_or] at h
    exact splitSlashes_cons (Ne.symm h.1) (ih h.2)

theorem segments_append (first rest : String) :
    segments (first ++ "/" ++ rest) = segments first ++ segments rest := by
  unfold segments
  rw [String.toList_append, String.toList_append, List.append_assoc]
  show (splitSlashes (first.toList ++ '/' :: rest.toList)).map _ = _
  rw [splitSlashes_append, List.map_append]

theorem segments_of_notMem {path : String} (h : '/' ∉ path.toList) : segments path = [path] := by
  rw [segments, splitSlashes_of_notMem h, List.map_singleton, String.ofList_toList]

theorem segments_ne_nil (path : String) : segments path ≠ [] := by
  unfold segments
  rw [Ne, List.map_eq_nil_iff]
  exact splitSlashes_ne_nil _

/-! ## Names -/

/-- The segments of a path that are not empty. -/
def names (path : String) : List String := (segments path).filter (· ≠ "")

theorem names_append (first rest : String) :
    names (first ++ "/" ++ rest) = names first ++ names rest := by
  unfold names
  rw [segments_append, List.filter_append]

theorem names_empty : names "" = [] := by
  unfold names
  rw [segments_of_notMem (by simp)]
  rfl

theorem names_of_notMem {path : String} (h : '/' ∉ path.toList) (hne : path ≠ "") :
    names path = [path] := by
  unfold names
  rw [segments_of_notMem h]
  simp [hne]

/-- A text that ends in a slash is another text with a slash behind it. -/
theorem exists_eq_append_slash {path : String} (h : path.toList.getLast? = some '/') :
    ∃ first, path = first ++ "/" := by
  obtain ⟨cs, hcs⟩ := List.getLast?_eq_some_iff.1 h
  refine ⟨String.ofList cs, ?_⟩
  rw [← String.toList_inj, hcs]
  simp

/-- A relative path stands behind a slash, unless the directory has no name. -/
theorem exists_join_eq {directory : String} (hdir : directory ≠ "") :
    ∃ first, (directory = first ∨ directory = first ++ "/") ∧
      ∀ path, isAbsolute path = false → join directory path = first ++ "/" ++ path := by
  by_cases hslash : directory.toList.getLast? = some '/'
  · obtain ⟨first, rfl⟩ := exists_eq_append_slash hslash
    refine ⟨first, .inr rfl, fun path h => ?_⟩
    unfold join
    rw [h, if_neg (by simp), if_pos (.inr hslash)]
  · refine ⟨directory, .inl rfl, fun path h => ?_⟩
    unfold join
    rw [h, if_neg (by simp), if_neg (by simp [hdir, hslash])]

theorem join_empty {path : String} (h : isAbsolute path = false) : join "" path = path := by
  unfold join
  rw [h, if_neg (by simp), if_pos (.inl rfl), String.empty_append]

/-- The names of a path below a directory come after those of the directory. -/
theorem names_join (directory : String) {path : String} (h : isAbsolute path = false) :
    names (join directory path) = names directory ++ names path := by
  by_cases hdir : directory = ""
  · rw [hdir, join_empty h, names_empty, List.nil_append]
  · obtain ⟨first, hfirst, hjoin⟩ := exists_join_eq hdir
    have hnames : names directory = names first := by
      rcases hfirst with rfl | rfl
      · rfl
      · have := names_append first ""
        rwa [String.append_empty, names_empty, List.append_nil] at this
    rw [hjoin path h, names_append, hnames]

theorem isAbsolute_append {first : String} (h : first ≠ "") (rest : String) :
    isAbsolute (first ++ rest) = isAbsolute first := by
  obtain ⟨c, cs, hcs⟩ := List.exists_cons_of_ne_nil (mt String.toList_eq_nil_iff.1 h)
  unfold isAbsolute
  rw [String.toList_append, hcs, List.cons_append, List.head?_cons, List.head?_cons]

theorem isAbsolute_join (directory : String) {path : String} (h : isAbsolute path = false) :
    isAbsolute (join directory path) = isAbsolute directory := by
  by_cases hdir : directory = ""
  · rw [hdir, join_empty h, h]; rfl
  · obtain ⟨first, rfl | rfl, hjoin⟩ := exists_join_eq hdir
    · rw [hjoin path h, String.append_assoc, isAbsolute_append hdir]
    · rw [hjoin path h, isAbsolute_append hdir]

/-! ## Parts -/

/-- The part in front of the names of a path. -/
def opening (path : String) : List Part :=
  if isAbsolute path then [.root]
  else if (segments path).head? = some "." then [.current]
  else []

theorem parts_eq (path : String) :
    parts path = opening path ++ (names path).filterMap Part.ofSegment? := by
  show opening path ++ _ = _
  unfold names
  rw [List.filterMap_filter]
  congr 1
  apply List.filterMap_congr
  intro segment _
  by_cases h : segment = ""
  · simp [h, Part.ofSegment?]
  · simp [h]

/-- What follows a slash makes no difference to the part in front. -/
theorem opening_append (first rest other : String) :
    opening (first ++ "/" ++ rest) = opening (first ++ "/" ++ other) := by
  have habs : ∀ tail, isAbsolute (first ++ "/" ++ tail) = isAbsolute (first ++ "/") :=
    fun tail => isAbsolute_append (by simp) tail
  have hhead : ∀ tail, (segments (first ++ "/" ++ tail)).head? = (segments first).head? := by
    intro tail
    rw [segments_append, List.head?_append_of_ne_nil _ (segments_ne_nil first)]
  unfold opening
  rw [habs, habs, hhead, hhead]

/-- A path below a directory that is named starts as the directory does. -/
theorem opening_join {directory path : String} (hdirectory : directory ≠ "")
    (h : isAbsolute path = false) : opening (join directory path) = opening directory := by
  obtain ⟨first, hfirst, hjoin⟩ := exists_join_eq hdirectory
  rw [hjoin path h]
  rcases hfirst with rfl | rfl
  · unfold opening
    rw [String.append_assoc, isAbsolute_append hdirectory, ← String.append_assoc, segments_append,
      List.head?_append_of_ne_nil _ (segments_ne_nil directory)]
  · have hsame := opening_append first path ""
    rwa [String.append_empty] at hsame

/-- The names of a path that are not `.`. -/
def texts (path : String) : List String := (names path).filter (· ≠ ".")

/-- A path that never goes up has its names as parts. -/
theorem filterMap_ofSegment? {path : String} (h : ".." ∉ names path) :
    (names path).filterMap Part.ofSegment? = (texts path).map .name := by
  unfold texts
  rw [← List.filterMap_eq_map, List.filterMap_filter]
  apply List.filterMap_congr
  intro name hname
  have hup : name ≠ ".." := fun heq => h (heq ▸ hname)
  have hne : name ≠ "" := by simpa using (List.mem_filter.1 hname).2
  by_cases hdot : name = "."
  · simp [hdot, Part.ofSegment?]
  · simp [hdot, hne, hup, Part.ofSegment?]

theorem isName_opening (path : String) : ∀ part ∈ opening path, part.isName = false := by
  unfold opening
  intro part hpart
  split at hpart
  · rw [List.mem_singleton.1 hpart]; rfl
  · split at hpart
    · rw [List.mem_singleton.1 hpart]; rfl
    · cases hpart

/-- Where the parts are a single name, nothing stands in front of it. -/
theorem opening_eq_nil_of_parts {path text : String} (h : parts path = [.name text]) :
    opening path = [] := by
  rw [List.eq_nil_iff_forall_not_mem]
  intro part hpart
  have hmem : part ∈ parts path := by
    rw [parts_eq]
    exact List.mem_append_left _ hpart
  have hname := isName_opening path part hpart
  rw [h, List.mem_singleton] at hmem
  rw [hmem] at hname
  cases hname

theorem parent_mem_parts {path : String} (h : ".." ∈ names path) : Part.parent ∈ parts path := by
  rw [parts_eq]
  exact List.mem_append_right _ (List.mem_filterMap.2 ⟨"..", h, by decide⟩)

theorem root_mem_parts {path : String} (h : isAbsolute path = true) : Part.root ∈ parts path := by
  rw [parts_eq, opening, if_pos h]
  exact List.mem_append_left _ (List.mem_singleton_self _)

/-! ## Contained paths -/

/-- A relative path that names something and never goes up. -/
structure Contained (path : String) : Prop where
  relative : isAbsolute path = false
  steady : ".." ∉ names path
  named : texts path ≠ []

theorem Contained.parts_eq {path : String} (h : Contained path) :
    parts path = opening path ++ (texts path).map .name := by
  rw [Path.parts_eq, filterMap_ofSegment? h.steady]

theorem Contained.ne_empty {path : String} (h : Contained path) : path ≠ "" := by
  rintro rfl
  have := h.named
  unfold texts at this
  rw [names_empty] at this
  exact this rfl

theorem Contained.append {first rest : String} (h : Contained first) (h' : Contained rest) :
    Contained (first ++ "/" ++ rest) ∧ texts (first ++ "/" ++ rest) = texts first ++ texts rest := by
  have htexts : texts (first ++ "/" ++ rest) = texts first ++ texts rest := by
    unfold texts
    rw [names_append, List.filter_append]
  refine ⟨⟨?_, ?_, ?_⟩, htexts⟩
  · rw [String.append_assoc, isAbsolute_append h.ne_empty, h.relative]
  · rw [names_append, List.mem_append, not_or]
    exact ⟨h.steady, h'.steady⟩
  · rw [htexts]
    simp [h.named]

theorem contained_of_isContained {path : String} (h : Settings.isContained path = true) :
    Contained path := by
  unfold Settings.isContained at h
  rw [Bool.and_eq_true, List.any_eq_true, List.all_eq_true] at h
  obtain ⟨⟨part, hpart, hname⟩, hall⟩ := h
  have habs : isAbsolute path = false := by
    by_contra habs
    have := hall _ (root_mem_parts (by simpa using habs))
    simp [Part.isName] at this
  have hup : ".." ∉ names path := by
    intro hup
    have := hall _ (parent_mem_parts hup)
    simp [Part.isName] at this
  refine ⟨habs, hup, ?_⟩
  intro hnil
  rw [Path.parts_eq, filterMap_ofSegment? hup, hnil, List.map_nil, List.append_nil] at hpart
  rw [isName_opening path part hpart] at hname
  cases hname

theorem isPlainName_iff_parts {path : String} :
    Settings.isPlainName path = true ↔ ∃ text, parts path = [.name text] := by
  unfold Settings.isPlainName
  split
  · rename_i text h; simp [h]
  · rename_i h; simpa using h

/-- A plain name is a single text, and stays where it is. -/
theorem contained_of_isPlainName {path : String} (h : Settings.isPlainName path = true) :
    ∃ text, parts path = [.name text] ∧ texts path = [text] ∧ Contained path := by
  obtain ⟨text, hparts⟩ := isPlainName_iff_parts.1 h
  have habs : isAbsolute path = false := by
    by_contra habs
    have : Part.root ∈ parts path := root_mem_parts (by simpa using habs)
    rw [hparts] at this
    simp at this
  have hup : ".." ∉ names path := by
    intro hup
    have := parent_mem_parts hup
    rw [hparts] at this
    simp at this
  have htexts : texts path = [text] := by
    have := hparts
    rw [Path.parts_eq, filterMap_ofSegment? hup, opening_eq_nil_of_parts hparts, List.nil_append,
      List.map_eq_singleton_iff] at this
    obtain ⟨other, htexts, hother⟩ := this
    cases hother
    exact htexts
  exact ⟨text, hparts, htexts, habs, hup, by rw [htexts]; simp⟩

/-- A single name without slashes stays where it is. -/
theorem contained_of_notMem {path : String} (h : '/' ∉ path.toList) (hne : path ≠ "")
    (hdot : path ≠ ".") (hup : path ≠ "..") : texts path = [path] ∧ Contained path := by
  have hnames := names_of_notMem h hne
  have htexts : texts path = [path] := by
    unfold texts
    rw [hnames]
    simp [hdot]
  refine ⟨htexts, ?_, ?_, ?_⟩
  · unfold isAbsolute
    rw [decide_eq_false_iff_not]
    intro hhead
    exact h (List.mem_of_mem_head? hhead)
  · rw [hnames, List.mem_singleton]
    exact fun heq => hup heq.symm
  · rw [htexts]; simp

end Path

/-! ## Directories without the slashes at their end -/

namespace Asset

theorem exists_append_slashes (directory : String) :
    ∃ slashes, directory = trimSlashes directory ++ slashes ∧
      ∀ c ∈ slashes.toList, c = '/' := by
  refine ⟨String.ofList (directory.toList.reverse.takeWhile (· = '/')).reverse, ?_, ?_⟩
  · unfold trimSlashes
    rw [← String.toList_inj, String.toList_append, String.toList_ofList, String.toList_ofList,
      ← List.reverse_append, List.takeWhile_append_dropWhile, List.reverse_reverse]
  · intro c hc
    rw [String.toList_ofList, List.mem_reverse] at hc
    have := List.all_takeWhile (l := directory.toList.reverse) (p := fun c => decide (c = '/'))
    rw [List.all_eq_true] at this
    simpa using this c hc

end Asset

end Newsletter
