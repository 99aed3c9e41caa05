/-
Paths above a path. Main facts: the parts of a path are what its text is read as again, and so are
the first parts of it, the text of which is within the path; and the parts of a path below a
directory are those of the directory and then its names, so what lies above it lies above the
directory or on the way from there.
-/
import Newsletter.Proofs.Path.Names

namespace Newsletter.Path

/-! ## Plain parts -/

/-- A part that a segment stands for. -/
structure Part.Plain (part : Part) : Prop where
  bare : '/' ∉ part.text.toList
  read : Part.ofSegment? part.text = some part

theorem Part.Plain.text_ne {part : Part} (h : part.Plain) : part.text ≠ "" ∧ part.text ≠ "." := by
  constructor
  · intro hempty
    have hread := h.read
    rw [hempty] at hread
    cases hread
  · intro hdot
    have hread := h.read
    rw [hdot] at hread
    cases hread

theorem Part.text_of_ofSegment? {segment : String} {part : Part}
    (h : Part.ofSegment? segment = some part) : part.text = segment := by
  unfold Part.ofSegment? at h
  split at h
  · cases h
  · split at h
    · rename_i hup
      cases h
      exact hup.symm
    · cases h
      rfl

theorem slash_notMem_splitSlashes (cs : List Char) :
    ∀ segment ∈ splitSlashes cs, '/' ∉ segment := by
  induction cs with
  | nil => simp [splitSlashes]
  | cons c cs ih =>
    by_cases hc : c = '/'
    · rw [hc, splitSlashes_slash]
      exact List.forall_mem_cons.2 ⟨List.not_mem_nil, ih⟩
    · obtain ⟨segment, segments, h⟩ := List.exists_cons_of_ne_nil (splitSlashes_ne_nil cs)
      rw [h] at ih
      obtain ⟨hsegment, hsegments⟩ := List.forall_mem_cons.1 ih
      rw [splitSlashes_cons hc h]
      refine List.forall_mem_cons.2 ⟨?_, hsegments⟩
      rw [List.mem_cons, not_or]
      exact ⟨fun heq => hc heq.symm, hsegment⟩

theorem plain_filterMap (path : String) :
    ∀ part ∈ (segments path).filterMap Part.ofSegment?, part.Plain := by
  intro part hpart
  obtain ⟨segment, hsegment, hread⟩ := List.mem_filterMap.1 hpart
  obtain ⟨cs, hcs, rfl⟩ := List.mem_map.1 hsegment
  have htext := Part.text_of_ofSegment? hread
  constructor
  · rw [htext, String.toList_ofList]
    exact slash_notMem_splitSlashes _ cs hcs
  · rw [htext]
    exact hread

/-! ## Reading parts again -/

/-- Parts as paths have them: all are plain but the first, which may be the root or `.`. -/
def WellFormed (parts : List Part) : Prop :=
  ∃ front rest, parts = front ++ rest ∧
    (front = [] ∨ front = [.root] ∨ front = [.current]) ∧ ∀ part ∈ rest, part.Plain

theorem opening_cases (path : String) :
    opening path = [] ∨ opening path = [.root] ∨ opening path = [.current] := by
  unfold opening
  split
  · exact .inr (.inl rfl)
  · split
    · exact .inr (.inr rfl)
    · exact .inl rfl

theorem wellFormed_parts (path : String) : WellFormed (parts path) :=
  ⟨opening path, _, rfl, opening_cases path, plain_filterMap path⟩

theorem WellFormed.take {parts : List Part} (h : WellFormed parts) (n : Nat) :
    WellFormed (parts.take n) := by
  obtain ⟨front, rest, rfl, hfront, hrest⟩ := h
  rw [List.take_append]
  refine ⟨_, _, rfl, ?_, fun part hpart => hrest part (List.mem_of_mem_take hpart)⟩
  cases n with
  | zero => exact .inl List.take_zero
  | succ n =>
    -- the front has one part at most
    have hlength : front.length ≤ n + 1 := by
      rcases hfront with rfl | rfl | rfl <;> simp
    rw [List.take_of_length_le hlength]
    exact hfront

theorem segments_intercalate {texts : List String} (hne : texts ≠ [])
    (hbare : ∀ text ∈ texts, '/' ∉ text.toList) :
    segments (String.intercalate "/" texts) = texts := by
  induction texts with
  | nil => exact absurd rfl hne
  | cons text texts ih =>
    obtain ⟨htext, htexts⟩ := List.forall_mem_cons.1 hbare
    by_cases hlast : texts = []
    · rw [hlast, String.intercalate_singleton, segments_of_notMem htext]
    · rw [String.intercalate_cons_of_ne_nil hlast, segments_append, segments_of_notMem htext,
        ih hlast htexts, List.singleton_append]

/-- Texts with slashes between them are read one by one. -/
theorem parts_intercalate {text : String} {texts : List String} (htext : text ≠ "")
    (hbare : ∀ other ∈ text :: texts, '/' ∉ other.toList) :
    parts (String.intercalate "/" (text :: texts)) =
      (if text = "." then [.current] else []) ++ (text :: texts).filterMap Part.ofSegment? := by
  have hsegments := segments_intercalate (List.cons_ne_nil text texts) hbare
  have hrelative : isAbsolute (String.intercalate "/" (text :: texts)) = false := by
    by_contra habsolute
    rw [Bool.not_eq_false, isAbsolute, decide_eq_true_eq, List.head?_eq_some_iff] at habsolute
    obtain ⟨cs, hcs⟩ := habsolute
    rw [segments, hcs, splitSlashes_slash, List.map_cons, List.cons.injEq] at hsegments
    exact htext hsegments.1.symm
  show opening _ ++ (segments _).filterMap _ = _
  rw [opening, hrelative, if_neg Bool.false_ne_true, hsegments, List.head?_cons]
  simp only [Option.some_inj]

theorem parts_slash (path : String) :
    parts ("/" ++ path) = .root :: (segments path).filterMap Part.ofSegment? := by
  have hsegments : segments ("/" ++ path) = segments "" ++ segments path := by
    rw [← segments_append, String.empty_append]
  show opening _ ++ (segments _).filterMap _ = _
  rw [hsegments, List.filterMap_append, opening, if_pos (by simp [isAbsolute])]
  rfl

theorem filterMap_text {rest : List Part} (h : ∀ part ∈ rest, part.Plain) :
    (rest.map Part.text).filterMap Part.ofSegment? = rest := by
  rw [List.filterMap_map]
  refine (List.filterMap_congr fun part hpart => ?_).trans List.filterMap_some
  exact (h part hpart).read

/-- The text of parts is read as these parts again. -/
theorem parts_ofParts {read : List Part} (h : WellFormed read) : parts (ofParts read) = read := by
  obtain ⟨front, rest, rfl, hfront, hrest⟩ := h
  have hbare : ∀ text ∈ rest.map Part.text, '/' ∉ text.toList := by
    rintro _ hmem
    obtain ⟨part, hpart, rfl⟩ := List.mem_map.1 hmem
    exact (hrest part hpart).bare
  have hread := filterMap_text hrest
  rcases hfront with rfl | rfl | rfl
  · -- without a front the text starts with a name, which is no `.`, or it is empty
    cases rest with
    | nil => decide
    | cons part rest =>
      obtain ⟨hempty, hdot⟩ := (hrest part List.mem_cons_self).text_ne
      have htext : ofParts ([] ++ part :: rest) =
          String.intercalate "/" (part.text :: rest.map Part.text) := by
        cases part with
        | root => exact absurd rfl hempty
        | current | parent | name => rfl
      rw [htext, parts_intercalate hempty hbare, if_neg hdot]
      exact hread
  · -- the root is the slash in front, and what follows may be empty
    show parts ("/" ++ String.intercalate "/" (rest.map Part.text)) = _
    rw [parts_slash]
    cases rest with
    | nil => decide
    | cons part rest =>
      have hne : (part :: rest).map Part.text ≠ [] := List.cons_ne_nil _ _
      rw [segments_intercalate hne hbare, hread]
      rfl
  · -- a `.` in front is a text like the others, but only the front is read from it
    show parts (String.intercalate "/" ("." :: rest.map Part.text)) = _
    have hdot : ∀ text ∈ "." :: rest.map Part.text, '/' ∉ text.toList :=
      List.forall_mem_cons.2 ⟨by decide, hbare⟩
    rw [parts_intercalate (by decide) hdot, if_pos rfl, List.filterMap_cons_none (by decide), hread]

/-! ## Texts of parts -/

/-- The name that is looked up for a part, if there is one. -/
def Part.move? : Part → Option String
  | .root | .current => none
  | part => some part.text

theorem intercalate_splitSlashes (cs : List Char) : ['/'].intercalate (splitSlashes cs) = cs := by
  induction cs with
  | nil => rfl
  | cons c cs ih =>
    by_cases hc : c = '/'
    · rw [hc, splitSlashes_slash, List.intercalate_cons_of_ne_nil (splitSlashes_ne_nil cs), ih]
      rfl
    · obtain ⟨segment, segments, h⟩ := List.exists_cons_of_ne_nil (splitSlashes_ne_nil cs)
      rw [splitSlashes_cons hc h]
      rw [h] at ih
      cases segments with
      | nil =>
        rw [List.intercalate_singleton] at ih ⊢
        rw [ih]
      | cons next segments =>
        rw [List.intercalate_cons_cons] at ih ⊢
        rw [List.cons_append, List.cons_append, ih]

/-- A path is its segments with slashes between them. -/
theorem intercalate_segments (path : String) : String.intercalate "/" (segments path) = path := by
  have htexts : (String.toList ∘ String.ofList) = id := funext fun _ => String.toList_ofList
  rw [← String.toList_inj, String.toList_intercalate, segments, List.map_map, htexts, List.map_id]
  exact intercalate_splitSlashes path.toList

theorem sublist_intercalate {α : Type} (separator : List α) {first second : List (List α)}
    (h : first.Sublist second) :
    (separator.intercalate first).Sublist (separator.intercalate second) := by
  induction h with
  | slnil => exact .refl _
  | @cons first second item h ih =>
    rcases eq_or_ne second [] with rfl | hsecond
    · rw [List.sublist_nil.1 h]
      exact List.nil_sublist _
    · rw [List.intercalate_cons_of_ne_nil hsecond]
      exact ih.trans (List.sublist_append_right _ _)
  | @cons_cons first second item h ih =>
    rcases eq_or_ne second [] with rfl | hsecond
    · rw [List.sublist_nil.1 h]
    · rw [List.intercalate_cons_of_ne_nil hsecond]
      rcases eq_or_ne first [] with rfl | hfirst
      · rw [List.intercalate_singleton, List.append_assoc]
        exact List.sublist_append_left _ _
      · rw [List.intercalate_cons_of_ne_nil hfirst]
        exact (List.Sublist.refl _).append ih

/-- The part in front stands for the first segment, which is no part otherwise. -/
theorem opening_eq (path : String) : opening path = [] ∨ ∃ first rest part,
    segments path = first :: rest ∧ opening path = [part] ∧ part.text = first ∧
      Part.ofSegment? first = none := by
  unfold opening
  split
  · rename_i habsolute
    rw [isAbsolute, decide_eq_true_eq, List.head?_eq_some_iff] at habsolute
    obtain ⟨cs, hcs⟩ := habsolute
    refine .inr ⟨"", (splitSlashes cs).map String.ofList, .root, ?_, rfl, rfl, by decide⟩
    rw [segments, hcs, splitSlashes_slash]
    rfl
  · split
    · rename_i hdot
      obtain ⟨rest, hrest⟩ := List.head?_eq_some_iff.1 hdot
      exact .inr ⟨".", rest, .current, hrest, rfl, rfl, by decide⟩
    · exact .inl rfl

/-- The parts of a path are written as some of its segments. -/
theorem sublist_text_parts (path : String) :
    ((parts path).map Part.text).Sublist (segments path) := by
  have hread : ∀ segments : List String,
      ((segments.filterMap Part.ofSegment?).map Part.text).Sublist segments := by
    intro segments
    induction segments with
    | nil => exact .slnil
    | cons segment segments ih =>
      cases hsegment : Part.ofSegment? segment with
      | none =>
        rw [List.filterMap_cons_none hsegment]
        exact ih.cons _
      | some part =>
        rw [List.filterMap_cons_some hsegment, List.map_cons, Part.text_of_ofSegment? hsegment]
        exact ih.cons_cons _
  show ((opening path ++ (segments path).filterMap Part.ofSegment?).map Part.text).Sublist _
  rcases opening_eq path with hopening | ⟨first, rest, part, hsegments, hopening, htext, hnone⟩
  · rw [hopening]
    exact hread _
  · rw [hopening, hsegments, List.filterMap_cons_none hnone, List.map_append, List.map_singleton,
      htext]
    exact (hread rest).cons_cons _

theorem ofParts_eq {parts : List Part} (h : parts ≠ [.root]) :
    ofParts parts = String.intercalate "/" (parts.map Part.text) := by
  cases parts with
  | nil => rfl
  | cons part rest =>
    cases part with
    | current | parent | name => rfl
    | root =>
      have hrest : rest.map Part.text ≠ [] := by
        rw [Ne, List.map_eq_nil_iff]
        rintro rfl
        exact h rfl
      rw [List.map_cons, String.intercalate_cons_of_ne_nil hrest]
      rfl

/-- A path starts at the root exactly if its first part is the root. -/
theorem isAbsolute_iff {path : String} :
    isAbsolute path = true ↔ (parts path).head? = some .root := by
  rw [parts_eq, opening]
  split
  · rename_i habsolute
    exact iff_of_true habsolute rfl
  · rename_i hrelative
    refine iff_of_false hrelative fun hhead => ?_
    split at hhead
    · cases hhead
    · have hroot := List.mem_of_mem_head? hhead
      obtain ⟨name, -, hname⟩ := List.mem_filterMap.1 hroot
      have htext := Part.text_of_ofSegment? hname
      subst htext
      cases hname

/-- The first parts of a path have a text that is within the path. -/
theorem sublist_ofParts_take (path : String) (n : Nat) :
    (ofParts ((parts path).take n)).toList.Sublist path.toList := by
  by_cases hroot : (parts path).take n = [.root]
  · have habsolute : isAbsolute path = true := by
      rw [isAbsolute_iff, List.head?_eq_some_iff]
      refine ⟨(parts path).drop n, ?_⟩
      calc
        parts path = (parts path).take n ++ (parts path).drop n := (List.take_append_drop n _).symm
        _ = .root :: (parts path).drop n := by rw [hroot]; rfl
    rw [isAbsolute, decide_eq_true_eq, List.head?_eq_some_iff] at habsolute
    obtain ⟨cs, hcs⟩ := habsolute
    rw [hroot, hcs]
    exact (List.nil_sublist cs).cons_cons '/'
  · have htexts : (((parts path).take n).map Part.text).Sublist (segments path) :=
      ((List.take_sublist n _).map Part.text).trans (sublist_text_parts path)
    rw [ofParts_eq hroot]
    conv => rhs; rw [← intercalate_segments path]
    rw [String.toList_intercalate, String.toList_intercalate]
    exact sublist_intercalate _ (htexts.map String.toList)

theorem filterMap_move?_opening (path : String) : (opening path).filterMap Part.move? = [] := by
  rcases opening_cases path with h | h | h <;> rw [h] <;> rfl

/-- What is looked up for names are the names themselves, without `.`. -/
theorem filterMap_move? {names : List String} (hne : "" ∉ names) :
    (names.filterMap Part.ofSegment?).filterMap Part.move? = names.filter (· ≠ ".") := by
  rw [List.filterMap_filterMap, ← List.filterMap_eq_filter]
  refine List.filterMap_congr fun name hname => ?_
  have hempty : name ≠ "" := fun heq => hne (heq ▸ hname)
  unfold Part.ofSegment?
  by_cases hdot : name = "."
  · subst hdot; decide
  · by_cases hup : name = ".."
    · subst hup; rfl
    · simp [hempty, hdot, hup, Option.guard, Part.move?, Part.text]

theorem empty_notMem_names (path : String) : "" ∉ names path := by
  simp [names]

/-- What is looked up for a path are its names, without `.`. -/
theorem texts_eq (path : String) : texts path = (parts path).filterMap Part.move? := by
  rw [parts_eq, List.filterMap_append, filterMap_move?_opening, List.nil_append,
    filterMap_move? (empty_notMem_names path), texts]

/-- Above the last name there are the names before it. -/
theorem filterMap_move?_dropLast {path : String} {front : List String} {name : String}
    (hnames : names path = front ++ [name]) (hdot : name ≠ ".") (hup : name ≠ "..") :
    (parts path).dropLast.filterMap Part.move? = front.filter (· ≠ ".") := by
  have hempty := empty_notMem_names path
  rw [hnames, List.mem_append, not_or, List.mem_singleton] at hempty
  have hname : Part.ofSegment? name = some (.name name) := by
    unfold Part.ofSegment?
    rw [if_neg (by simp [Ne.symm hempty.2, hdot]), if_neg hup]
  rw [parts_eq, hnames, List.filterMap_append, List.filterMap_cons_some hname, List.filterMap_nil,
    ← List.append_assoc, List.dropLast_concat, List.filterMap_append, filterMap_move?_opening,
    List.nil_append, filterMap_move? hempty.1]

/-! ## Paths above -/

theorem mem_ancestors_iff {path above : String} :
    above ∈ ancestors path ↔ ∃ n < (parts path).length, ofParts ((parts path).take n) = above := by
  simp [ancestors]

/-- A path above another one has its first parts. -/
theorem parts_ofParts_take (path : String) (n : Nat) :
    parts (ofParts ((parts path).take n)) = (parts path).take n :=
  parts_ofParts ((wellFormed_parts path).take n)

/-- The parts of a path below a directory are those of the directory and then its own names. -/
theorem parts_join {directory path : String} (hdirectory : directory ≠ "") (h : Contained path) :
    parts (join directory path) = parts directory ++ (texts path).map .name := by
  rw [parts_eq, parts_eq, names_join directory h.relative, opening_join hdirectory h.relative,
    List.filterMap_append, filterMap_ofSegment? h.steady, List.append_assoc]

/-- Above a path that is above another one, there is what is above that one too. -/
theorem mem_ancestors_ofParts {path : String} {m n : Nat} (hmn : m < n)
    (hn : n ≤ (parts path).length) :
    ofParts ((parts path).take m) ∈ ancestors (ofParts ((parts path).take n)) := by
  refine mem_ancestors_iff.2 ⟨m, ?_, ?_⟩
  · rw [parts_ofParts_take, List.length_take]
    omega
  · rw [parts_ofParts_take, List.take_take, Nat.min_eq_left (Nat.le_of_lt hmn)]

/-- Of a path and those above it, each is above all before it. -/
theorem pairwise_ancestors (path : String) :
    (path :: ancestors path).Pairwise fun lower above => above ∈ ancestors lower := by
  refine List.pairwise_cons.2 ⟨fun above h => h, ?_⟩
  show (((List.range (parts path).length).reverse).map
    fun n => ofParts ((parts path).take n)).Pairwise _
  rw [List.pairwise_map, List.pairwise_reverse]
  refine List.pairwise_lt_range.imp_of_mem fun _ hn hmn => ?_
  exact mem_ancestors_ofParts hmn (Nat.le_of_lt (List.mem_range.1 hn))

theorem ancestors_empty : ancestors "" = [] := by decide

/-- No path is above the empty one. -/
theorem eq_nil_of_pairwise {paths : List String}
    (h : ("" :: paths).Pairwise fun lower above => above ∈ ancestors lower) : paths = [] := by
  refine List.eq_nil_iff_forall_not_mem.2 fun above habove => ?_
  have hmem := (List.pairwise_cons.1 h).1 above habove
  rw [ancestors_empty] at hmem
  cases hmem

end Newsletter.Path
