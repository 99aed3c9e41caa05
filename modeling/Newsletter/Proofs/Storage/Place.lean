/-
Places that paths name. A path names its place by its names alone, whatever stands there, and where
a look-up succeeds it ends at that place. Main facts: a file that was written is read under its path
as long as nothing else is put in its place, and writing a file alters nothing but its own place.
-/
import Newsletter.Proofs.Path.Names
import Newsletter.Storage.FileTree

namespace Newsletter

namespace FileTree

/-! ## Places of paths -/

/-- Where names lead from a place if every name on the way is that of a directory. -/
def resolve (place : Place) : List String → Place
  | [] => place
  | name :: rest =>
    if name = "." then resolve place rest
    else if name = ".." then resolve place.dropLast rest
    else resolve (place ++ [name]) rest

/-- Where the names of a path start. -/
def start (tree : FileTree) (path : String) : Place :=
  if Path.isAbsolute path then [] else tree.home

/-- The place that a path names. -/
def place (tree : FileTree) (path : String) : Place := resolve (tree.start path) (Path.names path)

theorem resolve_append (first rest : List String) (place : Place) :
    resolve place (first ++ rest) = resolve (resolve place first) rest := by
  induction first generalizing place with
  | nil => rfl
  | cons name first ih =>
    rw [List.cons_append, resolve, resolve]
    split
    · exact ih place
    · split
      · exact ih _
      · exact ih _

/-- Names that never go up are added to a place. -/
theorem resolve_of_notMem {names : List String} (h : ".." ∉ names) (place : Place) :
    resolve place names = place ++ names.filter (· ≠ ".") := by
  induction names generalizing place with
  | nil => simp [resolve]
  | cons name names ih =>
    rw [List.mem_cons, not_or] at h
    rw [resolve]
    by_cases hdot : name = "."
    · rw [if_pos hdot, ih h.2, List.filter_cons_of_neg (by simpa using hdot)]
    · rw [if_neg hdot, if_neg (fun heq => h.1 heq.symm), ih h.2,
        List.filter_cons_of_pos (by simpa using hdot), List.append_assoc, List.singleton_append]

theorem place_of_home {tree other : FileTree} (h : other.home = tree.home) (path : String) :
    other.place path = tree.place path := by
  unfold place start
  rw [h]

/-- A path that never goes up names a place below that of the directory. -/
theorem place_join (tree : FileTree) (directory : String) {path : String}
    (h : Path.Contained path) :
    tree.place (Path.join directory path) = tree.place directory ++ Path.texts path := by
  unfold place start
  rw [Path.isAbsolute_join directory h.relative, Path.names_join directory h.relative,
    resolve_append, resolve_of_notMem h.steady]
  rfl

/-! ## Entries -/

theorem lookup_filter_ne {entries : List (Place × FileEntry)} {place other : Place}
    (h : other ≠ place) :
    (entries.filter fun e => decide (e.1 ≠ place)).lookup other = entries.lookup other := by
  induction entries with
  | nil => rfl
  | cons e entries ih =>
    obtain ⟨found, entry⟩ := e
    by_cases hfound : found = place
    · subst hfound
      rw [List.filter_cons_of_neg (by simp), List.lookup_cons, beq_false_of_ne h, ih]
    · rw [List.filter_cons_of_pos (by simpa using hfound), List.lookup_cons, List.lookup_cons, ih]

theorem entry_put_self (tree : FileTree) {place : Place} (h : place ≠ []) (entry : FileEntry) :
    (tree.put place entry).entry place = some entry := by
  unfold FileTree.entry put
  rw [if_neg h, List.lookup_cons, beq_self_eq_true]

theorem entry_put_of_ne (tree : FileTree) {place other : Place} (h : other ≠ place)
    (entry : FileEntry) : (tree.put place entry).entry other = tree.entry other := by
  unfold FileTree.entry put
  split
  · rfl
  · rw [List.lookup_cons, beq_false_of_ne h, lookup_filter_ne h]

/-! ## Trees that keep their directories -/

/-- A later tree in which everything can still be looked up: it has the same working directory,
and the directories are still there. -/
structure Keeps (tree later : FileTree) : Prop where
  home : later.home = tree.home
  directories : ∀ place, tree.entry place = some .directory → later.entry place = some .directory

/-! ## Trees that change in a few places -/

/-- What may become of what is found at a place: it stays; or it is a file that was written, and no
directory before, at a place for files; or a directory that was made of nothing, at a place for
directories. -/
inductive Change (files directories : Place → Prop) (place : Place) :
    Option FileEntry → Option FileEntry → Prop
  | same (found : Option FileEntry) : Change files directories place found found
  | written {found : Option FileEntry} (content : Bytes) : files place →
      found ≠ some .directory → Change files directories place found (some (.file content))
  | made : directories place → Change files directories place none (some .directory)

namespace Change

variable {files directories : Place → Prop} {place : Place}

theorem trans {before found after : Option FileEntry} (h : Change files directories place before found)
    (h' : Change files directories place found after) :
    Change files directories place before after := by
  cases h with
  | same => exact h'
  | written content hfile hbefore =>
    cases h' with
    | same => exact .written content hfile hbefore
    | written other => exact .written other hfile hbefore
  | made hdirectory =>
    cases h' with
    | same => exact .made hdirectory
    | written _ _ hfound => exact absurd rfl hfound

theorem directory {after : Option FileEntry}
    (h : Change files directories place (some .directory) after) : after = some .directory := by
  cases h with
  | same => rfl
  | written _ _ hfound => exact absurd rfl hfound

theorem entry {entry : FileEntry} {after : Option FileEntry} (hplace : ¬files place)
    (h : Change files directories place (some entry) after) : after = some entry := by
  cases h with
  | same => rfl
  | written _ hfile => exact absurd hfile hplace

/-- A directory was there before, or nothing was. -/
theorem before_directory {before : Option FileEntry}
    (h : Change files directories place before (some .directory)) :
    before = some .directory ∨ before = none := by
  cases h with
  | same => exact .inl rfl
  | made => exact .inr rfl

/-- What is missing was missing before. -/
theorem before_none {before : Option FileEntry} (h : Change files directories place before none) :
    before = none := by
  cases h
  rfl

end Change

/-- A later tree in which files were written and directories made at places for them alone. -/
structure Alters (files directories : Place → Prop) (tree later : FileTree) : Prop where
  home : later.home = tree.home
  changes : ∀ place, Change files directories place (tree.entry place) (later.entry place)

namespace Alters

variable {files directories : Place → Prop} {tree later last : FileTree}

theorem refl (tree : FileTree) : Alters files directories tree tree :=
  ⟨rfl, fun _ => .same _⟩

theorem trans (h : Alters files directories tree later)
    (h' : Alters files directories later last) : Alters files directories tree last :=
  ⟨h'.home.trans h.home, fun place => (h.changes place).trans (h'.changes place)⟩

theorem keeps (h : Alters files directories tree later) : Keeps tree later :=
  ⟨h.home, fun place hplace => (hplace ▸ h.changes place).directory⟩

/-- What is not in a place for files stays. -/
theorem entry_eq (h : Alters files directories tree later) {place : Place} {entry : FileEntry}
    (hplace : ¬files place) (hentry : tree.entry place = some entry) :
    later.entry place = some entry :=
  (hentry ▸ h.changes place).entry hplace

end Alters

/-- Putting a file where no directory stands alters its place. -/
theorem alters_put_file {files directories : Place → Prop} {tree : FileTree} {place : Place}
    (hplace : files place) (hne : place ≠ []) (h : tree.entry place ≠ some .directory)
    (content : Bytes) : Alters files directories tree (tree.put place (.file content)) := by
  refine ⟨rfl, fun other => ?_⟩
  by_cases hother : other = place
  · subst hother
    rw [entry_put_self tree hne]
    exact .written content hplace h
  · rw [entry_put_of_ne tree hother]
    exact .same _

/-- Putting a directory where nothing stands alters its place. -/
theorem alters_put_directory {files directories : Place → Prop} {tree : FileTree} {place : Place}
    (hplace : directories place) (h : tree.entry place = none) :
    Alters files directories tree (tree.put place .directory) := by
  refine ⟨rfl, fun other => ?_⟩
  by_cases hother : other = place
  · subst hother
    have hne : other ≠ [] := by
      rintro rfl
      cases h
    rw [entry_put_self tree hne, h]
    exact .made hplace
  · rw [entry_put_of_ne tree hother]
    exact .same _

/-! ## Looking up -/

/-- Where a single name leads from a place. -/
def enter (tree : FileTree) (place : Place) (name : String) : Except FileError Place :=
  if name = "." then .ok place
  else if name = ".." then .ok place.dropLast
  else if maxName < name.utf8ByteSize then .error .nameTooLong
  else
    match tree.entry (place ++ [name]) with
    | none => .error .notFound
    | some (.file _) => .error .notADirectory
    | some .directory => .ok (place ++ [name])

/-- Names are walked one by one. -/
theorem walk_cons (tree : FileTree) (place : Place) (name : String) (rest : List String) :
    tree.walk place (name :: rest) =
      (tree.enter place name).bind fun found => tree.walk found rest := by
  rw [walk, enter]
  split
  · rfl
  · split
    · rfl
    · split
      · rfl
      · rcases tree.entry (place ++ [name]) with _ | _ | content <;> rfl

/-- A name that leads somewhere is `.`, `..` or that of a directory. -/
theorem enter_eq_ok_iff {tree : FileTree} {place found : Place} {name : String} :
    tree.enter place name = .ok found ↔ (name = "." ∧ found = place) ∨
      (name = ".." ∧ found = place.dropLast) ∨
      (name ≠ "." ∧ name ≠ ".." ∧ name.utf8ByteSize ≤ maxName ∧
        tree.entry (place ++ [name]) = some .directory ∧ found = place ++ [name]) := by
  unfold enter
  by_cases hdot : name = "."
  · subst hdot
    simp [eq_comm]
  by_cases hup : name = ".."
  · subst hup
    simp [eq_comm]
  rw [if_neg hdot, if_neg hup]
  split
  · rename_i hsize
    simp [hdot, hup, Nat.not_le.2 hsize]
  · rename_i hsize
    split
    · rename_i hentry
      simp [hdot, hup, hentry]
    · rename_i hentry
      simp [hdot, hup, hentry]
    · rename_i hentry
      simp [hdot, hup, hentry, Nat.not_lt.1 hsize, eq_comm]

/-- A walk that succeeds ends where the names lead. -/
theorem walk_eq {tree : FileTree} : ∀ {names : List String} {place found : Place},
    tree.walk place names = .ok found → found = resolve place names
  | [], place, found, h => by cases h; rfl
  | name :: names, place, found, h => by
    rw [walk_cons] at h
    cases henter : tree.enter place name with
    | error error => rw [henter] at h; cases h
    | ok next =>
      rw [henter] at h
      have hnext : resolve place (name :: names) = resolve next names := by
        rw [resolve]
        rcases enter_eq_ok_iff.1 henter with ⟨hdot, rfl⟩ | ⟨hup, rfl⟩ | ⟨hdot, hup, -, -, rfl⟩
        · rw [if_pos hdot]
        · subst hup; rfl
        · rw [if_neg hdot, if_neg hup]
      rw [hnext]
      exact walk_eq h

/-- A walk that succeeds goes the same way as long as the directories are there. -/
theorem walk_keeps {tree later : FileTree} (hkeeps : Keeps tree later) :
    ∀ {names : List String} {place found : Place},
      tree.walk place names = .ok found → later.walk place names = .ok found
  | [], _, _, h => h
  | name :: names, place, found, h => by
    rw [walk_cons] at h ⊢
    cases henter : tree.enter place name with
    | error error => rw [henter] at h; cases h
    | ok next =>
      rw [henter] at h
      have hlater : later.enter place name = .ok next := by
        rw [enter_eq_ok_iff] at henter ⊢
        exact henter.imp_right fun h => h.imp_right fun ⟨hdot, hup, hsize, hentry, hnext⟩ =>
          ⟨hdot, hup, hsize, hkeeps.directories _ hentry, hnext⟩
      rw [hlater]
      exact walk_keeps hkeeps h

/-- What is needed for a path to lead to a name: the directory in front of it is found, and the name
is a proper one. -/
structure LeadsTo (tree : FileTree) (path : String) (parent : Place) (name : String) : Prop where
  valid : '\x00' ∉ path.toList
  named : path ≠ ""
  short : path.utf8ByteSize ≤ maxPath
  last : (Path.names path).getLast? = some name
  walked : tree.walk (tree.start path) (Path.names path).dropLast = .ok parent
  proper : name ≠ "." ∧ name ≠ ".."

theorem spot_eq_name_iff {tree : FileTree} {path : String} {parent : Place} {name : String}
    {slashed : Bool} : tree.spot path = .ok (.name parent name slashed) ↔
      tree.LeadsTo path parent name ∧
        slashed = decide (path.toList.getLast? = some '/') := by
  unfold spot
  constructor
  · intro h
    split at h
    · cases h
    split at h
    · cases h
    split at h
    · cases h
    rename_i hvalid hnamed hshort
    dsimp only at h
    split at h
    · cases h
    rename_i last hlast
    split at h
    · cases h
    rename_i found hwalked
    split at h
    · cases h
    split at h
    · cases h
    rename_i hdot hup
    cases h
    exact ⟨⟨hvalid, hnamed, by omega, hlast, hwalked, hdot, hup⟩, rfl⟩
  · rintro ⟨h, rfl⟩
    have hlast : ((Path.segments path).filter (· ≠ "")).getLast? = some name := h.last
    have hwalked : tree.walk (if Path.isAbsolute path then [] else tree.home)
      ((Path.segments path).filter (· ≠ "")).dropLast = .ok parent := h.walked
    have hshort := h.short
    rw [if_neg h.valid, if_neg h.named, if_neg (by omega)]
    dsimp only
    rw [hlast]
    dsimp only
    rw [hwalked]
    dsimp only
    rw [if_neg h.proper.1, if_neg h.proper.2]

/-- A path that leads to a name names the place of that name. -/
theorem LeadsTo.place_eq {tree : FileTree} {path : String} {parent : Place} {name : String}
    (h : tree.LeadsTo path parent name) : tree.place path = parent ++ [name] := by
  obtain ⟨front, hnames⟩ := List.getLast?_eq_some_iff.1 h.last
  have hwalked := h.walked
  rw [hnames, List.dropLast_concat] at hwalked
  unfold place
  rw [hnames, resolve_append, ← walk_eq hwalked, resolve, if_neg h.proper.1, if_neg h.proper.2,
    resolve]

theorem LeadsTo.place_ne_nil {tree : FileTree} {path : String} {parent : Place} {name : String}
    (h : tree.LeadsTo path parent name) : tree.place path ≠ [] := by
  rw [h.place_eq]
  simp

theorem LeadsTo.keeps {tree later : FileTree} {path : String} {parent : Place} {name : String}
    (h : tree.LeadsTo path parent name) (hkeeps : Keeps tree later) :
    later.LeadsTo path parent name := by
  refine ⟨h.valid, h.named, h.short, h.last, ?_, h.proper⟩
  have hstart : later.start path = tree.start path := by
    unfold start
    rw [hkeeps.home]
  rw [hstart]
  exact walk_keeps hkeeps h.walked

/-! ## Files -/

/-- A path under which a file can stand: it leads to a name that is not too long, and no slash
follows it. -/
structure Leads (tree : FileTree) (path : String) : Prop where
  found : ∃ parent name, tree.LeadsTo path parent name ∧ name.utf8ByteSize ≤ maxName
  bare : path.toList.getLast? ≠ some '/'

theorem Leads.keeps {tree later : FileTree} {path : String} (h : tree.Leads path)
    (hkeeps : Keeps tree later) : later.Leads path := by
  obtain ⟨⟨parent, name, hleads, hsize⟩, hbare⟩ := h
  exact ⟨⟨parent, name, hleads.keeps hkeeps, hsize⟩, hbare⟩

theorem Leads.place_ne_nil {tree : FileTree} {path : String} (h : tree.Leads path) :
    tree.place path ≠ [] := by
  obtain ⟨⟨parent, name, hleads, -⟩, -⟩ := h
  exact hleads.place_ne_nil

/-- What a write to a name in a directory does. -/
theorem write_of_spot {tree : FileTree} {path : String} {parent : Place} {name : String}
    {slashed : Bool} (h : tree.spot path = .ok (.name parent name slashed)) (content : Bytes) :
    tree.write path content =
      if slashed = true then .error .isADirectory
      else if maxName < name.utf8ByteSize then .error .nameTooLong
      else match tree.entry (parent ++ [name]) with
        | some .directory => .error .isADirectory
        | _ => .ok (tree.put (parent ++ [name]) (.file content)) := by
  unfold write
  rw [h]
  cases slashed with
  | true => rfl
  | false =>
    by_cases hsize : maxName < name.utf8ByteSize
    · have hentry : tree.entryIn parent name = .error .nameTooLong := if_pos hsize
      simp only [bind, Except.bind, hentry, if_pos hsize]
    · have hentry : tree.entryIn parent name = .ok (tree.entry (parent ++ [name])) := if_neg hsize
      simp only [bind, Except.bind, hentry, if_neg hsize]
      rfl

/-- A write succeeds where a file can stand and no directory does, and puts the file there. -/
theorem write_eq_ok_iff {tree after : FileTree} {path : String} {content : Bytes} :
    tree.write path content = .ok after ↔
      tree.Leads path ∧ tree.entry (tree.place path) ≠ some .directory ∧
        after = tree.put (tree.place path) (.file content) := by
  constructor
  · intro h
    rcases hspot : tree.spot path with error | ⟨place⟩ | ⟨parent, name, slashed⟩
    · unfold write at h
      rw [hspot] at h
      cases h
    · unfold write at h
      rw [hspot] at h
      cases h
    · obtain ⟨hleads, hslashed⟩ := spot_eq_name_iff.1 hspot
      rw [write_of_spot hspot] at h
      split at h
      · cases h
      rename_i hbare
      split at h
      · cases h
      rename_i hsize
      rw [hslashed, decide_eq_true_eq] at hbare
      rw [hleads.place_eq]
      split at h
      · cases h
      · rename_i hentry
        cases h
        exact ⟨⟨⟨parent, name, hleads, by omega⟩, hbare⟩, fun hdir => hentry hdir, rfl⟩
  · rintro ⟨⟨⟨parent, name, hleads, hsize⟩, hbare⟩, hentry, rfl⟩
    rw [write_of_spot (spot_eq_name_iff.2 ⟨hleads, rfl⟩), if_neg (by simpa using hbare),
      if_neg (by omega)]
    rw [hleads.place_eq] at hentry ⊢
    split
    · rename_i hdir; exact absurd hdir hentry
    · rfl

/-- Writing a file alters its place, and keeps all others. -/
theorem alters_of_write {files directories : Place → Prop} {tree after : FileTree} {path : String}
    {content : Bytes} (hplace : files (tree.place path))
    (h : tree.write path content = .ok after) : Alters files directories tree after := by
  obtain ⟨hleads, hentry, rfl⟩ := write_eq_ok_iff.1 h
  exact alters_put_file hplace hleads.place_ne_nil hentry content

theorem keeps_of_write {tree after : FileTree} {path : String} {content : Bytes}
    (h : tree.write path content = .ok after) : Keeps tree after := by
  have halters : Alters (· = tree.place path) (fun _ => False) tree after := alters_of_write rfl h
  exact halters.keeps

/-- What is read under a name in a directory. -/
theorem read_of_spot {tree : FileTree} {path : String} {parent : Place} {name : String}
    {slashed : Bool} (h : tree.spot path = .ok (.name parent name slashed)) :
    tree.read path =
      if maxName < name.utf8ByteSize then .error .nameTooLong
      else match tree.entry (parent ++ [name]) with
        | none => .error .notFound
        | some .directory => .error .isADirectory
        | some (.file content) =>
          if slashed = true then .error .notADirectory else .ok content := by
  unfold read stat
  rw [h]
  by_cases hsize : maxName < name.utf8ByteSize
  · have hentry : tree.entryIn parent name = .error .nameTooLong := if_pos hsize
    simp only [bind, Except.bind, hentry, if_pos hsize]
  · have hentry : tree.entryIn parent name = .ok (tree.entry (parent ++ [name])) := if_neg hsize
    simp only [bind, Except.bind, hentry, if_neg hsize]
    cases tree.entry (parent ++ [name]) with
    | none => rfl
    | some found =>
      cases found with
      | directory => rfl
      | file content => cases slashed <;> rfl

/-- A file is read under a path that leads to it, and under no other. -/
theorem read_eq_ok_iff {tree : FileTree} {path : String} {content : Bytes} :
    tree.read path = .ok content ↔
      tree.Leads path ∧ tree.entry (tree.place path) = some (.file content) := by
  constructor
  · intro h
    rcases hspot : tree.spot path with error | ⟨place⟩ | ⟨parent, name, slashed⟩
    · unfold read stat at h
      rw [hspot] at h
      cases h
    · unfold read stat at h
      rw [hspot] at h
      cases h
    · obtain ⟨hleads, hslashed⟩ := spot_eq_name_iff.1 hspot
      rw [read_of_spot hspot] at h
      split at h
      · cases h
      rename_i hsize
      split at h
      · cases h
      · cases h
      · rename_i hentry
        split at h
        · cases h
        rename_i hbare
        cases h
        rw [hslashed, decide_eq_true_eq] at hbare
        rw [hleads.place_eq]
        exact ⟨⟨⟨parent, name, hleads, by omega⟩, hbare⟩, hentry⟩
  · rintro ⟨⟨⟨parent, name, hleads, hsize⟩, hbare⟩, hentry⟩
    rw [hleads.place_eq] at hentry
    rw [read_of_spot (spot_eq_name_iff.2 ⟨hleads, rfl⟩), if_neg (by omega), hentry]
    dsimp only
    rw [if_neg (by simpa using hbare)]

/-- Writing a file makes no directory either. -/
theorem keeps_before_write {tree after : FileTree} {path : String} {content : Bytes}
    (h : tree.write path content = .ok after) : Keeps after tree := by
  obtain ⟨-, hentry, rfl⟩ := write_eq_ok_iff.1 h
  refine ⟨rfl, fun place hplace => ?_⟩
  by_cases hroot : place = []
  · rw [hroot]; rfl
  by_cases hsame : place = tree.place path
  · subst hsame
    rw [entry_put_self tree hroot] at hplace
    cases hplace
  · rwa [entry_put_of_ne tree hsame] at hplace

/-- A written file is read back. -/
theorem read_of_write {tree after : FileTree} {path : String} {content : Bytes}
    (h : tree.write path content = .ok after) : after.read path = .ok content := by
  have hkeeps := keeps_of_write h
  obtain ⟨hleads, -, rfl⟩ := write_eq_ok_iff.1 h
  refine read_eq_ok_iff.2 ⟨hleads.keeps hkeeps, ?_⟩
  rw [place_of_home hkeeps.home, entry_put_self tree hleads.place_ne_nil]

/-- Where a file was written, another one can be written in its place. -/
theorem write_of_write {tree after : FileTree} {path : String} {content : Bytes}
    (h : tree.write path content = .ok after) (other : Bytes) :
    ∃ last, after.write path other = .ok last := by
  have hkeeps := keeps_of_write h
  obtain ⟨hleads, -, rfl⟩ := write_eq_ok_iff.1 h
  refine ⟨_, write_eq_ok_iff.2 ⟨hleads.keeps hkeeps, ?_, rfl⟩⟩
  rw [place_of_home hkeeps.home, entry_put_self tree hleads.place_ne_nil]
  exact nofun

/-- Whether a write succeeds does not depend on what is written. -/
theorem write_of_content {tree after : FileTree} {path : String} {content : Bytes}
    (h : tree.write path content = .ok after) (other : Bytes) :
    ∃ last, tree.write path other = .ok last := by
  obtain ⟨hleads, hentry, -⟩ := write_eq_ok_iff.1 h
  exact ⟨_, write_eq_ok_iff.2 ⟨hleads, hentry, rfl⟩⟩

/-! ## What is found under paths -/

theorem spot_keeps {tree later : FileTree} (hkeeps : Keeps tree later) {path : String} {spot : Spot}
    (h : tree.spot path = .ok spot) : later.spot path = .ok spot := by
  unfold FileTree.spot at h ⊢
  rw [hkeeps.home]
  split at h
  · cases h
  rename_i hvalid
  rw [if_neg hvalid]
  split at h
  · cases h
  rename_i hnamed
  rw [if_neg hnamed]
  split at h
  · cases h
  rename_i hshort
  rw [if_neg hshort]
  dsimp only at h ⊢
  cases hlast : ((Path.segments path).filter (· ≠ "")).getLast? with
  | none => rw [hlast] at h; exact h
  | some last =>
    rw [hlast] at h
    dsimp only at h ⊢
    split at h
    · cases h
    rename_i place hwalked
    rw [walk_keeps hkeeps hwalked]
    exact h

/-- A path finds the same in a later tree that has the same at its place. -/
theorem stat_keeps {tree later : FileTree} (hkeeps : Keeps tree later) {path : String}
    (hentry : later.entry (tree.place path) = tree.entry (tree.place path)) {entry : FileEntry}
    (h : tree.stat path = .ok entry) : later.stat path = .ok entry := by
  unfold stat at h ⊢
  rcases hspot : tree.spot path with error | ⟨place⟩ | ⟨parent, name, slashed⟩
  · rw [hspot] at h; cases h
  · rw [hspot] at h
    rw [spot_keeps hkeeps hspot]
    exact h
  · have hplace := (spot_eq_name_iff.1 hspot).1.place_eq
    have hname : later.entryIn parent name = tree.entryIn parent name := by
      unfold entryIn
      rw [← hplace, hentry]
    rw [hspot] at h
    rw [spot_keeps hkeeps hspot]
    simp only [bind, Except.bind] at h ⊢
    rw [hname]
    exact h

theorem read_congr {tree later : FileTree} {path : String} (h : later.stat path = tree.stat path) :
    later.read path = tree.read path := by
  unfold read
  rw [h]

/-- What a path found before a file was written elsewhere, it finds after that, and the other way
round. -/
theorem stat_write_iff {tree after : FileTree} {path other : String} {content : Bytes}
    (h : tree.write path content = .ok after) (hplace : tree.place other ≠ tree.place path)
    {entry : FileEntry} : after.stat other = .ok entry ↔ tree.stat other = .ok entry := by
  have hafter := keeps_of_write h
  have hbefore := keeps_before_write h
  have hentry : after.entry (tree.place other) = tree.entry (tree.place other) := by
    obtain ⟨-, -, rfl⟩ := write_eq_ok_iff.1 h
    exact entry_put_of_ne tree hplace _
  constructor
  · refine stat_keeps hbefore ?_
    rw [place_of_home hafter.home, hentry]
  · exact stat_keeps hafter hentry

end FileTree

end Newsletter
