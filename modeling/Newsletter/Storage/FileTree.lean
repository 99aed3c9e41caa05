/-
Trees of files and directories without links, as a file system. Paths are looked up name by name
from the working directory or the root; every name before the last must be a directory.
-/
import Newsletter.Storage.System

namespace Newsletter

/-! ## Trees -/

/-- What is found at a place. -/
inductive FileEntry where
  | directory
  | file (content : Bytes)
  deriving DecidableEq, Repr

/-- The names that lead from the root to a file or directory. -/
abbrev Place := List String

/-- Files and directories by their place, and the working directory. The root is always there. -/
structure FileTree where
  home : Place
  entries : List (Place × FileEntry)
  deriving Repr

namespace FileTree

/-- A tree with nothing but its working directory, directly below the root. -/
def empty (name : String) : FileTree := { home := [name], entries := [([name], .directory)] }

/-- What is found at a place. -/
def entry (tree : FileTree) (place : Place) : Option FileEntry :=
  if place = [] then some .directory else tree.entries.lookup place

/-- Puts something at a place, in place of what was there. -/
def put (tree : FileTree) (place : Place) (entry : FileEntry) : FileTree :=
  { tree with
    entries := (place, entry) :: tree.entries.filter fun e => decide (e.1 ≠ place) }

/-! ## Looking up -/

/-- The greatest length of a name in bytes. -/
def maxName : Nat := 255

/-- The greatest length of a path in bytes. -/
def maxPath : Nat := 4095

/-- The directory that names lead to from a directory. -/
def walk (tree : FileTree) (place : Place) : List String → Except FileError Place
  | [] => .ok place
  | name :: rest =>
    if name = "." then walk tree place rest
    else if name = ".." then walk tree place.dropLast rest
    else if maxName < name.utf8ByteSize then .error .nameTooLong
    else
      match tree.entry (place ++ [name]) with
      | none => .error .notFound
      | some (.file _) => .error .notADirectory
      | some .directory => walk tree (place ++ [name]) rest

/-- Where a path leads: a directory itself, or a name in a directory that need not exist. -/
inductive Spot where
  | directory (place : Place)
  /-- A name in a directory; whether a slash follows it. -/
  | name (parent : Place) (text : String) (slashed : Bool)

/-- Where a path leads. -/
def spot (tree : FileTree) (path : String) : Except FileError Spot :=
  if '\x00' ∈ path.toList then .error .invalidPath
  else if path = "" then .error .notFound
  else if maxPath < path.utf8ByteSize then .error .nameTooLong
  else
    let start := if Path.isAbsolute path then [] else tree.home
    let names := (Path.segments path).filter (· ≠ "")
    match names.getLast? with
    | none => .ok (.directory start)
    | some last =>
      match tree.walk start names.dropLast with
      | .error error => .error error
      | .ok place =>
        if last = "." then .ok (.directory place)
        else if last = ".." then .ok (.directory place.dropLast)
        else .ok (.name place last (path.toList.getLast? = some '/'))

/-- What is found under a name in a directory. -/
def entryIn (tree : FileTree) (parent : Place) (name : String) :
    Except FileError (Option FileEntry) :=
  if maxName < name.utf8ByteSize then .error .nameTooLong
  else .ok (tree.entry (parent ++ [name]))

/-- What a path leads to. A slash may follow the name of a directory only. -/
def stat (tree : FileTree) (path : String) : Except FileError FileEntry := do
  match ← tree.spot path with
  | .directory _ => return .directory
  | .name parent name slashed =>
    match ← tree.entryIn parent name with
    | none => .error .notFound
    | some (.file content) =>
      if slashed then .error .notADirectory else return .file content
    | some .directory => return .directory

/-- Whether a path leads to a directory. -/
def isDirectory (tree : FileTree) (path : String) : Bool :=
  match tree.stat path with
  | .ok .directory => true
  | _ => false

/-- Whether a path leads to something. -/
def isPresent (tree : FileTree) (path : String) : Bool :=
  match tree.stat path with
  | .ok _ => true
  | .error _ => false

/-- The content of a file. -/
def read (tree : FileTree) (path : String) : Except FileError Bytes := do
  match ← tree.stat path with
  | .directory => .error .isADirectory
  | .file content => return content

/-! ## Changing -/

/-- Makes a directory in one that exists. -/
def makeDirectory (tree : FileTree) (path : String) : Except FileError FileTree := do
  match ← tree.spot path with
  | .directory _ => .error .alreadyExists
  | .name parent name _ =>
    match ← tree.entryIn parent name with
    | some _ => .error .alreadyExists
    | none => return tree.put (parent ++ [name]) .directory

/-- Makes a file or replaces its content. -/
def write (tree : FileTree) (path : String) (content : Bytes) : Except FileError FileTree := do
  match ← tree.spot path with
  | .directory _ => .error .isADirectory
  | .name parent name slashed =>
    if slashed then .error .isADirectory
    else
      match ← tree.entryIn parent name with
      | some .directory => .error .isADirectory
      | _ => return tree.put (parent ++ [name]) (.file content)

/-! ## Trees as a file system -/

/-- A change that either succeeds or leaves the tree alone. -/
def attempt (change : FileTree → Except FileError FileTree) : StateM FileTree (Except FileError Unit) :=
  fun tree =>
    match change tree with
    | .ok tree => (.ok (), tree)
    | .error error => (.error error, tree)

/-- The operations on a tree. -/
def system : System (StateM FileTree) where
  isPresent path := fun tree => (tree.isPresent path, tree)
  isDirectory path := fun tree => (tree.isDirectory path, tree)
  read path := fun tree => (tree.read path, tree)
  makeDirectory path := attempt (·.makeDirectory path)
  write path content := attempt (·.write path content)

end FileTree

end Newsletter
