/-
File systems: the few operations on files that packaging needs, whatever keeps the files. Reading
text and making nested directories are composed of them.
-/
import Newsletter.Bytes.Basic
import Newsletter.Path

namespace Newsletter

/-! ## Failures -/

/-- Why an operation on files failed. -/
inductive FileError where
  | notFound
  | alreadyExists
  | notADirectory
  | isADirectory
  | nameTooLong
  /-- The path holds the character NUL. -/
  | invalidPath
  /-- The file is not UTF-8. -/
  | notText
  /-- Any other failure, in the words of the system. -/
  | other (message : String)
  deriving DecidableEq, Repr

/-- The wording of a failure with the number of the system for it. -/
def FileError.message : FileError → String
  | .notFound => "No such file or directory (os error 2)"
  | .alreadyExists => "File exists (os error 17)"
  | .notADirectory => "Not a directory (os error 20)"
  | .isADirectory => "Is a directory (os error 21)"
  | .nameTooLong => "File name too long (os error 36)"
  | .invalidPath => "file name contained an unexpected NUL byte"
  | .notText => "stream did not contain valid UTF-8"
  | .other message => message

/-! ## Systems -/

/-- The operations on files, with effects in `m`. -/
structure System (m : Type → Type) where
  /-- Whether there is a file or directory. -/
  isPresent : String → m Bool
  /-- Whether there is a directory. -/
  isDirectory : String → m Bool
  /-- The content of a file. -/
  read : String → m (Except FileError Bytes)
  /-- Makes a directory in one that exists. -/
  makeDirectory : String → m (Except FileError Unit)
  /-- Makes a file or replaces its content. -/
  write : String → Bytes → m (Except FileError Unit)

namespace System

variable {m : Type → Type} [Monad m]

/-- The content of a file as text. -/
def readText (system : System m) (path : String) : m (Except FileError String) := do
  match ← system.read path with
  | .error error => return .error error
  | .ok bytes =>
    match bytes.text? with
    | some text => return .ok text
    | none => return .error .notText

/-- Makes a directory in one that exists, unless it is there already. -/
def ensureDirectory (system : System m) (path : String) : m (Except FileError Unit) := do
  match ← system.makeDirectory path with
  | .ok () => return .ok ()
  | .error error =>
    if ← system.isDirectory path then return .ok ()
    else return .error error

/-- Makes a directory; if one above it is missing, after making that in the same way. The paths
above are given, the longest first. -/
def ensureBelow (system : System m) (path : String) : List String → m (Except FileError Unit)
  | [] => system.ensureDirectory path
  | parent :: ancestors => do
    match ← system.ensureDirectory path with
    | .error .notFound =>
      if parent = "" then return .error .notFound
      else
        match ← ensureBelow system parent ancestors with
        | .error error => return .error error
        | .ok () => system.ensureDirectory path
    | result => return result

/-- Makes a directory and those above it, as far as they are missing. -/
def makeDirectories (system : System m) (path : String) : m (Except FileError Unit) :=
  if path = "" then return .ok ()
  else system.ensureBelow path (Path.ancestors path)

end System

end Newsletter
