/-
Packages: an edition written to a directory. The markup stands at the top, the images in a directory
of their own, and a manifest beside the markup if one is wanted. The steps are carried out in order
up to the first that fails.
-/
import Newsletter.Manifest
import Newsletter.Path
import Newsletter.Storage.System

namespace Newsletter

open Json

/-! ## Steps -/

/-- One change of the file system. -/
inductive PackageStep where
  | makeDirectory (path : String)
  | writeFile (path : String) (content : Bytes)
  deriving DecidableEq, Repr

namespace PackageStep

/-- The path that a step makes. -/
def path : PackageStep → String
  | .makeDirectory path => path
  | .writeFile path _ => path

variable {m : Type → Type} [Monad m]

/-- Carries out a step. -/
def run (system : System m) : PackageStep → m (Except FileError Unit)
  | .makeDirectory path => system.makeDirectories path
  | .writeFile path content => system.write path content

/-- Carries out steps up to the first that fails, and tells its path. -/
def runAll (system : System m) : List PackageStep → m (Except (String × FileError) Unit)
  | [] => return .ok ()
  | step :: steps => do
    match ← step.run system with
    | .error error => return .error (step.path, error)
    | .ok () => runAll system steps

end PackageStep

/-! ## Reports -/

/-- The files of a package, and the hash of its manifest. -/
structure PackageReport where
  files : List String
  manifestHash : Option String
  deriving DecidableEq, Repr

namespace PackageReport

def toTree (r : PackageReport) : Tree :=
  .record ([("files", .array (r.files.map .text))] ++
    match r.manifestHash with
    | none => []
    | some hash => [("manifestHash", .text hash)])

def decoder : Decoder PackageReport :=
  Decoder.record ["files", "manifestHash"] fun fields levels => do
    let files ← fields.required levels "files" (Decoder.list Decoder.string)
    let manifestHash ← fields.optional levels "manifestHash" Decoder.string
    return { files, manifestHash }

end PackageReport

/-! ## Packages -/

/-- What is packaged. -/
structure Package where
  settings : Settings
  edition : Edition
  /-- The identity of the manifest. -/
  stamp : Manifest.Stamp

/-- Why a package was not written in full. -/
inductive PackageError where
  /-- A file or directory could not be made. -/
  | unwritable (path : String) (error : FileError)
  | invalid (fault : Settings.Fault)
  deriving DecidableEq, Repr

def PackageError.message : PackageError → String
  | .unwritable path error => "Failed to write " ++ path ++ ": " ++ error.message
  | .invalid fault => "Invalid config: " ++ fault.message

namespace Package

/-- The file of a manifest. -/
def manifestFile : String := "manifest.json"

/-- The manifest of the package, if one is wanted. -/
def manifest? (p : Package) : Option Manifest :=
  if p.settings.manifest then some (Manifest.ofEdition p.stamp p.settings p.edition) else none

/-- The steps that make the directory of the images and fill it, if there are images. -/
def assetSteps (p : Package) (directory : String) : List PackageStep :=
  if p.edition.assets.isEmpty then []
  else
    let assetsDir := Path.join directory p.settings.assetsDir
    .makeDirectory assetsDir ::
      p.edition.assets.map fun a => .writeFile (Path.join assetsDir a.name) a.bytes

/-- The step that writes the manifest, if one is wanted. -/
def manifestSteps (p : Package) (directory : String) : List PackageStep :=
  match p.manifest? with
  | none => []
  | some m => [.writeFile (Path.join directory manifestFile) (Bytes.ofText m.text)]

/-- The steps that write the package into a directory. -/
def steps (p : Package) (directory : String) : List PackageStep :=
  [.makeDirectory directory,
    .writeFile (Path.join directory p.settings.markupFile) (Bytes.ofText p.edition.markup)] ++
    p.assetSteps directory ++ p.manifestSteps directory

/-- The report on the package once it is written. -/
def report (p : Package) : PackageReport :=
  { files := [p.settings.markupFile] ++
      p.edition.assets.map (fun a => p.settings.assetsDir ++ "/" ++ a.name) ++
      (if p.settings.manifest then [manifestFile] else [])
    manifestHash := p.manifest?.map (·.hash) }

variable {m : Type → Type} [Monad m]

/-- Writes the package into a directory, unless its settings are invalid. -/
def write (system : System m) (p : Package) (directory : String) :
    m (Except PackageError PackageReport) :=
  match p.settings.fault? with
  | some fault => return .error (.invalid fault)
  | none => do
    match ← PackageStep.runAll system (p.steps directory) with
    | .error (path, error) => return .error (.unwritable path error)
    | .ok () => return .ok p.report

end Package

end Newsletter
