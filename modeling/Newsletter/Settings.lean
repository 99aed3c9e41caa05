/-
Settings of a compilation: where the markup and the images go, at which scale images are exported
and whether a manifest is written. Every setting has a default. Valid settings keep all output
inside the package.
-/
import Newsletter.Export
import Newsletter.Path
import Newsletter.Text.Blank
import Newsletter.Text.Quoted

namespace Newsletter

open Json

structure Settings where
  /-- The file of the markup in the package. -/
  markupFile : String := "index.mjml"
  /-- The directory of the images in the package, and the start of references to them. -/
  assetsDir : String := "assets"
  exportScale : Scale := .one
  /-- Whether a manifest is packaged. -/
  manifest : Bool := false
  deriving DecidableEq

namespace Settings

def standard : Settings := {}

/-! ## Settings as JSON -/

def toTree (s : Settings) : Tree :=
  .record [("markupFile", .text s.markupFile), ("assetsDir", .text s.assetsDir),
    ("exportScale", s.exportScale.toTree), ("manifest", .bool s.manifest)]

def decoder : Decoder Settings :=
  Decoder.record ["markupFile", "assetsDir", "exportScale", "manifest"] fun fields levels => do
    let markupFile ← fields.withDefault levels "markupFile" Decoder.string standard.markupFile
    let assetsDir ← fields.withDefault levels "assetsDir" Decoder.string standard.assetsDir
    let exportScale ← fields.withDefault levels "exportScale" Scale.decoder standard.exportScale
    let manifest ← fields.withDefault levels "manifest" Decoder.bool standard.manifest
    return { markupFile, assetsDir, exportScale, manifest }

/-! ## Validity -/

/-- Why settings are refused. -/
inductive Fault where
  | blankMarkupFile
  /-- The markup file is not a plain file name. -/
  | markupFile (path : String)
  | blankAssetsDir
  /-- The directory of the images leaves the package, or names nothing in it. -/
  | assetsDir (path : String)
  | exportScale
  deriving DecidableEq, Repr

def Fault.message : Fault → String
  | .blankMarkupFile => "markupFile must not be empty"
  | .markupFile path => "markupFile must be a plain file name, got " ++ Text.quoted path
  | .blankAssetsDir => "assetsDir must not be empty"
  | .assetsDir path =>
    "assetsDir must be a relative path inside the package, got " ++ Text.quoted path
  | .exportScale => "exportScale must be in (0, 4]"

/-- A path of a single name. -/
def isPlainName (path : String) : Bool :=
  match Path.parts path with
  | [.name _] => true
  | _ => false

/-- A relative path that names something and never goes up. -/
def isContained (path : String) : Bool :=
  let parts := Path.parts path
  parts.any Path.Part.isName && parts.all fun part => part.isName || part = .current

/-- The first fault of the settings, if they have one. -/
def fault? (s : Settings) : Option Fault :=
  if Text.isBlank s.markupFile then some .blankMarkupFile
  else if !isPlainName s.markupFile then some (.markupFile s.markupFile)
  else if Text.isBlank s.assetsDir then some .blankAssetsDir
  else if !isContained s.assetsDir then some (.assetsDir s.assetsDir)
  else if !s.exportScale.isExportable then some .exportScale
  else none

theorem fault?_eq_none_iff {settings : Settings} : settings.fault? = none ↔
    Text.isBlank settings.markupFile = false ∧ isPlainName settings.markupFile = true ∧
      Text.isBlank settings.assetsDir = false ∧ isContained settings.assetsDir = true ∧
      settings.exportScale.isExportable = true := by
  unfold fault?
  cases Text.isBlank settings.markupFile <;> cases isPlainName settings.markupFile <;>
    cases Text.isBlank settings.assetsDir <;> cases isContained settings.assetsDir <;>
    cases settings.exportScale.isExportable <;> simp

/-! ## Loading -/

/-- Why settings could not be loaded. -/
inductive LoadError where
  /-- The file could not be read. -/
  | unreadable (reason : String)
  /-- The file does not hold settings in JSON. -/
  | malformed
  | invalid (fault : Fault)
  deriving DecidableEq, Repr

/-- The settings in the text of a file; a file that does not exist stands for the defaults. -/
def load (text : Option String) : Except LoadError Settings :=
  match text with
  | none => .ok standard
  | some text =>
    match decoder.read? text with
    | none => .error .malformed
    | some settings =>
      match settings.fault? with
      | none => .ok settings
      | some fault => .error (.invalid fault)

end Settings

end Newsletter
