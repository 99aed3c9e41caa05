/-
Manifests: what a package holds, with a digest of every file and a hash over the manifest itself.
The hash is the digest of the manifest's canonical JSON text with the hash left empty.
-/
import Newsletter.Bytes.Sha256
import Newsletter.Edition
import Newsletter.Time.Timestamp

namespace Newsletter

open Json

/-! ## Digests of JSON -/

/-- The digest of the canonical text of a value. -/
def canonicalHash (v : Value) : String := Sha256.hexDigest (Bytes.ofText v.canonicalText)

/-! ## Manifests -/

/-- An image in a package. -/
structure ManifestAsset where
  name : String
  mediaType : String
  /-- The number of bytes. -/
  size : Nat
  sha256 : String
  size_lt : size < 0x10000000000000000
  deriving DecidableEq, Repr

/-- The contents of a package. -/
structure Manifest where
  id : String
  createdAt : Timestamp
  engineVersion : String
  schemaVersion : String
  markupFile : String
  markupSha256 : String
  assets : List ManifestAsset
  warnings : List String
  /-- The digest of the manifest with this field empty. -/
  hash : String
  deriving DecidableEq, Repr

/-- The version of this compiler. -/
def engineVersion : String := "0.1.0"

/-! ## Manifests as JSON -/

namespace ManifestAsset

def toTree (a : ManifestAsset) : Tree :=
  .record [("name", .text a.name), ("mimeType", .text a.mediaType), ("size", .nat a.size),
    ("sha256", .text a.sha256)]

def toValue (a : ManifestAsset) : Value :=
  .object [("name", .string a.name), ("mimeType", .string a.mediaType),
    ("size", .number (.ofNat a.size a.size_lt)), ("sha256", .string a.sha256)]

def decoder : Decoder ManifestAsset :=
  Decoder.record ["name", "mimeType", "size", "sha256"] fun fields levels => do
    let name ← fields.required levels "name" Decoder.string
    let mediaType ← fields.required levels "mimeType" Decoder.string
    let size ← fields.required levels "size" (Decoder.nat64)
    let sha256 ← fields.required levels "sha256" Decoder.string
    if h : size < 0x10000000000000000 then return { name, mediaType, size, sha256, size_lt := h } else none

end ManifestAsset

namespace Manifest

def toTree (m : Manifest) : Tree :=
  .record [("id", .text m.id), ("createdAt", .text m.createdAt.toText),
    ("engineVersion", .text m.engineVersion), ("schemaVersion", .text m.schemaVersion),
    ("markupFile", .text m.markupFile), ("markupSha256", .text m.markupSha256),
    ("assets", .array (m.assets.map ManifestAsset.toTree)),
    ("warnings", .array (m.warnings.map .text)), ("manifestHash", .text m.hash)]

/-- The manifest as a JSON value. -/
def toValue (m : Manifest) : Value :=
  .object [("id", .string m.id), ("createdAt", .string m.createdAt.toText),
    ("engineVersion", .string m.engineVersion), ("schemaVersion", .string m.schemaVersion),
    ("markupFile", .string m.markupFile), ("markupSha256", .string m.markupSha256),
    ("assets", .array (m.assets.map ManifestAsset.toValue)),
    ("warnings", .array (m.warnings.map .string)), ("manifestHash", .string m.hash)]

def decoder : Decoder Manifest :=
  Decoder.record ["id", "createdAt", "engineVersion", "schemaVersion", "markupFile",
      "markupSha256", "assets", "warnings", "manifestHash"] fun fields levels => do
    let id ← fields.required levels "id" Decoder.string
    let createdAt ← (← fields.required levels "createdAt" Decoder.string) |> Timestamp.ofText?
    let engineVersion ← fields.required levels "engineVersion" Decoder.string
    let schemaVersion ← fields.required levels "schemaVersion" Decoder.string
    let markupFile ← fields.required levels "markupFile" Decoder.string
    let markupSha256 ← fields.required levels "markupSha256" Decoder.string
    let assets ← fields.required levels "assets" (Decoder.list ManifestAsset.decoder)
    let warnings ← fields.required levels "warnings" (Decoder.list Decoder.string)
    let hash ← fields.required levels "manifestHash" Decoder.string
    return { id, createdAt, engineVersion, schemaVersion, markupFile, markupSha256, assets,
             warnings, hash }

/-- The text of the manifest as a file. -/
def text (m : Manifest) : String := m.toTree.pretty

/-! ## Seals -/

/-- The canonical JSON text that is sealed. -/
def sealedText (m : Manifest) : String := { m with hash := "" }.toValue.canonicalText

/-- The hash that seals the manifest. -/
def properHash (m : Manifest) : String := canonicalHash { m with hash := "" }.toValue

/-- The manifest with its proper hash. -/
def sealed (m : Manifest) : Manifest := { m with hash := m.properHash }

/-- A manifest is genuine if it has its proper hash. -/
def verify (m : Manifest) : Bool := m.properHash = m.hash

/-! ## The manifest of an edition -/

/-- What distinguishes one packaging from another: an identifier and the time. -/
structure Stamp where
  id : String
  time : Timestamp
  deriving DecidableEq, Repr

/-- The entry of an image. A size is counted up to the greatest number of 64 bits. -/
def entry (asset : Asset) : ManifestAsset :=
  { name := asset.name, mediaType := asset.mediaType, size := min asset.bytes.length 0xFFFFFFFFFFFFFFFF,
    sha256 := Sha256.hexDigest asset.bytes, size_lt := by omega }

/-- The sealed manifest of an edition. -/
def ofEdition (stamp : Stamp) (settings : Settings) (edition : Edition) : Manifest :=
  sealed
    { id := stamp.id
      createdAt := stamp.time
      engineVersion := Newsletter.engineVersion
      schemaVersion := Newsletter.schemaVersion
      markupFile := settings.markupFile
      markupSha256 := Sha256.hexDigest (Bytes.ofText edition.markup)
      assets := edition.assets.map entry
      warnings := edition.warnings
      hash := "" }

end Manifest

end Newsletter
