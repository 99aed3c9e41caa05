/-
Raster exports: the request put to a host node, the ways it can fail, and the assets made from what
it returns.
-/
import Newsletter.Bytes.Basic
import Newsletter.Json.Decoder

namespace Newsletter

open Json

/-! ## Scales -/

/-- A magnification of 32 bits. Numbers beyond the largest finite one are infinite. -/
inductive Scale where
  | finite (x : Binary Format.single)
  | infinite (negative : Bool)
  deriving DecidableEq

namespace Scale

/-- The scale `1`. -/
def one : Scale :=
  .finite { negative := false, mantissa := 0x800000, exponent := -23, mantissa_lt := by decide,
            lowest_le := by decide, le_highest := by decide, normal := Or.inr (by decide) }

/-- The scale nearest to a fraction. -/
def nearest (negative : Bool) (num den : Nat) : Scale :=
  match Binary.nearest? negative num den with
  | some x => .finite x
  | none => .infinite negative

/-- The scale nearest to a number. -/
def ofNumber : Number → Scale
  | .integer n => nearest (decide (n.value < 0)) n.value.natAbs 1
  | .float x => nearest x.negative x.ratio.1 x.ratio.2

/-- Scales above zero and up to four can be exported. -/
def isExportable : Scale → Bool
  | .finite x => !x.negative && !x.isZero && x.ratio.1 ≤ 4 * x.ratio.2
  | .infinite _ => false

/-- Scales are positional from `0.000001` up to thirteen digits before the point, and for the rest
laid out as any number of JSON. -/
def layout : Layout := { Number.layout with leastPoint := -5, greatestPoint := 13 }

/-- An infinite scale is written as `null`. -/
def toTree : Scale → Tree
  | .finite x => .number (layout.numeral x)
  | .infinite _ => .null

def decoder : Decoder Scale := fun levels tree => (Decoder.number levels tree).map ofNumber

end Scale

/-! ## Requests -/

/-- The image formats that can be requested. -/
inductive ImageFormat where
  | png
  deriving DecidableEq, Repr

namespace ImageFormat

def toText : ImageFormat → String
  | .png => "png"

def ofText? (text : String) : Option ImageFormat := if text = "png" then some .png else none

/-- The media type of the format. -/
def mediaType : ImageFormat → String
  | .png => "image/png"

end ImageFormat

/-- What is asked of a node that can export itself as an image. -/
structure ExportRequest where
  format : ImageFormat
  scale : Scale
  deriving DecidableEq

namespace ExportRequest

/-- A PNG image at a scale. -/
def png (scale : Scale) : ExportRequest := { format := .png, scale }

def toTree (r : ExportRequest) : Tree :=
  .record [("type", .text r.format.toText), ("scale", r.scale.toTree)]

def decoder : Decoder ExportRequest :=
  Decoder.record ["type", "scale"] fun fields levels => do
    let format ← fields.required levels "type" (Decoder.word ImageFormat.ofText?)
    let scale ← fields.required levels "scale" Scale.decoder
    return { format, scale }

end ExportRequest

/-- Why an export gave no image. -/
inductive ExportError where
  /-- The node cannot be exported at all. -/
  | unsupported
  /-- The host reported a failure. -/
  | failed (reason : String)
  /-- The stored image is not Base64. -/
  | malformed
  deriving DecidableEq, Repr

namespace ExportError

def message : ExportError → String
  | .unsupported => "Node has no export capability"
  | .failed reason => "Export failed: " ++ reason
  | .malformed => "Invalid image payload"

end ExportError

/-! ## Assets -/

/-- An exported image under the name it is packaged by. -/
structure Asset where
  name : String
  bytes : Bytes
  mediaType : String
  deriving DecidableEq, Repr

namespace Asset

/-- Bytes are written as an array of numbers. -/
def toTree (a : Asset) : Tree :=
  .record [("name", .text a.name), ("bytes", .array (a.bytes.map fun b => .nat b.toNat)),
    ("mimeType", .text a.mediaType)]

def decoder : Decoder Asset :=
  Decoder.record ["name", "bytes", "mimeType"] fun fields levels => do
    let name ← fields.required levels "name" Decoder.string
    let bytes ← fields.required levels "bytes" (Decoder.list Decoder.byte)
    let mediaType ← fields.required levels "mimeType" Decoder.string
    return { name, bytes, mediaType }

/-- The name of the image at a position counted from one: `image-001.png`, `image-002.png`, … -/
def imageName (position : Nat) : String :=
  "image-" ++ String.ofList (Digits.chars (Digits.padded 3 position)) ++ ".png"

/-- A directory name without the slashes at its end. -/
def trimSlashes (directory : String) : String :=
  String.ofList (directory.toList.reverse.dropWhile (· = '/')).reverse

/-- The reference by which markup names an asset in a directory. -/
def reference (directory name : String) : String := trimSlashes directory ++ "/" ++ name

end Asset

end Newsletter
