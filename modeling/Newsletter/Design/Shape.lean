/-
Stored shapes: a design host that keeps its nodes as plain data. A shape is written as JSON, found
by its identifier, and seen by the compiler as a node whose export is the image stored with it.
-/
import Newsletter.Bytes.Base64
import Newsletter.Design.Node

namespace Newsletter

open Json

/-- A stored shape and its children. -/
structure Shape where
  id : String
  name : String
  kind : ShapeKind
  characters : Option String
  slots : Dict String
  children : List Shape
  /-- The image of the shape in Base64. -/
  png : Option String

namespace Shape

/-! ## Making shapes -/

/-- A shape with nothing but an identity. -/
def plain (id name : String) (kind : ShapeKind) : Shape :=
  { id, name, kind, characters := none, slots := Dict.empty, children := [], png := none }

/-- A text shape. -/
def ofText (id name characters : String) : Shape :=
  { plain id name .text with characters := some characters }

/-- Stores a tag with its properties. -/
def setTag (shape : Shape) (tag : Tag) (props : Props) : Shape :=
  { shape with slots := shape.slots.setTag tag props }

/-- Stores a text in a slot. -/
def setSlot (shape : Shape) (slot text : String) : Shape :=
  { shape with slots := shape.slots.insert slot text }

/-- Stores an image. -/
def setPng (shape : Shape) (bytes : Bytes) : Shape :=
  { shape with png := some (Base64.encode bytes) }

/-- Adds a child after the others. -/
def addChild (shape child : Shape) : Shape :=
  { shape with children := shape.children ++ [child] }

/-! ## Looking up -/

mutual

/-- The first shape with an identifier, a shape coming before its children. -/
def find? (id : String) : Shape → Option Shape
  | shape@{ id := own, children, .. } =>
    if own = id then some shape else findIn? id children
termination_by structural shape => shape

/-- The first shape with an identifier in a list of trees. -/
def findIn? (id : String) : List Shape → Option Shape
  | [] => none
  | shape :: shapes => (find? id shape).or (findIn? id shapes)
termination_by structural shapes => shapes

end

mutual

/-- Changes the first shape with an identifier; `none` when there is none. -/
def update? (id : String) (change : Shape → Shape) : Shape → Option Shape
  | shape@{ id := own, name, kind, characters, slots, children, png } =>
    if own = id then some (change shape)
    else (updateIn? id change children).map fun children =>
      { id := own, name, kind, characters, slots, children, png }
termination_by structural shape => shape

/-- Changes the first shape with an identifier in a list of trees. -/
def updateIn? (id : String) (change : Shape → Shape) : List Shape → Option (List Shape)
  | [] => none
  | shape :: shapes =>
    match update? id change shape with
    | some shape => some (shape :: shapes)
    | none => (updateIn? id change shapes).map (shape :: ·)
termination_by structural shapes => shapes

end

mutual

/-- A shape and all shapes below it, each before its children. -/
def preorder : Shape → List Shape
  | shape@{ children, .. } => shape :: preorderList children
termination_by structural shape => shape

/-- All shapes of a list of trees, in order. -/
def preorderList : List Shape → List Shape
  | [] => []
  | shape :: shapes => preorder shape ++ preorderList shapes
termination_by structural shapes => shapes

end

/-! ## Shapes as nodes -/

/-- The export of a stored image: its bytes, if it is Base64. -/
def exportImage (png : String) : ExportRequest → Except ExportError Bytes := fun _ =>
  match Base64.decode? png with
  | some bytes => .ok bytes
  | none => .error .malformed

mutual

/-- A shape as the compiler sees it. -/
def toNode : Shape → Node
  | { id, name, kind, characters, slots, children, png } =>
    { id, name, kind, slots := slots.get?, characters, exporter := png.map exportImage,
      children := toNodes children }
termination_by structural shape => shape

def toNodes : List Shape → List Node
  | [] => []
  | shape :: shapes => toNode shape :: toNodes shapes
termination_by structural shapes => shapes

end

/-! ## Shapes as JSON -/

/-- A field that is left out when there is no value. -/
def optionalField (name : String) (text : Option String) : List (String × Tree) :=
  match text with
  | none => []
  | some s => [(name, .text s)]

/-- The slots of a shape, left out when there are none. -/
def slotsField (slots : Dict String) : List (String × Tree) :=
  if slots.isEmpty then []
  else [("pluginData", .record (slots.entries.map fun (key, value) => (key, .text value)))]

/-- The children of a shape, left out when there are none. -/
def childrenField (children : List Tree) : List (String × Tree) :=
  if children.isEmpty then [] else [("children", .array children)]

mutual

def toTree : Shape → Tree
  | { id, name, kind, characters, slots, children, png } =>
    .record ([("id", .text id), ("name", .text name), ("kind", .text kind.toText)] ++
      optionalField "characters" characters ++ slotsField slots ++
      childrenField (toTrees children) ++ optionalField "png" png)
termination_by structural shape => shape

def toTrees : List Shape → List Tree
  | [] => []
  | shape :: shapes => toTree shape :: toTrees shapes
termination_by structural shapes => shapes

end

/-- The names of the fields of a shape, in order. -/
def fieldNames : List String :=
  ["id", "name", "kind", "characters", "pluginData", "children", "png"]

/-- Reads a shape. A shape and the list of its children are two levels of nesting. -/
def decoder : Decoder Shape
  | 0, _ => none
  | levels + 1, tree => do
    let fields ← Fields.ofTree? fieldNames tree
    let id ← fields.required levels "id" Decoder.string
    let name ← fields.withDefault levels "name" Decoder.string ""
    let kind ← fields.withDefault levels "kind" (Decoder.word ShapeKind.ofText?) .group
    let characters ← fields.optional levels "characters" Decoder.string
    let slots ← fields.withDefault levels "pluginData" (Decoder.dict Decoder.string) Dict.empty
    let children ← match fields.lookup "children" with
      | none => some []
      | some (.array items) =>
        match levels with
        | 0 => none
        | levels + 1 => items.mapM fun item => decoder levels item
      | some _ => none
    let png ← fields.optional levels "png" Decoder.string
    return { id, name, kind, characters, slots, children, png }

end Shape

end Newsletter
