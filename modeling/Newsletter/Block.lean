/-
Blocks, the parts a newsletter is made of: a container of rows of columns of leaf modules. A block
read from JSON may be nested in any way.
-/
import Newsletter.Json.Props
import Newsletter.Tag

namespace Newsletter

open Json

/-- A part of a newsletter and the parts inside it. -/
structure Block where
  tag : Tag
  id : String
  name : String
  props : Props
  /-- The text of a text or a button. -/
  text : Option String
  children : List Block

namespace Block

/-! ## Order -/

mutual

/-- A block and all blocks below it, each before its children. -/
def preorder : Block → List Block
  | block@{ children, .. } => block :: preorderList children
termination_by structural block => block

/-- All blocks of a list of trees, in order. -/
def preorderList : List Block → List Block
  | [] => []
  | block :: blocks => preorder block ++ preorderList blocks
termination_by structural blocks => blocks

end

/-- The number of blocks in a tree. -/
def size (block : Block) : Nat := block.preorder.length

/-- The number of images in a tree. -/
def imageCount (block : Block) : Nat := block.preorder.countP (·.tag = .image)

/-! ## Blocks as JSON -/

mutual

def toTree : Block → Tree
  | { tag, id, name, props, text, children } =>
    .record ([("type", .text tag.toText), ("id", .text id), ("name", .text name),
        ("props", props.toTree)] ++
      (match text with
        | none => []
        | some s => [("text", .text s)]) ++
      [("children", .array (toTrees children))])
termination_by structural block => block

def toTrees : List Block → List Tree
  | [] => []
  | block :: blocks => toTree block :: toTrees blocks
termination_by structural blocks => blocks

end

/-- The names of the fields of a block, in order. -/
def fieldNames : List String := ["type", "id", "name", "props", "text", "children"]

/-- Reads a block. A block and the list of its children are two levels of nesting. -/
def decoder : Decoder Block
  | 0, _ => none
  | levels + 1, tree => do
    let fields ← Fields.ofTree? fieldNames tree
    let tag ← fields.required levels "type" Decoder.string
    let id ← fields.required levels "id" Decoder.string
    let name ← fields.required levels "name" Decoder.string
    let props ← fields.withDefault levels "props" Props.decoder Props.empty
    let text ← fields.optional levels "text" Decoder.string
    let children ← match fields.lookup "children" with
      | none => some []
      | some (.array items) =>
        match levels with
        | 0 => none
        | levels + 1 => items.mapM fun item => decoder levels item
      | some _ => none
    return { tag := Tag.ofText tag, id, name, props, text, children }

end Block

end Newsletter
