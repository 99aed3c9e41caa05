/-
Design nodes as the compiler sees them: an identity, ordered children, text slots, and what else
the host offers. Nothing here says how a host stores its nodes.
-/
import Newsletter.Export
import Newsletter.Tag.Slots

namespace Newsletter

open Json

/-! ## Kinds of shapes -/

/-- The kind of a host shape, independent of any tag. -/
inductive ShapeKind where
  | board
  | group
  | rectangle
  | text
  | other
  deriving DecidableEq, Repr

namespace ShapeKind

def toText : ShapeKind → String
  | .board => "board"
  | .group => "group"
  | .rectangle => "rectangle"
  | .text => "text"
  | .other => "other"

def ofText? (text : String) : Option ShapeKind :=
  [board, group, rectangle, ShapeKind.text, other].find? (·.toText = text)

end ShapeKind

/-! ## Nodes -/

/-- A node of a design host. -/
structure Node where
  id : String
  name : String
  kind : ShapeKind
  /-- The text slots of the node. -/
  slots : Slots
  /-- The raw text of the node, if the host has one. -/
  characters : Option String
  /-- The export of the node as an image, if the host offers one. -/
  exporter : Option (ExportRequest → Except ExportError Bytes)
  children : List Node

namespace Node

/-- The tag stored on the node. -/
def tag? (node : Node) : Option Tag := node.slots.tag?

/-- The properties stored on the node. -/
def props (node : Node) : Props := node.slots.props

/-- The characters of the node, unless there are none. -/
def text? (node : Node) : Option String := node.characters.filter (· ≠ "")

end Node

end Newsletter
