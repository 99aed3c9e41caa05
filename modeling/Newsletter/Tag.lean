/-
The semantic roles of design nodes. A stored role outside the known ones is kept as it is. Main
statement: reading a tag loses nothing of its text.
-/

namespace Newsletter

/-- The role of a node in a newsletter: a container holds rows, a row holds columns, and a column
holds the leaf modules. The text of a row is `section`. -/
inductive Tag where
  | container
  | row
  | column
  | text
  | button
  | image
  | divider
  | spacer
  | unrecognized (stored : String)
  deriving DecidableEq, Repr

namespace Tag

/-- The tag that a text stands for. -/
def ofText (text : String) : Tag :=
  if text = "container" then .container
  else if text = "section" then .row
  else if text = "column" then .column
  else if text = "text" then .text
  else if text = "button" then .button
  else if text = "image" then .image
  else if text = "divider" then .divider
  else if text = "spacer" then .spacer
  else .unrecognized text

/-- The text of a tag. -/
def toText : Tag → String
  | .container => "container"
  | .row => "section"
  | .column => "column"
  | .text => "text"
  | .button => "button"
  | .image => "image"
  | .divider => "divider"
  | .spacer => "spacer"
  | .unrecognized stored => stored

/-- Leaf tags are the modules a column holds; they have no children of their own. -/
def isLeaf : Tag → Bool
  | .text | .button | .image | .divider | .spacer => true
  | .container | .row | .column | .unrecognized _ => false

/-- Reading a tag keeps its text. -/
theorem toText_ofText (text : String) : (ofText text).toText = text := by
  grind [ofText, toText]

end Tag

end Newsletter
