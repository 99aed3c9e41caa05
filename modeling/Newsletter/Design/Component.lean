/-
Components: the building blocks that can be inserted into a design, each with its tag, its default
properties and the tag its parent must have.
-/
import Newsletter.Json.Props
import Newsletter.Tag

namespace Newsletter

open Json

/-- An insertable building block. -/
inductive Component where
  | container
  | row
  | column
  | text
  | button
  | image
  | divider
  | spacer
  deriving DecidableEq, Repr

namespace Component

def tag : Component → Tag
  | .container => .container
  | .row => .row
  | .column => .column
  | .text => .text
  | .button => .button
  | .image => .image
  | .divider => .divider
  | .spacer => .spacer

/-- A component is written as the text of its tag. -/
def toText (c : Component) : String := c.tag.toText

def all : List Component := [container, row, column, text, button, image, divider, spacer]

def ofText? (text : String) : Option Component := all.find? (·.toText = text)

/-- The name shown to users. -/
def displayName : Component → String
  | .container => "Newsletter Container"
  | .row => "Section"
  | .column => "Column"
  | .text => "Text"
  | .button => "Button"
  | .image => "Image"
  | .divider => "Divider"
  | .spacer => "Spacer"

/-- The properties of a newly inserted component. -/
def defaultProps : Component → Props
  | .container => .ofMembers
    [("width", .number (.ofNat 600)), ("backgroundColor", .string "#ffffff"),
      ("mjBodyWidth", .string "600px")]
  | .row => .ofMembers [("padding", .string "0px"), ("backgroundColor", .null)]
  | .column => .ofMembers [("width", .null)]
  | .text => .ofMembers
    [("fontSize", .number (.ofNat 16)), ("align", .string "left"), ("padding", .string "0px")]
  | .button => .ofMembers
    [("href", .string "https://example.com"), ("align", .string "left"),
      ("padding", .string "0px"), ("backgroundColor", .string "#4c6fff"),
      ("color", .string "#ffffff"), ("borderRadius", .string "4px")]
  | .image => .ofMembers [("alt", .string "Image"), ("href", .null), ("padding", .string "0px")]
  | .divider => .ofMembers
    [("borderWidth", .string "1px"), ("borderColor", .string "#dddddd"),
      ("padding", .string "0px")]
  | .spacer => .ofMembers [("height", .number (.ofNat 24))]

/-- The tag that the parent of a new component must have; a container needs no parent. -/
def requiredParent : Component → Option Tag
  | .container => none
  | .row => some .container
  | .column => some .row
  | .text | .button | .image | .divider | .spacer => some .column

/-- What is said when the parent has another tag. -/
def parentMessage : Component → String
  | .row => "Select a Container to insert a Row/Section."
  | .column => "Select a Section to insert a Column."
  | _ => "Select a Column before inserting a module."

/-- What is said when the component was inserted. -/
def confirmation : Component → String
  | .container => "Container inserted."
  | .row => "Section inserted."
  | .column => "Column inserted."
  | .text => "Text inserted."
  | .button => "Button inserted."
  | .image => "Image placeholder inserted."
  | .divider => "Divider inserted."
  | .spacer => "Spacer inserted."

def decoder : Json.Decoder Component := Decoder.word ofText?

end Component

end Newsletter
