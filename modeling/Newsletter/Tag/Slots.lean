/-
The three text slots in which a host node keeps its role: the tag, the properties as JSON and the
version they were written with. An empty slot counts as absent, and properties that cannot be read
count as none.
-/
import Newsletter.Dict
import Newsletter.Json.Props
import Newsletter.Tag

namespace Newsletter

namespace Slot

/-- The slot of the tag. -/
def tag : String := "nl:type"

/-- The slot of the properties. -/
def props : String := "nl:props"

/-- The slot of the version. -/
def version : String := "nl:version"

end Slot

/-- The version written next to every tag. -/
def schemaVersion : String := "0.1"

/-- The text slots of a node: what is found under each name. -/
abbrev Slots := String → Option String

namespace Slots

/-- The text of a slot that is not empty. -/
def text? (slots : Slots) (name : String) : Option String := (slots name).filter (· ≠ "")

/-- The stored tag. -/
def tag? (slots : Slots) : Option Tag := (slots.text? Slot.tag).map Tag.ofText

/-- The stored properties; none when the slot holds no JSON object. -/
def props (slots : Slots) : Props :=
  ((slots.text? Slot.props).bind Props.decoder.read?).getD Props.empty

/-- The stored version. -/
def version? (slots : Slots) : Option String := slots.text? Slot.version

end Slots

/-- Stores a tag, its properties and the version. -/
def Dict.setTag (slots : Dict String) (tag : Tag) (props : Props) : Dict String :=
  ((slots.insert Slot.tag tag.toText).insert Slot.props props.compact).insert
    Slot.version schemaVersion

end Newsletter
