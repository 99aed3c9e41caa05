/-
Requests: the messages that the interactive layer sends. A message is a JSON object with a `type`
and a `payload`, or an array of the two; a message of any other form is no request.
-/
import Newsletter.Design.Component
import Newsletter.Json.Props

namespace Newsletter

open Json

/-! ## Tagging -/

/-- What a node is to be tagged with; both parts may be missing. -/
structure Tagging where
  tag : Option String
  props : Option Value

namespace Tagging

def empty : Tagging := { tag := none, props := none }

/-- A value that is missing or null counts as absent. -/
def present? : Option Value → Option Value
  | none | some .null => none
  | some v => some v

/-- The tagging of two values, of which the first is a text if it is present. -/
def ofParts? (tag props : Option Value) : Option Tagging :=
  match present? tag with
  | none => some { tag := none, props := present? props }
  | some (.string s) => some { tag := some s, props := present? props }
  | some _ => none

/-- The tagging that a payload holds: by name in an object, by position in an array. -/
def ofValue? : Value → Option Tagging
  | .object members => ofParts? (members.lookup "nlType") (members.lookup "props")
  | .array [] => some empty
  | .array [tag] => ofParts? (some tag) none
  | .array [tag, props] => ofParts? (some tag) (some props)
  | _ => none

/-- Absent parts are written as `null`. -/
def toTree (t : Tagging) : Tree :=
  .record [("nlType", (t.tag.map Tree.text).getD .null),
    ("props", (t.props.map Value.toTree).getD .null)]

def decoder : Decoder Tagging :=
  Decoder.record ["nlType", "props"] fun fields levels => do
    let tag ← fields.optional levels "nlType" Decoder.string
    let props ← fields.optional levels "props" Decoder.value
    return { tag, props }

end Tagging

/-! ## Requests -/

/-- A request of the interactive layer. -/
inductive Request where
  | ping
  | insert (component : Component)
  | tagSelection (tagging : Tagging)
  | exportMarkup

namespace Request

/-- The request of a type with a payload. A payload that is no tagging counts as an empty one. -/
def ofParts? (type : String) (payload : Value) : Option Request :=
  if type = "PING" then some .ping
  else if type = "INSERT_CONTAINER" then some (.insert .container)
  else if type = "INSERT_ROW" then some (.insert .row)
  else if type = "INSERT_COLUMN" then some (.insert .column)
  else if type = "INSERT_TEXT" then some (.insert .text)
  else if type = "INSERT_BUTTON" then some (.insert .button)
  else if type = "INSERT_IMAGE" then some (.insert .image)
  else if type = "INSERT_DIVIDER" then some (.insert .divider)
  else if type = "INSERT_SPACER" then some (.insert .spacer)
  else if type = "TAG_SELECTION" then
    some (.tagSelection ((Tagging.ofValue? payload).getD Tagging.empty))
  else if type = "EXPORT_MJML" then some .exportMarkup
  else none

/-- The request that a message stands for, if it stands for one. -/
def ofMessage? : Value → Option Request
  | .object members =>
    match members.lookup "type" with
    | some (.string type) => ofParts? type ((members.lookup "payload").getD .null)
    | _ => none
  | .array [.string type] => ofParts? type .null
  | .array [.string type, payload] => ofParts? type payload
  | _ => none

end Request

end Newsletter
