/-
Attributes of newsletter elements. Each tag has a table of the properties it takes over, in order.
Properties that are absent, null or the empty text give no attribute.
-/
import Newsletter.Json.Props
import Newsletter.Tag

namespace Newsletter

open Json

/-! ## Values -/

namespace Attribute

/-- Numbers in attributes are positional from `0.000001` up to twenty-one digits before the point,
without a point when they are integers; zero has no sign; of two equally near decimals the greater
one is taken. -/
def layout : Layout :=
  { leastPoint := -5, greatestPoint := 21, keepsPoint := false, signsZero := false, tie := .up }

/-- The text of a number. -/
def numberText : Number → String
  | .integer n => String.ofList (Number.integerNumeral n.value).chars
  | .float x => String.ofList (layout.numeral x).chars

/-- The text of a property, if it gives an attribute. -/
def valueText? : Value → Option String
  | .null => none
  | .bool b => some (if b then "true" else "false")
  | .number n => some (numberText n)
  | .string s => if s = "" then none else some s
  | .array items => some (Value.array items).compact
  | .object members => some (Value.object members).compact

/-- Null, false, zero and the empty text count as no value at all. -/
def isTruthy : Value → Bool
  | .null => false
  | .bool b => b
  | .number n => !n.isZero
  | .string s => s != ""
  | .array _ | .object _ => true

/-- The attribute of a name with a property as its value. -/
def ofValue (name : String) (value : Option Value) : List (String × String) :=
  match value.bind valueText? with
  | some text => [(name, text)]
  | none => []

/-! ## Tables -/

/-- The attributes of a tag with the properties they are taken from. -/
def table : Tag → List (String × String)
  | .container | .unrecognized _ => []
  | .row => [("padding", "padding"), ("background-color", "backgroundColor")]
  | .column => [("width", "width")]
  | .text => [("font-size", "fontSize"), ("align", "align"), ("padding", "padding")]
  | .button =>
    [("href", "href"), ("align", "align"), ("padding", "padding"),
      ("background-color", "backgroundColor"), ("color", "color"),
      ("border-radius", "borderRadius")]
  | .image => [("src", "src"), ("alt", "alt"), ("href", "href"), ("padding", "padding")]
  | .divider =>
    [("border-width", "borderWidth"), ("border-color", "borderColor"), ("padding", "padding")]
  | .spacer => [("height", "height")]

/-- The width of a container: its own, if it has one, or else the general one. -/
def bodyWidth (props : Props) : Option Value :=
  ((props.get? "mjBodyWidth").filter isTruthy).or (props.get? "width")

/-- The attributes of an element. -/
def ofProps (tag : Tag) (props : Props) : List (String × String) :=
  match tag with
  | .container =>
    ofValue "background-color" (props.get? "backgroundColor") ++ ofValue "width" (bodyWidth props)
  | _ => (table tag).flatMap fun (name, key) => ofValue name (props.get? key)

end Attribute

end Newsletter
