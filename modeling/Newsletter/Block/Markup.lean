/-
The markup of blocks. A container is a document with a body; rows and columns hold their children;
texts and buttons hold their text; images, dividers and spacers are void. A block with an
unrecognized tag leaves no trace.
-/
import Newsletter.Block
import Newsletter.Markup.Attribute
import Newsletter.Markup.Basic

namespace Newsletter.Block

/-- The name of the element of a tag; that of a container is the document's body. -/
def elementName : Tag → String
  | .container => "mj-body"
  | .row => "mj-section"
  | .column => "mj-column"
  | .text => "mj-text"
  | .button => "mj-button"
  | .image => "mj-image"
  | .divider => "mj-divider"
  | .spacer => "mj-spacer"
  | .unrecognized _ => ""

/-- The text on a button. -/
def buttonText (text : Option String) : String := (text.filter (· ≠ "")).getD "Button"

/-- The markup of one block, given the markup of its children. -/
def assemble (tag : Tag) (props : Props) (text : Option String) (children : List Markup) :
    List Markup :=
  let name := elementName tag
  let attributes := Attribute.ofProps tag props
  match tag with
  | .container => [.element "mjml" [] [.element name attributes children]]
  | .row | .column => [.element name attributes children]
  | .text => [.element name attributes (Markup.ofText (text.getD ""))]
  | .button => [.element name attributes (Markup.ofText (buttonText text))]
  | .image | .divider | .spacer => [.void name attributes]
  | .unrecognized _ => []

mutual

/-- The markup of a block. -/
def markup : Block → List Markup
  | { tag, props, text, children, .. } => assemble tag props text (markupList children)
termination_by structural block => block

/-- The markup of blocks one after the other. -/
def markupList : List Block → List Markup
  | [] => []
  | block :: blocks => markup block ++ markupList blocks
termination_by structural blocks => blocks

end

/-- The text of a block's markup. -/
def render (block : Block) : String := Markup.renderList block.markup

end Newsletter.Block
