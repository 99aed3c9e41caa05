/-
Drafts: the blocks built from tagged design nodes, together with the node each block was built from
and the findings made on the way. A child that does not belong where it stands is dropped with all
below it; where that is an anomaly, a finding is recorded. Children keep their order.
-/
import Newsletter.Block
import Newsletter.Design.Node
import Newsletter.Diagnostic

namespace Newsletter

/-! ## Drafts -/

/-- Something built from nodes. -/
structure Draft (α : Type) where
  value : α
  /-- The node of every block built, in the order of the blocks. -/
  sources : List Node
  diagnostics : List Diagnostic

namespace Draft

/-- No blocks. -/
def nothing : Draft (List Block) := { value := [], sources := [], diagnostics := [] }

/-- A block in front of the blocks of another draft. -/
def cons (first : Draft Block) (others : Draft (List Block)) : Draft (List Block) :=
  { value := first.value :: others.value
    sources := first.sources ++ others.sources
    diagnostics := first.diagnostics ++ others.diagnostics }

/-- A finding in front of those of another draft. -/
def report (d : Diagnostic) (draft : Draft (List Block)) : Draft (List Block) :=
  { draft with diagnostics := d :: draft.diagnostics }

end Draft

/-! ## What belongs where -/

/-- What becomes of a child. -/
inductive Verdict where
  /-- The child becomes a block with this tag. -/
  | keep (tag : Tag)
  /-- The child is dropped, and that is worth a finding. -/
  | reject (d : Diagnostic)
  /-- The child is dropped. -/
  | ignore

namespace Verdict

/-- Containers and rows accept one tag only; untagged shapes among their children are expected. -/
def nested (parent expected : Tag) (child : Node) : Verdict :=
  match child.tag? with
  | some tag => if tag = expected then .keep tag else .reject (.unsupportedIn parent child.id tag)
  | none => .ignore

/-- Columns accept the leaf modules, and nothing else is expected there. -/
def inColumn (child : Node) : Verdict :=
  match child.tag? with
  | some tag => if tag.isLeaf then .keep tag else .reject (.unsupportedInColumn child.id tag)
  | none => .reject (.untagged child.id child.name)

/-- What becomes of a child of a node with the tag `parent`. Leaves have no children. -/
def ofChild (parent : Tag) (child : Node) : Verdict :=
  match parent with
  | .container => nested .container .row child
  | .row => nested .row .column child
  | .column => inColumn child
  | _ => .ignore

end Verdict

/-! ## Texts -/

namespace Node

/-- The label of a button without a text or a name. -/
def defaultLabel : String := "Button"

/-- The text of a text module: its characters, or else its name. -/
def content (node : Node) : String := node.text?.getD node.name

/-- The label of a button: the characters of its first text shape, or else its name. -/
def label (node : Node) : String :=
  match (node.children.find? (·.kind = .text)).bind Node.text? with
  | some text => text
  | none => if node.name = "" then defaultLabel else node.name

/-- The text of the block that a node with a tag becomes. -/
def blockText? (tag : Tag) (node : Node) : Option String :=
  match tag with
  | .text => some node.content
  | .button => some node.label
  | _ => none

/-- The findings about a kept node once its children are built. -/
def closing (tag : Tag) (node : Node) (children : List Block) : List Diagnostic :=
  if tag = .row ∧ children = [] then [.noColumns node.id node.name] else []

/-! ## Building -/

mutual

/-- The block of a node that is kept with a tag. -/
def draft (tag : Tag) : Node → Draft Block
  | node@{ id, name, children, .. } =>
    let inner := draftChildren tag children
    { value :=
        { tag, id, name, props := node.props, text := node.blockText? tag, children := inner.value }
      sources := node :: inner.sources
      diagnostics := inner.diagnostics ++ node.closing tag inner.value }
termination_by structural node => node

/-- The blocks of those children that a node with the tag `parent` accepts. -/
def draftChildren (parent : Tag) : List Node → Draft (List Block)
  | [] => Draft.nothing
  | child :: rest =>
    match Verdict.ofChild parent child with
    | .keep tag => (draft tag child).cons (draftChildren parent rest)
    | .reject d => (draftChildren parent rest).report d
    | .ignore => draftChildren parent rest
termination_by structural children => children

end

/-- The draft of a tree with a tagged root. -/
def draft? (node : Node) : Option (Draft Block) := node.tag?.map fun tag => node.draft tag

end Node

end Newsletter
