/-
Design surfaces: what the command layer needs of a host document. A stored document is one such
surface; a host of another kind offers the same operations on a state of its own.
-/
import Newsletter.Design.Document

namespace Newsletter

/-- Why a host did not create a shape. -/
inductive SurfaceError where
  | nodeNotFound (id : String)
  /-- The host refused to create the thing named. -/
  | createFailed (name reason : String)
  deriving DecidableEq, Repr

def SurfaceError.message : SurfaceError → String
  | .nodeNotFound id => "Node not found: " ++ id
  | .createFailed name reason => "Cannot create " ++ name ++ ": " ++ reason

/-- The operations of a host on its state. -/
structure Surface (σ : Type) where
  /-- The identifiers of the selected nodes. -/
  selection : σ → List String
  /-- Replaces the selection. -/
  select : List String → σ → σ
  /-- The node with an identifier. -/
  node? : String → σ → Option Node
  /-- Stores a tag and properties on the node with an identifier; `none` when there is none. -/
  setTag? : String → Tag → Props → σ → Option σ
  /-- Creates the untagged shape of a component, under a parent or at the top, and gives its
  identifier. -/
  create : Option String → Component → σ → Except SurfaceError String × σ

namespace Document

/-- Adds a new untagged shape for a component, under a parent or at the top, and gives its
identifier. The parent is looked up before the shape is made, and once more to add the shape. -/
def create (parent : Option String) (component : Component) (doc : Document) :
    Except SurfaceError String × Document :=
  match parent with
  | none =>
    let (shape, doc) := doc.newShape component
    (.ok shape.id, { doc with roots := doc.roots ++ [shape] })
  | some parent =>
    if (doc.find? parent).isNone then (.error (.nodeNotFound parent), doc)
    else
      let (shape, doc) := doc.newShape component
      match doc.update? parent (·.addChild shape) with
      | none => (.error (.nodeNotFound parent), doc)
      | some doc => (.ok shape.id, doc)

/-- A stored document as a design surface. -/
def surface : Surface Document where
  selection doc := doc.selection
  select ids doc := { doc with selection := ids }
  node? id doc := (doc.find? id).map Shape.toNode
  setTag? id tag props doc := doc.update? id (·.setTag tag props)
  create := create

end Document

end Newsletter
