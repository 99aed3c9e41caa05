/-
Design documents: trees of stored shapes, a selection of identifiers, and the number last used for a
new identifier. A new identifier has the least free number above the last one used.
-/
import Newsletter.Design.Component
import Newsletter.Design.Shape

namespace Newsletter

open Json

/-- A design document. -/
structure Document where
  roots : List Shape
  selection : List String
  /-- The number last used for an identifier. -/
  lastNumber : Nat

namespace Document

def empty : Document := { roots := [], selection := [], lastNumber := 0 }

instance : Inhabited Document := ⟨empty⟩

/-! ## Looking up -/

/-- All shapes of the document, each before its children. -/
def shapes (doc : Document) : List Shape := Shape.preorderList doc.roots

/-- The first shape with an identifier. -/
def find? (doc : Document) (id : String) : Option Shape := Shape.findIn? id doc.roots

/-- Changes the first shape with an identifier; `none` when there is none. -/
def update? (doc : Document) (id : String) (change : Shape → Shape) : Option Document :=
  (Shape.updateIn? id change doc.roots).map fun roots => { doc with roots }

/-! ## New identifiers -/

/-- The identifier with a number. -/
def nodeId (n : Nat) : String := "node-" ++ String.ofList (Digits.chars (Digits.ofNat n))

/-- The first number from `n` on that is not taken, among as many as `tries` numbers, or else the
number after them. -/
def firstFree (taken : Nat → Bool) : Nat → Nat → Nat
  | 0, n => n
  | tries + 1, n => if taken n then firstFree taken tries (n + 1) else n

/-- The least free number above the last one used. A document of `k` shapes takes at most `k`
numbers, so one of the next `k + 1` is free. -/
def nextNumber (doc : Document) : Nat :=
  firstFree (fun n => (doc.find? (nodeId n)).isSome) doc.shapes.length (doc.lastNumber + 1)

/-- A new identifier, and the document that counts it as used. -/
def allocate (doc : Document) : String × Document :=
  let n := doc.nextNumber
  (nodeId n, { doc with lastNumber := n })

/-! ## New shapes -/

/-- The untagged shape of a new component, and the document that counts its identifiers as used.
A button consists of a background and a label. -/
def newShape (doc : Document) (component : Component) : Shape × Document :=
  let (id, doc) := doc.allocate
  let name := component.displayName
  match component with
  | .container => (.plain id name .board, doc)
  | .row | .column => (.plain id name .group, doc)
  | .text => (.ofText id name "Newsletter text", doc)
  | .button =>
    let (backgroundId, doc) := doc.allocate
    let (labelId, doc) := doc.allocate
    let background := Shape.plain backgroundId "Button Background" .rectangle
    let label := Shape.ofText labelId "Button Label" "Button"
    (((Shape.plain id name .group).addChild background).addChild label, doc)
  | .image | .divider | .spacer => (.plain id name .rectangle, doc)

/-! ## Documents as JSON -/

def toTree (doc : Document) : Tree :=
  .record [("roots", .array (Shape.toTrees doc.roots)),
    ("selection", .array (doc.selection.map .text)), ("nextId", .nat doc.lastNumber)]

def decoder : Decoder Document :=
  Decoder.record ["roots", "selection", "nextId"] fun fields levels => do
    let roots ← fields.withDefault levels "roots" (Decoder.list Shape.decoder) []
    let selection ← fields.withDefault levels "selection" (Decoder.list Decoder.string) []
    let lastNumber ← fields.withDefault levels "nextId" Decoder.nat64 0
    return { roots, selection, lastNumber }

end Document

end Newsletter
