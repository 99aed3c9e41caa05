/-
Extraction of assets: every image of a tree of blocks is exported from the node it was built from.
Images are numbered in the order of the blocks; a failed export uses up its number, so the names of
the others do not depend on it. The calls made are kept beside the result, in order.
-/
import Newsletter.Block
import Newsletter.Design.Node
import Newsletter.Diagnostic

namespace Newsletter

/-! ## Extractions -/

/-- One export that was asked for, and what came of it. -/
structure ExportCall where
  node : Node
  request : ExportRequest
  result : Except ExportError Bytes

/-- Blocks after their images were exported. -/
structure Extraction (α : Type) where
  value : α
  assets : List Asset
  diagnostics : List Diagnostic
  /-- The exports asked for, in order. -/
  calls : List ExportCall

namespace Extraction

variable {α : Type}

/-- Nothing to export. -/
def done (value : α) : Extraction α := { value, assets := [], diagnostics := [], calls := [] }

/-- An extraction followed by another one. -/
def andThen {β γ : Type} (first : Extraction α) (second : Extraction β) (join : α → β → γ) :
    Extraction γ :=
  { value := join first.value second.value
    assets := first.assets ++ second.assets
    diagnostics := first.diagnostics ++ second.diagnostics
    calls := first.calls ++ second.calls }

end Extraction

/-- What an extraction asks for, and where its assets go. -/
structure ExportJob where
  request : ExportRequest
  directory : String

namespace ExportJob

/-- Full size images in the directory `assets`. -/
def standard : ExportJob := { request := .png .one, directory := "assets" }

/-! ## One image -/

/-- Asks a node for its image. -/
def ask (job : ExportJob) (source : Option Node) : Except ExportError Bytes × List ExportCall :=
  match source with
  | none => (.error .unsupported, [])
  | some node =>
    match node.exporter with
    | none => (.error .unsupported, [])
    | some run =>
      let result := run job.request
      (result, [{ node, request := job.request, result }])

/-- The node that stands at the place of a block, if it is the block's own. -/
def sourceOf (sources : List Node) (block : Block) : Option Node :=
  sources.head?.filter (·.id = block.id)

/-- Exports one block, itself without its children, as the image at a position counted from one. -/
def extractImage (job : ExportJob) (source : Option Node) (position : Nat) (block : Block) :
    Extraction Block :=
  let (result, calls) := job.ask source
  match result with
  | .error _ =>
    { value := block, assets := [], diagnostics := [.notExported block.id block.name], calls }
  | .ok bytes =>
    let name := Asset.imageName position
    { value :=
        { block with props := block.props.setText "src" (Asset.reference job.directory name) }
      assets := [{ name, bytes, mediaType := job.request.format.mediaType }]
      diagnostics := []
      calls }

/-- Exports a block, if it is an image, without its children. -/
def extractOne (job : ExportJob) (sources : List Node) (images : Nat) (block : Block) :
    Extraction Block :=
  if block.tag = .image then job.extractImage (sourceOf sources block) (images + 1) block
  else .done block

/-! ## Trees -/

mutual

/-- Exports the images of a tree. `sources` are the nodes from the tree's place on, `images` the
number of images before it. -/
def extract (job : ExportJob) (sources : List Node) (images : Nat) : Block → Extraction Block
  | block@{ children, .. } =>
    let first := job.extractOne sources images block
    let own := if block.tag = .image then 1 else 0
    first.andThen (job.extractList (sources.drop 1) (images + own) children)
      fun block children => { block with children }
termination_by structural block => block

/-- Exports the images of a list of trees, one after the other. -/
def extractList (job : ExportJob) (sources : List Node) (images : Nat) :
    List Block → Extraction (List Block)
  | [] => .done []
  | block :: blocks =>
    (job.extract sources images block).andThen
      (job.extractList (sources.drop block.size) (images + block.imageCount) blocks) List.cons
termination_by structural blocks => blocks

end

end ExportJob

end Newsletter
