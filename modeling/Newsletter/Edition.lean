/-
Editions: compiled newsletters. Only a root that is no container is refused; every other anomaly is
a finding of the edition.
-/
import Newsletter.Block.Draft
import Newsletter.Block.Extraction
import Newsletter.Block.Markup
import Newsletter.Settings

namespace Newsletter

open Json

/-- A compiled newsletter. -/
structure Edition where
  block : Block
  markup : String
  assets : List Asset
  diagnostics : List Diagnostic

/-- Why a tree could not be compiled. -/
inductive CompileError where
  /-- The root, with the identifier given, is no container. -/
  | notAContainer (id : String)
  deriving DecidableEq, Repr

def CompileError.message : CompileError → String
  | .notAContainer id => "Root node " ++ id ++ " is not tagged as a container"

namespace Edition

/-- The findings as sentences. -/
def warnings (e : Edition) : List String := e.diagnostics.map (·.message)

/-! ## Compiling -/

/-- The exports that settings ask for. -/
def job (settings : Settings) : ExportJob :=
  { request := .png settings.exportScale, directory := settings.assetsDir }

/-- The extraction from the draft of a container. -/
def extraction (settings : Settings) (root : Node) : Extraction Block :=
  let draft := root.draft .container
  (job settings).extract draft.sources 0 draft.value

/-- Compiles the tree below a container. -/
def compile (settings : Settings) (root : Node) : Except CompileError Edition :=
  if root.tag? = some .container then
    let extraction := extraction settings root
    .ok
      { block := extraction.value
        markup := extraction.value.render
        assets := extraction.assets
        diagnostics := (root.draft .container).diagnostics ++ extraction.diagnostics }
  else .error (.notAContainer root.id)

/-! ## Editions as JSON -/

def toTree (e : Edition) : Tree :=
  .record [("ast", e.block.toTree), ("markup", .text e.markup),
    ("assets", .array (e.assets.map Asset.toTree)),
    ("diagnostics", .array (e.diagnostics.map Diagnostic.toTree))]

def decoder : Decoder Edition :=
  Decoder.record ["ast", "markup", "assets", "diagnostics"] fun fields levels => do
    let block ← fields.required levels "ast" Block.decoder
    let markup ← fields.required levels "markup" Decoder.string
    let assets ← fields.required levels "assets" (Decoder.list Asset.decoder)
    let diagnostics ← fields.required levels "diagnostics" (Decoder.list Diagnostic.decoder)
    return { block, markup, assets, diagnostics }

end Edition

end Newsletter
