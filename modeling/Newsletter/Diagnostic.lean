/-
Findings about a design that do not stop its compilation. Each names the node concerned and reads
as one sentence.
-/
import Newsletter.Json.Decoder
import Newsletter.Tag

namespace Newsletter

open Json

/-! ## Kinds -/

/-- What a finding is about. -/
inductive DiagnosticKind where
  /-- A tagged child that its parent does not accept. -/
  | unsupportedChild
  /-- A row without any column. -/
  | missingColumns
  /-- An untagged child of a column. -/
  | untaggedChild
  /-- An image that could not be exported. -/
  | exportFailed
  deriving DecidableEq, Repr

namespace DiagnosticKind

def toText : DiagnosticKind → String
  | .unsupportedChild => "unsupported_child"
  | .missingColumns => "missing_columns"
  | .untaggedChild => "untagged_child"
  | .exportFailed => "export_failed"

def ofText? (text : String) : Option DiagnosticKind :=
  [unsupportedChild, missingColumns, untaggedChild, exportFailed].find? (·.toText = text)

end DiagnosticKind

/-! ## Diagnostics -/

/-- One finding. -/
structure Diagnostic where
  kind : DiagnosticKind
  message : String
  /-- The identifier of the node concerned. -/
  nodeId : Option String
  deriving DecidableEq, Repr

namespace Diagnostic

/-- A tagged child, with its identifier, that a container or a row does not accept. -/
def unsupportedIn (parent : Tag) (id : String) (tag : Tag) : Diagnostic :=
  { kind := .unsupportedChild, nodeId := some id,
    message := "Unsupported child type in " ++ parent.toText ++ ": " ++ tag.toText ++ "." }

/-- A tagged child of a column that is no leaf module. -/
def unsupportedInColumn (id : String) (tag : Tag) : Diagnostic :=
  { kind := .unsupportedChild, nodeId := some id,
    message := "Unsupported tagged type ignored: " ++ tag.toText ++ "." }

/-- An untagged child of a column, with its identifier and its name. -/
def untagged (id name : String) : Diagnostic :=
  { kind := .untaggedChild, nodeId := some id,
    message := "Untagged child ignored in column: " ++ name ++ "." }

/-- A row, with its identifier and its name, that has no columns. -/
def noColumns (id name : String) : Diagnostic :=
  { kind := .missingColumns, nodeId := some id,
    message := "Section \"" ++ name ++ "\" has no columns." }

/-- An image, with its identifier and its name, that could not be exported. -/
def notExported (id name : String) : Diagnostic :=
  { kind := .exportFailed, nodeId := some id,
    message := "Could not export image for node " ++ name ++ "." }

/-- The identifier is left out when there is none. -/
def toTree (d : Diagnostic) : Tree :=
  .record ([("kind", .text d.kind.toText), ("message", .text d.message)] ++
    match d.nodeId with
    | none => []
    | some id => [("nodeId", .text id)])

def decoder : Decoder Diagnostic :=
  Decoder.record ["kind", "message", "nodeId"] fun fields levels => do
    let kind ← fields.required levels "kind" (Decoder.word DiagnosticKind.ofText?)
    let message ← fields.required levels "message" Decoder.string
    let nodeId ← fields.optional levels "nodeId" Decoder.string
    return { kind, message, nodeId }

end Diagnostic

end Newsletter
