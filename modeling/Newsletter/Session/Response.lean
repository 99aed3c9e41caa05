/-
Responses: what the interactive layer is answered. A response is written as an object with a `type`
and, unless it is empty, a `payload`.
-/
import Newsletter.Block
import Newsletter.Export

namespace Newsletter

open Json

/-! ## Exported newsletters -/

/-- A newsletter as it is sent to the interactive layer. -/
structure ExportPayload where
  block : Block
  assets : List Asset
  warnings : List String

namespace ExportPayload

def toTree (p : ExportPayload) : Tree :=
  .record [("ast", p.block.toTree), ("assets", .array (p.assets.map Asset.toTree)),
    ("warnings", .array (p.warnings.map .text))]

def decoder : Decoder ExportPayload :=
  Decoder.record ["ast", "assets", "warnings"] fun fields levels => do
    let block ← fields.required levels "ast" Block.decoder
    let assets ← fields.required levels "assets" (Decoder.list Asset.decoder)
    let warnings ← fields.required levels "warnings" (Decoder.list Decoder.string)
    return { block, assets, warnings }

end ExportPayload

/-! ## Responses -/

/-- An answer to a request. -/
inductive Response where
  | info (message : String)
  | error (message : String)
  | pong
  | exportResult (payload : ExportPayload)

namespace Response

/-- The types of responses. -/
inductive Kind where
  | info
  | error
  | pong
  | exportResult
  deriving DecidableEq, Repr

namespace Kind

def toText : Kind → String
  | .info => "INFO"
  | .error => "ERROR"
  | .pong => "PONG"
  | .exportResult => "EXPORT_RESULT"

def ofText? (text : String) : Option Kind :=
  [info, error, pong, exportResult].find? (·.toText = text)

end Kind

/-! ## Writing -/

/-- A type with a payload. -/
def envelope (kind : Kind) (payload : Tree) : Tree :=
  .record [("type", .text kind.toText), ("payload", payload)]

/-- The payload of a message. -/
def messageTree (message : String) : Tree := .record [("message", .text message)]

def toTree : Response → Tree
  | .info message => envelope .info (messageTree message)
  | .error message => envelope .error (messageTree message)
  | .pong => .record [("type", .text Kind.pong.toText)]
  | .exportResult payload => envelope .exportResult payload.toTree

/-! ## Reading -/

/-- The payload of a message is an object; here an array does not do. -/
def messageDecoder : Decoder String
  | levels, .object members =>
    Decoder.record ["message"] (fun fields levels => fields.required levels "message" Decoder.string)
      levels (.object members)
  | _, _ => none

/-- Reads the payload of a response of a type; an empty response may have the payload `null`. -/
def payload? (kind : Kind) (levels : Nat) (payload : Option Tree) : Option Response :=
  match kind with
  | .info => (payload.bind (messageDecoder levels)).map .info
  | .error => (payload.bind (messageDecoder levels)).map .error
  | .pong =>
    match payload with
    | none | some .null => some .pong
    | some _ => none
  | .exportResult => (payload.bind (ExportPayload.decoder levels)).map .exportResult

/-- A payload in front of its type has to be kept until the type is known, so all of it, unknown
members included, must be a value. -/
def isKept (levels : Nat) (members : List (Option String × Tree)) : Bool :=
  match members.find? fun m => m.1 = some "type" || m.1 = some "payload" with
  | some (some "payload", payload) => (Value.ofTree? levels payload).isSome
  | _ => true

/-- Reads a response: an object with its members in any order, or an array of type and payload, in
which the type must be a text. -/
def decoder : Decoder Response
  | 0, _ => none
  | levels + 1, .object members => do
    let fields ← Fields.ofMembers? ["type", "payload"] members
    let kind ← fields.required levels "type" (Decoder.word Kind.ofText?)
    if isKept levels members then payload? kind levels (fields.lookup "payload") else none
  | levels + 1, .array [kind, payload] => do
    let kind ← (← Decoder.string levels kind) |> Kind.ofText?
    payload? kind levels (some payload)
  | _, _ => none

end Response

end Newsletter
