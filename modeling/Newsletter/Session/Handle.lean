/-
Handling of requests: every request gets one response, and a request that cannot be met is answered
by an error. What a request changes goes through the operations of the host alone.
-/
import Newsletter.Design.Surface
import Newsletter.Edition
import Newsletter.Session.Request
import Newsletter.Session.Response

namespace Newsletter.Session

open Json

/-! ## Refusals -/

/-- Why a request is not met. -/
inductive Refusal where
  /-- Not exactly one node is selected. -/
  | noSingleSelection
  /-- The selected node cannot be the parent of the component. -/
  | wrongParent (component : Component)
  /-- The host did not create the shape. -/
  | surface (error : SurfaceError)
  /-- There is no node with the identifier. -/
  | noSuchNode (id : String)
  | missingTag
  | propsNotAnObject
  /-- The selected node is no container. -/
  | notAContainer
  deriving DecidableEq, Repr

def Refusal.message : Refusal → String
  | .noSingleSelection => "Select exactly one node."
  | .wrongParent component => component.parentMessage
  | .surface error => error.message
  | .noSuchNode id => (SurfaceError.nodeNotFound id).message
  | .missingTag => "Missing nlType for tagging."
  | .propsNotAnObject => "Tag props must be a JSON object."
  | .notAContainer => "Select a Container to export."

/-! ## Requests -/

variable {σ : Type}

/-- The one selected identifier. -/
def selected (host : Surface σ) (state : σ) : Except Refusal String :=
  match host.selection state with
  | [id] => .ok id
  | _ => .error .noSingleSelection

/-- The parent of a new component: none for a container, the selected node for all others. -/
def parentFor (host : Surface σ) (component : Component) (state : σ) :
    Except Refusal (Option String) :=
  match component.requiredParent with
  | none => .ok none
  | some tag =>
    match selected host state with
    | .error refusal => .error refusal
    | .ok id =>
      if (host.node? id state).bind Node.tag? = some tag then .ok (some id)
      else .error (.wrongParent component)

/-- Inserts a component, tags it and selects it. -/
def insert (host : Surface σ) (component : Component) (state : σ) : Except Refusal Response × σ :=
  match parentFor host component state with
  | .error refusal => (.error refusal, state)
  | .ok parent =>
    match host.create parent component state with
    | (.error error, state) => (.error (.surface error), state)
    | (.ok id, state) =>
      match host.setTag? id component.tag component.defaultProps state with
      | none => (.error (.noSuchNode id), state)
      | some state => (.ok (.info component.confirmation), host.select [id] state)

/-- The properties of a tagging: an object, or none at all. -/
def Tagging.properties (tagging : Tagging) : Except Refusal Props :=
  match tagging.props with
  | none | some .null => .ok Props.empty
  | some (.object members) => .ok (Props.ofMembers members)
  | some _ => .error .propsNotAnObject

/-- What is stored on the selected node: its identifier, the text of the tag and the properties. -/
def taggingFor (host : Surface σ) (tagging : Tagging) (state : σ) :
    Except Refusal (String × String × Props) := do
  let id ← selected host state
  let text ← match tagging.tag.filter (· ≠ "") with
    | some text => .ok text
    | none => .error .missingTag
  let props ← Tagging.properties tagging
  return (id, text, props)

/-- Tags the selected node. -/
def tagSelection (host : Surface σ) (tagging : Tagging) (state : σ) :
    Except Refusal Response × σ :=
  match taggingFor host tagging state with
  | .error refusal => (.error refusal, state)
  | .ok (id, text, props) =>
    match host.setTag? id (Tag.ofText text) props state with
    | none => (.error (.noSuchNode id), state)
    | some state => (.ok (.info ("Tagged selection as " ++ text ++ ".")), state)

/-- Compiles the selected container. -/
def exportMarkup (host : Surface σ) (settings : Settings) (state : σ) :
    Except Refusal Response := do
  let id ← selected host state
  let root ← match host.node? id state with
    | some root => .ok root
    | none => .error (.noSuchNode id)
  match Edition.compile settings root with
  | .ok edition =>
    return .exportResult
      { block := edition.block, assets := edition.assets, warnings := edition.warnings }
  | .error (.notAContainer _) => .error .notAContainer

/-- The outcome of a request and the state after it. -/
def outcome (host : Surface σ) (settings : Settings) (request : Request) (state : σ) :
    Except Refusal Response × σ :=
  match request with
  | .ping => (.ok .pong, state)
  | .insert component => insert host component state
  | .tagSelection tagging => tagSelection host tagging state
  | .exportMarkup => (exportMarkup host settings state, state)

/-- The response to a request and the state after it. -/
def handle (host : Surface σ) (settings : Settings) (request : Request) (state : σ) :
    Response × σ :=
  match outcome host settings request state with
  | (.ok response, state) => (response, state)
  | (.error refusal, state) => (.error refusal.message, state)

/-- The responses to a message, one to a request and none to any other message, and the state after
it. -/
def receive (host : Surface σ) (settings : Settings) (message : Value) (state : σ) :
    List Response × σ :=
  match Request.ofMessage? message with
  | none => ([], state)
  | some request =>
    let (response, state) := handle host settings request state
    ([response], state)

end Newsletter.Session
