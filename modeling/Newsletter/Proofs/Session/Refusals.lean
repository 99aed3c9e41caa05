/-
Refused requests. Main statement: a request that is answered by an error leaves the state of the
host exactly as it was, for every stored document, and for every host that does not create what it
was asked for. In a stored document nothing can go wrong any more once a component has a parent.
-/
import Newsletter.Proofs.Design.Lookup
import Newsletter.Session.Handle

namespace Newsletter

/-- A host that creates nothing in a state: creating leaves the state as it is, and an identifier
that is given all the same names no node. -/
def Surface.CreatesNothing {σ : Type} (host : Surface σ) (state : σ) : Prop :=
  ∀ parent component, (host.create parent component state).2 = state ∧
    ∀ id, (host.create parent component state).1 = .ok id →
      ∀ tag props, host.setTag? id tag props state = none

namespace Session

variable {σ : Type} {host : Surface σ}

/-! ## Outcomes -/

theorem handle_ok {settings : Settings} {request : Request} {state after : σ} {response : Response}
    (h : outcome host settings request state = (.ok response, after)) :
    handle host settings request state = (response, after) := by
  unfold handle
  rw [h]

theorem handle_error {settings : Settings} {request : Request} {state after : σ} {refusal : Refusal}
    (h : outcome host settings request state = (.error refusal, after)) :
    handle host settings request state = (.error refusal.message, after) := by
  unfold handle
  rw [h]

/-- Only a request that is met is answered by a confirmation. -/
theorem outcome_of_info {settings : Settings} {request : Request} {state after : σ} {text : String}
    (h : handle host settings request state = (.info text, after)) :
    outcome host settings request state = (.ok (.info text), after) := by
  rcases houtcome : outcome host settings request state with ⟨refusal | response, later⟩
  · cases (handle_error houtcome).symm.trans h
  · cases (handle_ok houtcome).symm.trans h
    rfl

theorem handle_state (host : Surface σ) (settings : Settings) (request : Request) (state : σ) :
    (handle host settings request state).2 = (outcome host settings request state).2 := by
  unfold handle
  split <;> rename_i houtcome <;> rw [houtcome]

/-- A request that is refused at once, or else confirmed, changes nothing where its answer is an
error. -/
theorem state_of_error {settings : Settings} {request : Request} {state : σ} {text : String}
    (h : (∃ refusal, outcome host settings request state = (.error refusal, state)) ∨
      ∃ text after, outcome host settings request state = (.ok (.info text), after))
    (hanswer : (handle host settings request state).1 = .error text) :
    (handle host settings request state).2 = state := by
  rcases h with ⟨refusal, hrefused⟩ | ⟨message, after, hmet⟩
  · rw [handle_error hrefused]
  · rw [handle_ok hmet] at hanswer; cases hanswer

theorem selected_eq_ok_iff {state : σ} {id : String} :
    selected host state = .ok id ↔ host.selection state = [id] := by
  unfold selected
  rcases host.selection state with _ | ⟨one, _ | ⟨two, others⟩⟩ <;> simp

/-- What an insertion does: it finds no parent; or the host creates nothing; or there is no node to
tag; or all is well. Only in the first case does the host do nothing at all. -/
theorem insert_cases (host : Surface σ) (component : Component) (state : σ) :
    (∃ refusal, parentFor host component state = .error refusal ∧
      insert host component state = (.error refusal, state)) ∨
    ∃ parent, parentFor host component state = .ok parent ∧
      ((∃ error after, host.create parent component state = (.error error, after) ∧
        insert host component state = (.error (.surface error), after)) ∨
      (∃ id after, host.create parent component state = (.ok id, after) ∧
        host.setTag? id component.tag component.defaultProps after = none ∧
        insert host component state = (.error (.noSuchNode id), after)) ∨
      ∃ id after tagged, host.create parent component state = (.ok id, after) ∧
        host.setTag? id component.tag component.defaultProps after = some tagged ∧
        insert host component state =
          (.ok (.info component.confirmation), host.select [id] tagged)) := by
  unfold insert
  cases hparent : parentFor host component state with
  | error refusal => exact .inl ⟨refusal, rfl, rfl⟩
  | ok parent =>
    refine .inr ⟨parent, rfl, ?_⟩
    rcases hcreate : host.create parent component state with ⟨error | id, after⟩
    · exact .inl ⟨error, after, rfl, by simp only [hcreate]⟩
    · cases htag : host.setTag? id component.tag component.defaultProps after with
      | none => exact .inr (.inl ⟨id, after, rfl, htag, by simp only [hcreate, htag]⟩)
      | some tagged => exact .inr (.inr ⟨id, after, tagged, rfl, htag, by simp only [hcreate, htag]⟩)

theorem insert_ok {component : Component} {state created tagged : σ} {parent : Option String}
    {id : String} (hparent : parentFor host component state = .ok parent)
    (hcreate : host.create parent component state = (.ok id, created))
    (htag : host.setTag? id component.tag component.defaultProps created = some tagged) :
    insert host component state =
      (.ok (.info component.confirmation), host.select [id] tagged) := by
  unfold insert
  simp only [hparent, hcreate, htag]

/-- A tagging is refused and stores nothing, or it is confirmed. -/
theorem tagSelection_cases (host : Surface σ) (tagging : Tagging) (state : σ) :
    (∃ refusal, tagSelection host tagging state = (.error refusal, state)) ∨
    ∃ text after, tagSelection host tagging state = (.ok (.info text), after) := by
  unfold tagSelection
  rcases taggingFor host tagging state with refusal | ⟨id, text, props⟩
  · exact .inl ⟨refusal, rfl⟩
  · cases htag : host.setTag? id (Tag.ofText text) props state with
    | none => exact .inl ⟨.noSuchNode id, by simp only [htag]⟩
    | some tagged => exact .inr ⟨"Tagged selection as " ++ text ++ ".", tagged, by simp only [htag]⟩

/-- A state is left alone by all requests that are refused or only read. -/
structure Unharmed (host : Surface σ) (settings : Settings) (state : σ) : Prop where
  single : ∀ message request, Request.ofMessage? message = some request →
    ∃ response after, receive host settings message state = ([response], after) ∧
      handle host settings request state = (response, after)
  refused : ∀ request text, (handle host settings request state).1 = .error text →
    (handle host settings request state).2 = state
  reading : ∀ request, request = .ping ∨ request = .exportMarkup →
    (handle host settings request state).2 = state

/-- Only an insertion could be refused too late. -/
theorem unharmed_of_insert (settings : Settings) {state : σ}
    (h : ∀ component, (∃ refusal, insert host component state = (.error refusal, state)) ∨
      ∃ text after, insert host component state = (.ok (.info text), after)) :
    Unharmed host settings state := by
  have hreading : ∀ request, request = .ping ∨ request = .exportMarkup →
      (handle host settings request state).2 = state := by
    rintro request (rfl | rfl)
    · rfl
    · unfold handle outcome
      cases exportMarkup host settings state <;> rfl
  refine ⟨fun message request hrequest => ?_, fun request text hanswer => ?_, hreading⟩
  · unfold receive
    rw [hrequest]
    exact ⟨_, _, rfl, rfl⟩
  · cases request with
    | ping => exact hreading _ (.inl rfl)
    | exportMarkup => exact hreading _ (.inr rfl)
    | insert component => exact state_of_error (h component) hanswer
    | tagSelection tagging => exact state_of_error (tagSelection_cases host tagging state) hanswer

/-! ## Stored documents -/

/-- A parent that was chosen in a document is found in it. -/
theorem find?_of_parentFor {component : Component} {doc : Document} {id : String}
    (h : parentFor Document.surface component doc = .ok (some id)) : doc.find? id ≠ none := by
  unfold parentFor at h
  split at h
  · cases h
  · split at h
    · cases h
    · split at h
      · rename_i htag
        cases h
        intro hnone
        have hnode : Document.surface.node? id doc = none := congrArg (Option.map Shape.toNode) hnone
        rw [hnode] at htag
        cases htag
      · cases h

/-- Once a component has a parent, its shape is created, found again and tagged. -/
theorem exists_tagged {component : Component} {doc : Document} {parent : Option String}
    (h : parentFor Document.surface component doc = .ok parent) :
    ∃ id created tagged, Document.create parent component doc = (.ok id, created) ∧
      Document.surface.setTag? id component.tag component.defaultProps created = some tagged := by
  rcases Document.create_cases parent component doc with
    ⟨id, rfl, hnone, -⟩ | ⟨created, hcreate, hmem⟩
  · exact absurd hnone (find?_of_parentFor h)
  · -- the shape may not be the first one with its identifier, but there is a first one
    have hfound := Document.isSome_find?.2 ⟨_, hmem, rfl⟩
    obtain ⟨target, htarget⟩ := Option.isSome_iff_exists.1 hfound
    obtain ⟨tagged, htagged, -⟩ :=
      Document.exists_update? (·.setTag component.tag component.defaultProps) htarget
    exact ⟨_, created, tagged, hcreate, htagged⟩

theorem insert_document (component : Component) (doc : Document) :
    (∃ refusal, insert Document.surface component doc = (.error refusal, doc)) ∨
    ∃ text after, insert Document.surface component doc = (.ok (.info text), after) := by
  rcases insert_cases Document.surface component doc with
    ⟨refusal, -, hinsert⟩ | ⟨parent, hparent, hcases⟩
  · exact .inl ⟨refusal, hinsert⟩
  · obtain ⟨id, created, tagged, hcreate, htag⟩ := exists_tagged hparent
    rcases hcases with ⟨error, after, h, -⟩ | ⟨other, after, h, hnone, -⟩ | ⟨_, _, _, -, -, h⟩
    · cases hcreate.symm.trans h
    · cases hcreate.symm.trans h
      rw [htag] at hnone; cases hnone
    · exact .inr ⟨_, _, h⟩

/-! ## Other hosts -/

/-- Where nothing is created, inserting is refused and changes nothing. -/
theorem insert_createsNothing {state : σ} (h : host.CreatesNothing state) (component : Component) :
    ∃ refusal, insert host component state = (.error refusal, state) := by
  rcases insert_cases host component state with
    ⟨refusal, -, hinsert⟩ | ⟨parent, -, hcases⟩
  · exact ⟨refusal, hinsert⟩
  · obtain ⟨hsame, hnone⟩ := h parent component
    rcases hcases with ⟨error, after, hcreate, hinsert⟩ | ⟨id, after, hcreate, -, hinsert⟩ |
      ⟨id, after, tagged, hcreate, htag, -⟩
    · rw [hcreate] at hsame
      cases hsame
      exact ⟨_, hinsert⟩
    · rw [hcreate] at hsame
      cases hsame
      exact ⟨_, hinsert⟩
    · rw [hcreate] at hsame hnone
      cases hsame
      rw [hnone id rfl] at htag; cases htag

/-- A refused request leaves a stored document as it was, and inserting does not fail once there is
a parent; a host that creates nothing is left as it was too, and refuses every insertion. -/
theorem handle_unharmed (settings : Settings) :
    (∀ doc : Document, Unharmed Document.surface settings doc ∧
      ∀ component parent, parentFor Document.surface component doc = .ok parent →
        ∃ id created tagged, Document.create parent component doc = (.ok id, created) ∧
          Document.surface.setTag? id component.tag component.defaultProps created = some tagged) ∧
    ∀ (σ : Type) (host : Surface σ) (state : σ), host.CreatesNothing state →
      Unharmed host settings state ∧ ∀ component, ∃ text,
        handle host settings (.insert component) state = (.error text, state) := by
  refine ⟨fun doc => ⟨unharmed_of_insert settings fun component => insert_document component doc,
    fun component parent => exists_tagged⟩, fun σ host state h => ⟨?_, fun component => ?_⟩⟩
  · exact unharmed_of_insert settings fun component => .inl (insert_createsNothing h component)
  · obtain ⟨refusal, hinsert⟩ := insert_createsNothing h component
    exact ⟨refusal.message, handle_error hinsert⟩

/-- A document that says it created a shape and never does. -/
def forgetful : Surface Document :=
  { Document.surface with create := fun _ _ doc => (.ok "node-0", doc) }

theorem handle_unharmed_forgetful :
    forgetful.CreatesNothing .empty ∧ Unharmed forgetful .standard .empty ∧
      ∃ text, handle forgetful .standard (.insert .container) .empty = (.error text, .empty) := by
  have hnothing : forgetful.CreatesNothing .empty :=
    fun parent component => ⟨rfl, fun id _ tag props => rfl⟩
  obtain ⟨hunharmed, hinsert⟩ := (handle_unharmed .standard).2 _ forgetful .empty hnothing
  exact ⟨hnothing, hunharmed, hinsert .container⟩

end Session

end Newsletter
