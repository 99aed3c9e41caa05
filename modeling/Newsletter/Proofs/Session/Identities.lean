/-
Sessions that mix requests with what the host does by itself: it selects, it creates shapes below
any parent or none, and it writes slots. Main statement: whatever the steps were, a document that
repeats no identifier is continued by every later one, in which all that was there is found again
under its identifier and in its place; and a confirmed insertion selects the one new shape.
-/
import Newsletter.Proofs.Design.Growth
import Newsletter.Proofs.Session.Refusals

namespace Newsletter.Session

/-! ## Steps -/

/-- What can happen to the document of a session. -/
inductive Step where
  | request (settings : Settings) (sent : Request)
  | select (ids : List String)
  | create (parent : Option String) (component : Component)
  | writeSlot (id slot text : String)

/-- The document after a step; what fails changes nothing. -/
def Step.apply (doc : Document) : Step → Document
  | .request settings sent => (handle Document.surface settings sent doc).2
  | .select ids => Document.surface.select ids doc
  | .create parent component => (Document.surface.create parent component doc).2
  | .writeSlot id slot text => (doc.update? id (·.setSlot slot text)).getD doc

/-- The document after some steps. -/
def run (steps : List Step) (doc : Document) : Document := steps.foldl Step.apply doc

/-! ## What a step keeps -/

variable {doc : Document}

theorem continues_setTag? {id : String} {tag : Tag} {props : Props} {later : Document}
    (hids : (doc.shapes.map (·.id)).Nodup)
    (h : Document.surface.setTag? id tag props doc = some later) : doc.Continues later :=
  Document.continues_slots hids h

/-- What was done for an insertion that is confirmed. -/
theorem exists_created {σ : Type} {host : Surface σ} {component : Component} {state after : σ}
    {response : Response} (h : insert host component state = (.ok response, after)) :
    ∃ parent id created tagged, host.create parent component state = (.ok id, created) ∧
      host.setTag? id component.tag component.defaultProps created = some tagged ∧
      after = host.select [id] tagged := by
  rcases insert_cases host component state with
    ⟨_, -, hinsert⟩ | ⟨parent, -, ⟨_, _, -, hinsert⟩ | ⟨_, _, -, -, hinsert⟩ |
      ⟨id, created, tagged, hcreate, htag, hinsert⟩⟩
  · cases hinsert.symm.trans h
  · cases hinsert.symm.trans h
  · cases hinsert.symm.trans h
  · cases hinsert.symm.trans h
    exact ⟨parent, id, created, tagged, hcreate, htag, rfl⟩

/-- An insertion continues the document, be it refused or not. -/
theorem continues_insert (hids : (doc.shapes.map (·.id)).Nodup) (component : Component) :
    doc.Continues (insert Document.surface component doc).2 := by
  rcases insert_document component doc with ⟨refusal, hinsert⟩ | ⟨text, after, hinsert⟩
  · rw [hinsert]
    exact Document.Continues.refl hids
  · obtain ⟨parent, id, created, tagged, hcreate, htag, rfl⟩ := exists_created hinsert
    have hcreated : doc.Continues (Document.surface.create parent component doc).2 :=
      Document.continues_create hids parent component
    rw [hcreate] at hcreated
    rw [hinsert]
    exact (hcreated.trans (continues_setTag? hcreated.ids htag)).select [id]

/-- A tagging continues the document, be it refused or not. -/
theorem continues_tagSelection (hids : (doc.shapes.map (·.id)).Nodup) (tagging : Tagging) :
    doc.Continues (tagSelection Document.surface tagging doc).2 := by
  unfold tagSelection
  split
  · exact Document.Continues.refl hids
  · split
    · exact Document.Continues.refl hids
    · rename_i htag
      exact continues_setTag? hids htag

theorem continues_handle (hids : (doc.shapes.map (·.id)).Nodup) (settings : Settings)
    (request : Request) :
    doc.Continues (handle Document.surface settings request doc).2 := by
  rw [handle_state]
  cases request with
  | ping => exact Document.Continues.refl hids
  | insert component => exact continues_insert hids component
  | tagSelection tagging => exact continues_tagSelection hids tagging
  | exportMarkup => exact Document.Continues.refl hids

theorem continues_apply (hids : (doc.shapes.map (·.id)).Nodup) (step : Step) :
    doc.Continues (step.apply doc) := by
  cases step with
  | request settings sent => exact continues_handle hids settings sent
  | select ids => exact Document.Continues.select (Document.Continues.refl hids) ids
  | create parent component => exact Document.continues_create hids parent component
  | writeSlot id slot text =>
    rw [Step.apply]
    cases hwritten : doc.update? id (·.setSlot slot text) with
    | none => exact Document.Continues.refl hids
    | some written => exact Document.continues_slots hids hwritten

/-- By induction on the steps, with the document they start from general. -/
theorem continues_run : ∀ (steps : List Step) {doc : Document},
    (doc.shapes.map (·.id)).Nodup → doc.Continues (run steps doc)
  | [], _, hids => Document.Continues.refl hids
  | step :: steps, _, hids =>
    have hstep := continues_apply hids step
    hstep.trans (continues_run steps hstep.ids)

/-! ## What an insertion creates -/

/-- A component was inserted: its new shape, tagged, is selected; nothing had the identifier of the
shape before, and nothing else has it. -/
structure Inserted (component : Component) (before after : Document) : Prop where
  selection : after.selection = [(before.tagged component).id]
  absent : before.find? (before.tagged component).id = none
  found : after.find? (before.tagged component).id = some (before.tagged component)
  once : (after.shapes.map (·.id)).count (before.tagged component).id = 1

theorem inserted_of_insert (hids : (doc.shapes.map (·.id)).Nodup) {component : Component}
    {response : Response} {after : Document}
    (h : insert Document.surface component doc = (.ok response, after)) :
    Inserted component doc after := by
  have hcontinues := continues_insert hids component
  rw [h] at hcontinues
  obtain ⟨parent, id, created, tagged, hcreate, htag, rfl⟩ := exists_created h
  have hcreated := Document.continues_create hids parent component
  rcases Document.create_cases parent component doc with ⟨_, -, -, hmissing⟩ | ⟨_, hnew, hmem⟩
  · cases hmissing.symm.trans hcreate
  · cases hnew.symm.trans hcreate
    rw [hnew] at hcreated
    -- identifiers do not repeat, so what was tagged is the new shape and no other
    have hfound := Document.find?_id hcreated.ids hmem
    obtain ⟨_, htagged, hparts⟩ :=
      Document.exists_update? (·.setTag component.tag component.defaultProps) hfound
    cases htagged.symm.trans htag
    have hshape : doc.tagged component ∈ tagged.shapes := hparts _ (Shape.mem_preorder_self _)
    exact ⟨rfl, doc.find?_newShape component, Document.find?_id hcontinues.ids hshape,
      List.count_eq_one_of_mem hcontinues.ids (List.mem_map.2 ⟨_, hshape, rfl⟩)⟩

/-! ## Sessions -/

/-- However a session goes on, its document continues every earlier one, and a confirmed insertion
selects the one shape it has created. -/
theorem continues_session (hids : (doc.shapes.map (·.id)).Nodup) (earlier later : List Step) :
    (run earlier doc).Continues (run (earlier ++ later) doc) ∧
      ∀ settings component text after,
        handle Document.surface settings (.insert component) (run earlier doc) =
          (.info text, after) → Inserted component (run earlier doc) after := by
  have hearlier := (continues_run earlier hids).ids
  constructor
  · rw [run, run, List.foldl_append]
    exact continues_run later hearlier
  · intro settings component text after h
    exact inserted_of_insert hearlier (outcome_of_info h)

/-- A document with a shape under an identifier as they are given to new ones. -/
def imported : Document :=
  { Document.empty with roots := [.plain "node-1" "Existing" .board] }

/-- Steps of each kind; one creation asks for a parent that is not there. -/
def importedSteps : List Step :=
  [.create none .container, .create (some "node-1") .button, .create (some "ghost") .column,
    .select ["node-1"], .request .standard (.tagSelection { tag := some "section", props := none }),
    .writeSlot "node-4" "nl:type" "text", .request .standard (.insert .column)]

theorem continues_session_imported :
    (imported.shapes.map (·.id)).Nodup ∧
      imported.Continues (run importedSteps imported) ∧
      ∃ after, handle Document.surface .standard (.insert .container)
          (run importedSteps imported) = (.info Component.container.confirmation, after) ∧
        Inserted .container (run importedSteps imported) after := by
  have hids : (imported.shapes.map (·.id)).Nodup := by decide +kernel
  have hcontinues := (continues_session hids [] importedSteps).1
  have hinserted := (continues_session hids importedSteps []).2 .standard .container
  have hparent : parentFor Document.surface .container (run importedSteps imported) = .ok none := rfl
  obtain ⟨id, created, tagged, hcreate, htag⟩ := exists_tagged hparent
  have houtcome : outcome Document.surface .standard (.insert .container)
      (run importedSteps imported) = _ := insert_ok hparent hcreate htag
  exact ⟨hids, hcontinues, _, handle_ok houtcome, hinserted _ _ (handle_ok houtcome)⟩

end Newsletter.Session
