/-
Sessions in which nothing is tagged by hand: insertions, selections, pings and exports, in any order
and refused or not. Main statement: the document that such a session leads to is assembled.
-/
import Newsletter.Proofs.Design.Assembly
import Newsletter.Proofs.Session.Refusals

namespace Newsletter.Session

/-- What happens in a session without tagging: the host selects, or one of the other requests is
handled. -/
inductive Move where
  | select (ids : List String)
  | insert (component : Component)
  | ping
  | exportMarkup

/-- The document after a move. -/
def Move.apply (settings : Settings) (doc : Document) : Move → Document
  | .select ids => Document.surface.select ids doc
  | .insert component => (handle Document.surface settings (.insert component) doc).2
  | .ping => (handle Document.surface settings .ping doc).2
  | .exportMarkup => (handle Document.surface settings .exportMarkup doc).2

/-- The document after a session that began with an empty one. -/
def after (settings : Settings) (moves : List Move) : Document :=
  moves.foldl (Move.apply settings) .empty

variable {component : Component} {doc : Document}

/-- A component without a parent goes to the top, any other one below the selected shape, if it has
the right tag. -/
theorem parentFor_cases {parent : Option String}
    (h : parentFor Document.surface component doc = .ok parent) :
    (parent = none ∧ component.requiredParent = none) ∨
    ∃ id target tag, parent = some id ∧ component.requiredParent = some tag ∧
      doc.selection = [id] ∧ doc.find? id = some target ∧ target.tag? = some tag := by
  unfold parentFor at h
  split at h
  · rename_i hnone
    cases h
    exact .inl ⟨rfl, hnone⟩
  · rename_i tag hsome
    split at h
    · cases h
    · rename_i id hselected
      split at h
      · rename_i htag
        cases h
        obtain ⟨node, hnode, hstored⟩ := Option.bind_eq_some_iff.1 htag
        obtain ⟨target, hfind, rfl⟩ := Option.map_eq_some_iff.1 hnode
        rw [target.tag?_toNode] at hstored
        exact .inr ⟨id, target, tag, rfl, hsome, selected_eq_ok_iff.1 hselected, hfind, hstored⟩
      · cases h

/-- An insertion keeps a document assembled, be it refused or not. -/
theorem assembled_insert (h : doc.Assembled) (component : Component) :
    (insert Document.surface component doc).2.Assembled := by
  cases hparent : parentFor Document.surface component doc with
  | error refusal =>
    unfold insert
    rw [hparent]
    exact h
  | ok parent =>
    rcases parentFor_cases hparent with
      ⟨rfl, hnone⟩ | ⟨id, target, tag, rfl, hrequired, -, hfind, htag⟩
    · obtain ⟨created, lastNumber, -, hcreate, hupdate⟩ := doc.exists_tagged_root component
      rw [insert_ok hparent hcreate hupdate]
      have hadded := h.addRoot hnone lastNumber
      exact ⟨hadded.ids, hadded.roots⟩
    · obtain ⟨created, roots, lastNumber, -, hcreate, hupdate, hroots⟩ :=
        Document.exists_tagged_below hfind component
      rw [insert_ok hparent hcreate hupdate]
      have hadded := h.addBelow hrequired hfind htag hroots lastNumber
      exact ⟨hadded.ids, hadded.roots⟩

theorem assembled_apply (settings : Settings) (h : doc.Assembled) (move : Move) :
    (move.apply settings doc).Assembled := by
  cases move with
  | select ids => exact ⟨h.ids, h.roots⟩
  | insert component =>
    rw [Move.apply, handle_state]
    exact assembled_insert h component
  | ping | exportMarkup =>
    rw [Move.apply, handle_state]
    exact h

/-- By induction on the moves, with the document they start from general. -/
theorem assembled_foldl (settings : Settings) : ∀ (moves : List Move) {doc : Document},
    doc.Assembled → (moves.foldl (Move.apply settings) doc).Assembled
  | [], _, h => h
  | move :: moves, _, h => assembled_foldl settings moves (assembled_apply settings h move)

/-- Whatever the moves were, the document they lead to is assembled. -/
theorem assembled_after (settings : Settings) (moves : List Move) :
    (after settings moves).Assembled :=
  assembled_foldl settings moves Document.assembled_empty

end Newsletter.Session
