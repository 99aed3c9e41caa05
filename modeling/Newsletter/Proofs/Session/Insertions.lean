/-
Insertions and what they change. Main statement: an insertion is confirmed exactly if there is a
place for the component, behind the roots or behind the children of the first shape with the
selected identifier; then the new shape stands at that place with identifiers of its own, it is
selected, and at every other place stands what stood there.
-/
import Newsletter.Proofs.Design.Places
import Newsletter.Proofs.Session.Moves

namespace Newsletter.Session

/-! ## Places for components -/

/-- Where a component goes: behind the roots if it needs no parent, and else behind the children of
the first shape with the one selected identifier, if that shape has the tag it asks for. -/
inductive GoesTo (doc : Document) (component : Component) : TreePlace → Prop
  | top : component.requiredParent = none → GoesTo doc component [doc.roots.length]
  | below {tag : Tag} {id : String} {place : TreePlace} {parent : Shape} :
      component.requiredParent = some tag → doc.selection = [id] →
      Shape.First doc.at? id place parent → parent.tag? = some tag →
        GoesTo doc component (place ++ [parent.children.length])

variable {doc : Document} {component : Component} {place : TreePlace}

/-- Nothing is there yet. -/
theorem GoesTo.free (h : GoesTo doc component place) : doc.at? place = none := by
  cases h with
  | top => exact Shape.atIn?_of_length_le (Nat.le_refl _) []
  | below _ _ hfirst =>
    exact (Shape.atIn?_append hfirst.found _).trans (Shape.atIn?_of_length_le (Nat.le_refl _) [])

/-- A component that is given a parent, or none, has a place. -/
theorem exists_goesTo {parent : Option String}
    (h : parentFor Document.surface component doc = .ok parent) :
    ∃ place, GoesTo doc component place := by
  rcases parentFor_cases h with ⟨-, hnone⟩ | ⟨id, target, tag, -, hrequired, hselection, hfind, htag⟩
  · exact ⟨_, .top hnone⟩
  · obtain ⟨place, hfirst⟩ := Document.find?_eq_some_iff.1 hfind
    exact ⟨_, .below hrequired hselection hfirst htag⟩

/-! ## New shapes -/

/-- The shape of a component that is new to a document: no identifier in it is repeated or was there
before, it stores the component with its default properties, and its parts are untagged. -/
structure NewFor (doc : Document) (component : Component) (new : Shape) : Prop where
  ids : (new.preorder.map (·.id)).Nodup
  absent : ∀ inner ∈ new.preorder, ∀ shape ∈ doc.shapes, shape.id ≠ inner.id
  tag : new.tag? = some component.tag
  props : Slots.props new.slots.get? = component.defaultProps
  version : Slots.version? new.slots.get? = some "0.1"
  parts : ∀ part ∈ Shape.preorderList new.children, part.tag? = none
  composed : new.children ≠ [] ↔ component = .button

theorem newFor_tagged (doc : Document) (component : Component) :
    NewFor doc component (doc.tagged component) := by
  have hfresh := doc.fresh_tagged component
  have hstores := doc.stores_tagged component
  refine ⟨hfresh.nodup, ?_, hstores.tag?_eq, hstores.props_eq, hstores.version?_eq, ?_, ?_⟩
  · intro inner hinner shape hshape hid
    have hnone := hfresh.absent inner.id (List.mem_map.2 ⟨inner, hinner, rfl⟩)
    have hsome := Document.isSome_find?.2 ⟨shape, hshape, hid⟩
    rw [hnone] at hsome
    cases hsome
  · intro part hpart
    cases component with
    | button =>
      have hraw : part.slots = Dict.empty := by
        rcases List.mem_cons.1 hpart with rfl | hpart
        · rfl
        · cases List.mem_singleton.1 hpart
          rfl
      rw [Shape.tag?, hraw]
      rfl
    | container | row | column | text | image | divider | spacer => cases hpart
  · cases component <;> simp [Document.tagged, Document.newShape, Shape.setTag, Shape.addChild,
      Shape.plain, Shape.ofText]

/-! ## What an insertion changes -/

/-- A component was inserted at a place: its new shape stands there and is selected, its identifiers
are counted as used, and whatever was in the document is unchanged in its place. -/
structure InsertedAt (component : Component) (place : TreePlace) (doc later : Document) : Prop where
  free : doc.at? place = none
  lastNumber : doc.lastNumber < later.lastNumber
  shape : ∃ new, NewFor doc component new ∧ later.selection = [new.id] ∧
    Shape.Replaced doc.at? later.at? place new

theorem insert_of_goesTo (h : GoesTo doc component place) :
    ∃ later, insert Document.surface component doc =
      (.ok (.info component.confirmation), later) ∧ InsertedAt component place doc later := by
  have hfree := h.free
  have hnew := newFor_tagged doc component
  cases h with
  | top hnone =>
    have hparent : parentFor Document.surface component doc = .ok none := by
      unfold parentFor
      rw [hnone]
    obtain ⟨created, lastNumber, hnumber, hcreate, hupdate⟩ := doc.exists_tagged_root component
    exact ⟨_, insert_ok hparent hcreate hupdate, hfree, hnumber, _, hnew, rfl,
      Shape.replaced_concat doc.roots _⟩
  | @below tag id above parent hrequired hselection hfirst htag =>
    have hfind := Document.find?_eq_some_iff.2 ⟨above, hfirst⟩
    have hselected : selected Document.surface doc = .ok id := selected_eq_ok_iff.2 hselection
    have hnode : (Document.surface.node? id doc).bind Node.tag? = some tag := by
      show ((doc.find? id).map Shape.toNode).bind Node.tag? = some tag
      rw [hfind, Option.map_some, Option.bind_some, parent.tag?_toNode, htag]
    have hparent : parentFor Document.surface component doc = .ok (some id) := by
      unfold parentFor
      simp only [hrequired, hselected, hnode, if_true]
    obtain ⟨created, roots, lastNumber, hnumber, hcreate, hupdate, hroots⟩ :=
      Document.exists_tagged_below hfind component
    obtain ⟨i, other, target, -, htarget, hreplaced⟩ := Shape.exists_first_updateIn? hroots
    obtain ⟨rfl, rfl⟩ := hfirst.unique htarget
    exact ⟨_, insert_ok hparent hcreate hupdate, hfree, hnumber, _, hnew, rfl,
      hreplaced.of_addChild (Shape.atIn?_append hfirst.found)⟩

/-- An insertion is confirmed exactly if there is a place for the component, and then the component
is at this place and nothing else has changed; identifiers may repeat in the document. -/
theorem handle_insert (settings : Settings) (doc : Document) (component : Component) :
    ((∃ info, (handle Document.surface settings (.insert component) doc).1 = .info info) ↔
      ∃ place, GoesTo doc component place) ∧
    ∀ place, GoesTo doc component place →
      InsertedAt component place doc (handle Document.surface settings (.insert component) doc).2 := by
  have hgoes : ∀ {place}, GoesTo doc component place → ∃ later,
      handle Document.surface settings (.insert component) doc =
        (.info component.confirmation, later) ∧ InsertedAt component place doc later := by
    intro place h
    obtain ⟨later, hinsert, hinserted⟩ := insert_of_goesTo h
    have houtcome : outcome Document.surface settings (.insert component) doc = _ := hinsert
    exact ⟨later, handle_ok houtcome, hinserted⟩
  refine ⟨⟨?_, ?_⟩, ?_⟩
  · rintro ⟨info, hinfo⟩
    have hinsert : insert Document.surface component doc = _ := outcome_of_info (Prod.ext hinfo rfl)
    rcases insert_cases Document.surface component doc with
      ⟨refusal, -, hrefused⟩ | ⟨parent, hparent, -⟩
    · cases hrefused.symm.trans hinsert
    · exact exists_goesTo hparent
  · rintro ⟨place, h⟩
    obtain ⟨later, hhandle, -⟩ := hgoes h
    rw [hhandle]
    exact ⟨_, rfl⟩
  · intro place h
    obtain ⟨later, hhandle, hinserted⟩ := hgoes h
    rw [hhandle]
    exact hinserted

/-- A container with a child. -/
def outer : Shape :=
  ((Shape.plain "twin" "Outer" .board).setTag .container Component.container.defaultProps).addChild
    (.plain "node-1" "Inner" .group)

/-- The container, behind it a shape with the same identifier, and this selected. -/
def repeated : Document :=
  { roots := [outer, .plain "twin" "Other" .board], selection := ["twin"], lastNumber := 0 }

theorem handle_insert_repeated : GoesTo repeated .row [0, 1] ∧ ∃ info later,
    handle Document.surface .standard (.insert .row) repeated = (.info info, later) ∧
      InsertedAt .row [0, 1] repeated later := by
  have hfirst : Shape.First repeated.at? "twin" [0] outer := by
    refine ⟨rfl, rfl, fun other hlt inner hinner => ?_⟩
    cases other with
    | nil => cases hinner
    | cons j other =>
      rcases List.cons_lt_cons_iff.1 hlt with hj | ⟨-, hnil⟩
      · cases hj
      · exact absurd hnil (List.not_lt_nil _)
  have hstores : Shape.Stores .container outer := ⟨rfl, rfl⟩
  have hplace : GoesTo repeated .row [0, 1] := .below rfl rfl hfirst hstores.tag?_eq
  obtain ⟨hconfirmed, hinserted⟩ := handle_insert .standard repeated .row
  obtain ⟨info, hinfo⟩ := hconfirmed.2 ⟨_, hplace⟩
  exact ⟨hplace, info, _, Prod.ext hinfo rfl, hinserted _ hplace⟩

end Newsletter.Session
