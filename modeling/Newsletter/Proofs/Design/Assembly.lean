/-
Documents that only insertions put together. Main facts: a new shape belongs where its component
says, and a document stays well assembled when a new shape is added at the top or below a shape
with the tag that its component asks for.
-/
import Newsletter.Proofs.Design.Insertion
import Newsletter.Proofs.Tag.Store

namespace Newsletter

/-! ## Assembled shapes -/

namespace Shape

/-- The tag stored on the shape. -/
def tag? (shape : Shape) : Option Tag := Slots.tag? shape.slots.get?

theorem tag?_toNode (shape : Shape) : shape.toNode.tag? = shape.tag? := by
  cases shape; rfl

/-- A shape that stores a component with its default properties, and no image. -/
structure Stores (component : Component) (shape : Shape) : Prop where
  slots : shape.slots = Dict.empty.setTag component.tag component.defaultProps
  png : shape.png = none

/-- A shape that stores nothing and has nothing below it. -/
structure Raw (shape : Shape) : Prop where
  slots : shape.slots = Dict.empty
  png : shape.png = none
  children : shape.children = []

/-- Shapes as insertions leave them below a parent with a tag, or at the top. Nothing can be
inserted into a button, so the children of a button are its two parts. -/
inductive Assembled : Option Tag → Shape → Prop
  | part {shape : Shape} : Raw shape → Assembled (some .button) shape
  | module {component : Component} {parent : Option Tag} {shape : Shape} :
      component.requiredParent = parent → Stores component shape →
      (component = .button → shape.children.length = 2) →
      (∀ child ∈ shape.children, Assembled (some component.tag) child) → Assembled parent shape

namespace Stores

variable {component : Component} {shape : Shape}

theorem holds (h : Stores component shape) :
    Slots.Holds shape.slots.get? component.tag component.defaultProps := by
  rw [h.slots]
  exact SlotWrite.holds_setTag _ _ _

theorem tag?_eq (h : Stores component shape) : shape.tag? = some component.tag := by
  rw [tag?, h.holds.tag?_eq]
  cases component <;> rfl

theorem props_eq (h : Stores component shape) :
    Slots.props shape.slots.get? = component.defaultProps := by
  rw [h.holds.props_eq, if_pos (by cases component <;> decide +kernel)]

theorem version?_eq (h : Stores component shape) :
    Slots.version? shape.slots.get? = some schemaVersion :=
  h.holds.version?_eq

end Stores

theorem Raw.tag?_eq {shape : Shape} (h : Raw shape) : shape.tag? = none := by
  rw [tag?, h.slots]
  rfl

/-- An assembled shape with a tag stores a component, and all below it is assembled. -/
theorem Assembled.exists_component {parent : Option Tag} {shape : Shape} (h : Assembled parent shape)
    (htag : shape.tag?.isSome) : ∃ component : Component, component.requiredParent = parent ∧
      Stores component shape ∧ (component = .button → shape.children.length = 2) ∧
      ∀ child ∈ shape.children, Assembled (some component.tag) child := by
  cases h with
  | part hraw =>
    rw [hraw.tag?_eq] at htag
    cases htag
  | module hparent hstores hparts hchildren => exact ⟨_, hparent, hstores, hparts, hchildren⟩

theorem Assembled.png {parent : Option Tag} {shape : Shape} (h : Assembled parent shape) :
    shape.png = none := by
  cases h with
  | part hraw => exact hraw.png
  | module _ hstores => exact hstores.png

mutual

/-- Every shape in an assembled one is assembled. -/
theorem Assembled.of_mem_preorder : ∀ {shape inner : Shape} {parent : Option Tag},
    Assembled parent shape → inner ∈ shape.preorder → ∃ above, Assembled above inner
  | { children, .. }, inner, parent, h, hinner => by
    rw [preorder] at hinner
    rcases List.mem_cons.1 hinner with rfl | hbelow
    · exact ⟨parent, h⟩
    · cases h with
      | part hraw =>
        cases hraw.children
        cases hbelow
      | module _ _ _ hchildren => exact Assembled.of_mem_preorderList hchildren hbelow

theorem Assembled.of_mem_preorderList : ∀ {shapes : List Shape} {inner : Shape}
    {parent : Option Tag}, (∀ shape ∈ shapes, Assembled parent shape) →
    inner ∈ preorderList shapes → ∃ above, Assembled above inner
  | [], _, _, _, hinner => by cases hinner
  | shape :: shapes, inner, parent, h, hinner => by
    obtain ⟨hshape, hshapes⟩ := List.forall_mem_cons.1 h
    rw [preorderList] at hinner
    rcases List.mem_append.1 hinner with hinner | hinner
    · exact Assembled.of_mem_preorder hshape hinner
    · exact Assembled.of_mem_preorderList hshapes hinner

end

/-! ## Adding shapes -/

theorem requiredParent_ne_button (component : Component) :
    component.requiredParent ≠ some .button := by
  cases component <;> decide

variable {id : String} {new target : Shape} {component : Component} {tag : Tag}

/-- A shape with the tag that a component asks for takes the component as a child. -/
theorem Assembled.addChild {parent : Option Tag} {shape : Shape} (h : Assembled parent shape)
    (htag : shape.tag? = component.requiredParent)
    (hnew : Assembled component.requiredParent new) (hinner : component.requiredParent = some tag) :
    Assembled parent (shape.addChild new) := by
  have hsome : shape.tag?.isSome := by
    rw [htag, hinner]
    rfl
  obtain ⟨own, hparent, hstores, -, hchildren⟩ := h.exists_component hsome
  rw [hstores.tag?_eq] at htag
  -- no component asks for a button, so the number of its parts is not at stake
  have hbutton : own ≠ .button := by
    rintro rfl
    exact requiredParent_ne_button component htag.symm
  refine .module hparent ⟨hstores.slots, hstores.png⟩ (fun h => absurd h hbutton) ?_
  intro child hchild
  rcases List.mem_append.1 hchild with hold | hadded
  · exact hchildren child hold
  · cases List.mem_singleton.1 hadded
    rw [htag]
    exact hnew

theorem length_updateIn? {change : Shape → Shape} {shapes changed : List Shape}
    (h : updateIn? id change shapes = some changed) : changed.length = shapes.length := by
  induction shapes generalizing changed with
  | nil => cases h
  | cons shape shapes ih =>
    rw [updateIn?] at h
    split at h
    · cases h
      rfl
    · obtain ⟨inner, hinner, rfl⟩ := Option.map_eq_some_iff.1 h
      rw [List.length_cons, List.length_cons, ih hinner]

mutual

theorem Assembled.of_update? (htag : target.tag? = component.requiredParent)
    (hnew : Assembled component.requiredParent new) (hinner : component.requiredParent = some tag) :
    ∀ {shape changed : Shape} {parent : Option Tag}, Assembled parent shape →
      shape.find? id = some target → shape.update? id (·.addChild new) = some changed →
        Assembled parent changed
  | { id := own, name, kind, characters, slots, children, png }, changed, parent, h, hfind, hupdate => by
    rw [find?] at hfind
    rw [update?] at hupdate
    by_cases hown : own = id
    · rw [if_pos hown] at hfind hupdate
      cases hfind
      cases hupdate
      exact h.addChild htag hnew hinner
    · rw [if_neg hown] at hfind hupdate
      obtain ⟨below, hbelow, rfl⟩ := Option.map_eq_some_iff.1 hupdate
      cases h with
      | part hraw =>
        cases hraw.children
        cases hfind
      | module hparent hstores hparts hchildren =>
        refine .module hparent ⟨hstores.slots, hstores.png⟩ (fun hbutton => ?_)
          (Assembled.of_updateIn? htag hnew hinner hchildren hfind hbelow)
        exact (length_updateIn? hbelow).trans (hparts hbutton)

theorem Assembled.of_updateIn? (htag : target.tag? = component.requiredParent)
    (hnew : Assembled component.requiredParent new) (hinner : component.requiredParent = some tag) :
    ∀ {shapes changed : List Shape} {parent : Option Tag},
      (∀ shape ∈ shapes, Assembled parent shape) → findIn? id shapes = some target →
      updateIn? id (·.addChild new) shapes = some changed →
        ∀ shape ∈ changed, Assembled parent shape
  | [], _, _, _, hfind, _ => by cases hfind
  | shape :: shapes, changed, parent, h, hfind, hupdate => by
    obtain ⟨hshape, hshapes⟩ := List.forall_mem_cons.1 h
    rw [findIn?] at hfind
    rw [updateIn?] at hupdate
    cases hfirst : shape.find? id with
    | some found =>
      rw [hfirst, Option.some_or] at hfind
      cases hfind
      obtain ⟨first, hupdated, -⟩ := exists_update? (·.addChild new) hfirst
      rw [hupdated] at hupdate
      cases hupdate
      exact List.forall_mem_cons.2
        ⟨Assembled.of_update? htag hnew hinner hshape hfirst hupdated, hshapes⟩
    | none =>
      rw [hfirst, Option.none_or] at hfind
      rw [update?_eq_none _ hfirst] at hupdate
      obtain ⟨inner, hrest, rfl⟩ := Option.map_eq_some_iff.1 hupdate
      exact List.forall_mem_cons.2
        ⟨hshape, Assembled.of_updateIn? htag hnew hinner hshapes hfind hrest⟩

end

end Shape

/-! ## Assembled documents -/

namespace Document

theorem stores_tagged (doc : Document) (component : Component) :
    Shape.Stores component (doc.tagged component) := by
  cases component <;> exact ⟨rfl, rfl⟩

/-- A new shape is assembled where its component belongs. -/
theorem assembled_tagged (doc : Document) (component : Component) :
    Shape.Assembled component.requiredParent (doc.tagged component) := by
  cases component with
  | button =>
    refine .module rfl (doc.stores_tagged .button) (fun _ => rfl) ?_
    intro child hchild
    rcases List.mem_cons.1 hchild with rfl | hchild
    · exact .part ⟨rfl, rfl, rfl⟩
    · cases List.mem_singleton.1 hchild
      exact .part ⟨rfl, rfl, rfl⟩
  | container | row | column | text | image | divider | spacer =>
    exact .module rfl (doc.stores_tagged _) nofun nofun

/-- A document put together by insertions: containers at the top, and no identifier twice. -/
structure Assembled (doc : Document) : Prop where
  ids : (doc.shapes.map (·.id)).Nodup
  roots : ∀ root ∈ doc.roots, Shape.Assembled none root

theorem assembled_empty : empty.Assembled := ⟨List.nodup_nil, nofun⟩

namespace Assembled

variable {doc : Document}

/-- A shape is found under its identifier. -/
theorem find?_id (h : doc.Assembled) {shape : Shape} (hshape : shape ∈ doc.shapes) :
    doc.find? shape.id = some shape :=
  Document.find?_id h.ids hshape

theorem addRoot (h : doc.Assembled) {component : Component} (hnone : component.requiredParent = none)
    (lastNumber : Nat) :
    Assembled { doc with roots := doc.roots ++ [doc.tagged component], lastNumber } := by
  constructor
  · rw [shapes, Shape.preorderList_append, Shape.preorderList, Shape.preorderList, List.append_nil,
      List.map_append]
    exact (doc.fresh_tagged component).nodup_append h.ids
  · intro root hroot
    rcases List.mem_append.1 hroot with hold | hadded
    · exact h.roots root hold
    · cases List.mem_singleton.1 hadded
      exact hnone ▸ doc.assembled_tagged component

theorem addBelow (h : doc.Assembled) {component : Component} {tag : Tag} {parent : String}
    {target : Shape} (hparent : component.requiredParent = some tag)
    (hfind : doc.find? parent = some target) (htag : target.tag? = some tag) {roots : List Shape}
    (hroots : Shape.updateIn? parent (·.addChild (doc.tagged component)) doc.roots = some roots)
    (lastNumber : Nat) : Assembled { doc with roots, lastNumber } := by
  constructor
  · exact (Shape.perm_updateIn? Shape.perm_addChild hroots).nodup_iff.2
      ((doc.fresh_tagged component).nodup_append h.ids)
  · exact Shape.Assembled.of_updateIn? (htag.trans hparent.symm) (doc.assembled_tagged component)
      hparent h.roots hfind hroots

end Assembled

end Document

end Newsletter
