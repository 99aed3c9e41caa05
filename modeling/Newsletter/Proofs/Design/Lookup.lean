/-
Looking up and changing shapes by identifier. Main facts: both mean the first shape with the
identifier in pre-order, so one succeeds exactly where the other does; and a shape that was created
in a document is found in it, even where its identifier repeats.
-/
import Newsletter.Design.Surface
import Mathlib.Data.List.Nodup

namespace Newsletter

/-! ## Shapes -/

namespace Shape

mutual

/-- The shape found is the first one in pre-order. -/
theorem find?_eq (id : String) : ∀ shape : Shape,
    shape.find? id = shape.preorder.find? (·.id = id)
  | { id := own, name, kind, characters, slots, children, png } => by
    rw [find?, preorder, List.find?_cons, findIn?_eq id children]
    by_cases h : own = id
    · simp [h]
    · simp [h]

theorem findIn?_eq (id : String) : ∀ shapes : List Shape,
    findIn? id shapes = (preorderList shapes).find? (·.id = id)
  | [] => rfl
  | shape :: shapes => by
    rw [findIn?, preorderList, List.find?_append, find?_eq id shape, findIn?_eq id shapes]

end

theorem isSome_findIn? {id : String} {shapes : List Shape} :
    (findIn? id shapes).isSome ↔ ∃ shape ∈ preorderList shapes, shape.id = id := by
  rw [findIn?_eq, List.find?_isSome]
  simp only [decide_eq_true_eq]

mutual

/-- What is not found is not changed. -/
theorem update?_eq_none {id : String} (change : Shape → Shape) : ∀ {shape : Shape},
    shape.find? id = none → shape.update? id change = none
  | { id := own, name, kind, characters, slots, children, png }, h => by
    rw [find?] at h
    rw [update?]
    by_cases hid : own = id
    · rw [if_pos hid] at h; cases h
    · rw [if_neg hid] at h ⊢
      rw [updateIn?_eq_none change h]; rfl

theorem updateIn?_eq_none {id : String} (change : Shape → Shape) : ∀ {shapes : List Shape},
    findIn? id shapes = none → updateIn? id change shapes = none
  | [], _ => rfl
  | shape :: shapes, h => by
    rw [findIn?, Option.or_eq_none_iff] at h
    rw [updateIn?, update?_eq_none change h.1, updateIn?_eq_none change h.2]; rfl

end

mutual

/-- What is found is changed, and all of it is among the shapes then. -/
theorem exists_update? {id : String} (change : Shape → Shape) : ∀ {shape target : Shape},
    shape.find? id = some target → ∃ changed, shape.update? id change = some changed ∧
      ∀ inner ∈ (change target).preorder, inner ∈ changed.preorder
  | { id := own, name, kind, characters, slots, children, png }, target, h => by
    rw [find?] at h
    rw [update?]
    by_cases hid : own = id
    · rw [if_pos hid] at h ⊢
      cases h
      exact ⟨_, rfl, fun inner hinner => hinner⟩
    · rw [if_neg hid] at h ⊢
      obtain ⟨changed, hchanged, hmem⟩ := exists_updateIn? change h
      refine ⟨{ id := own, name, kind, characters, slots, children := changed, png }, ?_, ?_⟩
      · rw [hchanged]; rfl
      · intro inner hinner
        rw [preorder]
        exact List.mem_cons_of_mem _ (hmem inner hinner)

theorem exists_updateIn? {id : String} (change : Shape → Shape) : ∀ {shapes : List Shape}
    {target : Shape}, findIn? id shapes = some target →
    ∃ changed, updateIn? id change shapes = some changed ∧
      ∀ inner ∈ (change target).preorder, inner ∈ preorderList changed
  | [], _, h => by cases h
  | shape :: shapes, target, h => by
    rw [findIn?] at h
    rw [updateIn?]
    cases hfirst : shape.find? id with
    | some found =>
      rw [hfirst, Option.some_or] at h
      cases h
      obtain ⟨changed, hchanged, hmem⟩ := exists_update? change hfirst
      rw [hchanged]
      refine ⟨changed :: shapes, rfl, fun inner hinner => ?_⟩
      rw [preorderList]
      exact List.mem_append_left _ (hmem inner hinner)
    | none =>
      rw [hfirst, Option.none_or] at h
      obtain ⟨changed, hchanged, hmem⟩ := exists_updateIn? change h
      rw [update?_eq_none change hfirst, hchanged]
      refine ⟨shape :: changed, rfl, fun inner hinner => ?_⟩
      rw [preorderList]
      exact List.mem_append_right _ (hmem inner hinner)

end

/-- What is changed is what is found. -/
theorem update?_eq_none_iff {id : String} {change : Shape → Shape} {shape : Shape} :
    shape.update? id change = none ↔ shape.find? id = none := by
  refine ⟨fun h => ?_, update?_eq_none change⟩
  cases hfind : shape.find? id with
  | none => rfl
  | some target =>
    obtain ⟨changed, hchanged, -⟩ := exists_update? change hfind
    cases h.symm.trans hchanged

theorem updateIn?_eq_none_iff {id : String} {change : Shape → Shape} {shapes : List Shape} :
    updateIn? id change shapes = none ↔ findIn? id shapes = none := by
  refine ⟨fun h => ?_, updateIn?_eq_none change⟩
  cases hfind : findIn? id shapes with
  | none => rfl
  | some target =>
    obtain ⟨changed, hchanged, -⟩ := exists_updateIn? change hfind
    cases h.symm.trans hchanged

theorem preorderList_append (first second : List Shape) :
    preorderList (first ++ second) = preorderList first ++ preorderList second := by
  induction first with
  | nil => rfl
  | cons shape shapes ih => rw [List.cons_append, preorderList, preorderList, ih, List.append_assoc]

theorem mem_preorder_self (shape : Shape) : shape ∈ shape.preorder := by
  cases shape; rw [preorder]; exact List.mem_cons_self

/-- An added child is below the shape. -/
theorem mem_preorder_addChild (shape child : Shape) : child ∈ (shape.addChild child).preorder := by
  unfold addChild
  rw [preorder, preorderList_append]
  refine List.mem_cons_of_mem _ (List.mem_append_right _ ?_)
  rw [preorderList]
  exact List.mem_append_left _ child.mem_preorder_self

end Shape

/-! ## Documents -/

namespace Document

theorem isSome_find? {doc : Document} {id : String} :
    (doc.find? id).isSome ↔ ∃ shape ∈ doc.shapes, shape.id = id :=
  Shape.isSome_findIn?

/-- In a document that repeats no identifier, every shape is found under its own. -/
theorem find?_id {doc : Document} (hids : (doc.shapes.map (·.id)).Nodup) {shape : Shape}
    (hshape : shape ∈ doc.shapes) : doc.find? shape.id = some shape := by
  have hsome := isSome_find?.2 ⟨shape, hshape, rfl⟩
  obtain ⟨found, hfound⟩ := Option.isSome_iff_exists.1 hsome
  rw [find?, Shape.findIn?_eq] at hfound
  have hmem : found ∈ doc.shapes := List.mem_of_find?_eq_some hfound
  have hid : found.id = shape.id := by simpa using List.find?_some hfound
  rw [find?, Shape.findIn?_eq, hfound, List.inj_on_of_nodup_map hids hmem hshape hid]

/-- A shape that is found can be changed, and all of the changed shape is in the document then. -/
theorem exists_update? {doc : Document} {id : String} {target : Shape} (change : Shape → Shape)
    (h : doc.find? id = some target) : ∃ changed, doc.update? id change = some changed ∧
      ∀ inner ∈ (change target).preorder, inner ∈ changed.shapes := by
  obtain ⟨roots, hroots, hmem⟩ := Shape.exists_updateIn? change h
  refine ⟨{ doc with roots }, ?_, hmem⟩
  rw [update?, hroots, Option.map_some]

/-- Making a shape only counts identifiers as used. -/
theorem newShape_doc (doc : Document) (component : Component) :
    ∃ lastNumber, (doc.newShape component).2 = { doc with lastNumber } := by
  cases component <;> exact ⟨_, rfl⟩

/-- What creating does: it fails where the parent is missing, and then changes nothing; and else the
new shape is in the document. -/
theorem create_cases (parent : Option String) (component : Component) (doc : Document) :
    (∃ id, parent = some id ∧ doc.find? id = none ∧
      create parent component doc = (.error (.nodeNotFound id), doc)) ∨
    ∃ created, create parent component doc = (.ok (doc.newShape component).1.id, created) ∧
      (doc.newShape component).1 ∈ created.shapes := by
  obtain ⟨lastNumber, hdoc⟩ := doc.newShape_doc component
  unfold create
  cases parent with
  | none =>
    refine .inr ⟨_, rfl, ?_⟩
    rw [shapes, Shape.preorderList_append, Shape.preorderList]
    exact List.mem_append_right _ (List.mem_append_left _ (Shape.mem_preorder_self _))
  | some id =>
    cases hfind : doc.find? id with
    | none => exact .inl ⟨id, rfl, hfind, by simp only [hfind, Option.isNone_none, if_true]⟩
    | some target =>
      -- making the shape leaves the trees alone, so the parent is found once more
      have hagain : (doc.newShape component).2.find? id = some target := by
        rw [hdoc]; exact hfind
      obtain ⟨changed, hchanged, hmem⟩ :=
        exists_update? (·.addChild (doc.newShape component).1) hagain
      refine .inr ⟨changed, ?_, hmem _ (target.mem_preorder_addChild _)⟩
      simp only [hfind, Option.isNone_some, Bool.false_eq_true, if_false, hchanged]

end Document

end Newsletter
