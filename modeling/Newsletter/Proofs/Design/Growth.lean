/-
Documents that only grow. A shape grows where its slots change and where children are added after
those it has, at any depth; all else that it holds, and the place of what is below it, stays. Main
facts: growth is a preorder; a change that makes the shape found grow makes its document grow; and a
document continues another one, without repeating an identifier, whenever a shape is created in it.
-/
import Newsletter.Proofs.Design.Insertion

namespace Newsletter

/-! ## Grown shapes -/

namespace Shape

/-- All that two shapes hold, apart from their slots and their children, is the same. -/
structure SameFields (shape later : Shape) : Prop where
  id : later.id = shape.id
  name : later.name = shape.name
  kind : later.kind = shape.kind
  characters : later.characters = shape.characters
  png : later.png = shape.png

theorem SameFields.refl (shape : Shape) : SameFields shape shape := ⟨rfl, rfl, rfl, rfl, rfl⟩

theorem SameFields.trans {first second third : Shape} (h : SameFields first second)
    (h' : SameFields second third) : SameFields first third :=
  ⟨h'.id.trans h.id, h'.name.trans h.name, h'.kind.trans h.kind, h'.characters.trans h.characters,
    h'.png.trans h.png⟩

mutual

/-- A later state of a shape: other slots, and children added after the others. -/
inductive Grows : Shape → Shape → Prop
  | grow {shape later : Shape} : SameFields shape later →
      GrowsList shape.children later.children → Grows shape later

/-- A later state of a list of trees: each in its place, and then those that were added. -/
inductive GrowsList : List Shape → List Shape → Prop
  | added {shapes : List Shape} : GrowsList [] shapes
  | kept {shape later : Shape} {shapes laters : List Shape} :
      Grows shape later → GrowsList shapes laters →
        GrowsList (shape :: shapes) (later :: laters)

end

mutual

theorem Grows.refl : ∀ shape : Shape, Grows shape shape
  | { children, .. } => .grow (.refl _) (GrowsList.refl children)

theorem GrowsList.refl : ∀ shapes : List Shape, GrowsList shapes shapes
  | [] => .added
  | shape :: shapes => .kept (Grows.refl shape) (GrowsList.refl shapes)

end

mutual

theorem Grows.trans : ∀ {first second third : Shape},
    Grows first second → Grows second third → Grows first third
  | _, _, _, .grow hsame hbelow, .grow hsame' hbelow' =>
    .grow (hsame.trans hsame') (hbelow.trans hbelow')

theorem GrowsList.trans : ∀ {first second third : List Shape},
    GrowsList first second → GrowsList second third → GrowsList first third
  | _, _, _, .added, _ => .added
  | _, _, _, .kept hshape hshapes, .kept hshape' hshapes' =>
    .kept (hshape.trans hshape') (hshapes.trans hshapes')

end

theorem GrowsList.append : ∀ shapes others : List Shape, GrowsList shapes (shapes ++ others)
  | [], _ => .added
  | shape :: shapes, others => .kept (Grows.refl shape) (GrowsList.append shapes others)

/-- A child that is added grows its parent. -/
theorem grows_addChild (shape child : Shape) : Grows shape (shape.addChild child) :=
  .grow ⟨rfl, rfl, rfl, rfl, rfl⟩ (GrowsList.append shape.children [child])

/-- Slots may become any others. -/
theorem grows_slots (shape : Shape) (slots : Dict String) : Grows shape { shape with slots } :=
  .grow ⟨rfl, rfl, rfl, rfl, rfl⟩ (GrowsList.refl shape.children)

theorem Grows.sameFields {shape later : Shape} (h : Grows shape later) :
    SameFields shape later := by
  cases h with
  | grow hsame => exact hsame

mutual

/-- What is in a shape is in each of its later states, grown. -/
theorem Grows.exists_grown : ∀ {shape later inner : Shape}, Grows shape later →
    inner ∈ shape.preorder → ∃ grown ∈ later.preorder, Grows inner grown
  | { children, .. }, later@{ .. }, inner, h, hinner => by
    rw [preorder] at hinner ⊢
    rcases List.mem_cons.1 hinner with rfl | hinner
    · exact ⟨_, List.mem_cons_self, h⟩
    · cases h with
      | grow _ hbelow =>
        obtain ⟨grown, hgrown, hgrows⟩ := hbelow.exists_grown hinner
        exact ⟨grown, List.mem_cons_of_mem _ hgrown, hgrows⟩

theorem GrowsList.exists_grown : ∀ {shapes laters : List Shape} {inner : Shape},
    GrowsList shapes laters → inner ∈ preorderList shapes →
      ∃ grown ∈ preorderList laters, Grows inner grown
  | [], _, _, _, hinner => by cases hinner
  | shape :: shapes, _, inner, .kept hshape hshapes, hinner => by
    rw [preorderList] at hinner ⊢
    rcases List.mem_append.1 hinner with hinner | hinner
    · obtain ⟨grown, hgrown, hgrows⟩ := hshape.exists_grown hinner
      exact ⟨grown, List.mem_append_left _ hgrown, hgrows⟩
    · obtain ⟨grown, hgrown, hgrows⟩ := hshapes.exists_grown hinner
      exact ⟨grown, List.mem_append_right _ hgrown, hgrows⟩

end

variable {id : String} {change : Shape → Shape}

mutual

/-- A tree grows with the shape that is changed in it. -/
theorem grows_of_update? (hchange : ∀ shape, Grows shape (change shape)) :
    ∀ {shape changed : Shape}, shape.update? id change = some changed → Grows shape changed
  | { id := own, name, kind, characters, slots, children, png }, changed, h => by
    rw [update?] at h
    by_cases hown : own = id
    · rw [if_pos hown] at h
      cases h
      exact hchange _
    · rw [if_neg hown] at h
      obtain ⟨below, hbelow, rfl⟩ := Option.map_eq_some_iff.1 h
      exact .grow ⟨rfl, rfl, rfl, rfl, rfl⟩ (growsList_of_updateIn? hchange hbelow)

theorem growsList_of_updateIn? (hchange : ∀ shape, Grows shape (change shape)) :
    ∀ {shapes changed : List Shape}, updateIn? id change shapes = some changed →
      GrowsList shapes changed
  | [], _, h => by cases h
  | shape :: shapes, changed, h => by
    rw [updateIn?] at h
    -- only the first tree in which there is such a shape is changed
    cases hfirst : shape.update? id change with
    | some first =>
      rw [hfirst] at h
      cases h
      exact .kept (grows_of_update? hchange hfirst) (GrowsList.refl shapes)
    | none =>
      rw [hfirst] at h
      obtain ⟨rest, hrest, rfl⟩ := Option.map_eq_some_iff.1 h
      exact .kept (Grows.refl shape) (growsList_of_updateIn? hchange hrest)

end

end Shape

/-! ## Documents that continue others -/

namespace Document

/-- A later state of a document: no identifier is repeated, the number last used is no smaller, the
trees have grown, and all that was found is found grown under the same identifier. -/
structure Continues (doc later : Document) : Prop where
  ids : (later.shapes.map (·.id)).Nodup
  lastNumber : doc.lastNumber ≤ later.lastNumber
  roots : Shape.GrowsList doc.roots later.roots
  found : ∀ id shape, doc.find? id = some shape →
    ∃ grown, later.find? id = some grown ∧ Shape.Grows shape grown

variable {doc later : Document}

/-- As identifiers do not repeat, growing in place is all there is to it. -/
theorem continues_of_growsList (hids : (later.shapes.map (·.id)).Nodup)
    (hnumber : doc.lastNumber ≤ later.lastNumber)
    (hroots : Shape.GrowsList doc.roots later.roots) : doc.Continues later := by
  refine ⟨hids, hnumber, hroots, ?_⟩
  intro id shape hfind
  rw [find?, Shape.findIn?_eq] at hfind
  obtain ⟨grown, hgrown, hgrows⟩ := hroots.exists_grown (List.mem_of_find?_eq_some hfind)
  have hid : shape.id = id := by simpa using List.find?_some hfind
  rw [← hid, ← hgrows.sameFields.id]
  exact ⟨grown, find?_id hids hgrown, hgrows⟩

theorem Continues.refl (hids : (doc.shapes.map (·.id)).Nodup) : doc.Continues doc :=
  continues_of_growsList hids (Nat.le_refl _) (Shape.GrowsList.refl _)

theorem Continues.trans {last : Document} (h : doc.Continues later) (h' : later.Continues last) :
    doc.Continues last :=
  continues_of_growsList h'.ids (Nat.le_trans h.lastNumber h'.lastNumber) (h.roots.trans h'.roots)

theorem Continues.select (h : doc.Continues later) (ids : List String) :
    doc.Continues { later with selection := ids } :=
  ⟨h.ids, h.lastNumber, h.roots, h.found⟩

/-- A change that makes shapes grow and repeats no identifier continues the document. -/
theorem continues_update? {id : String} {change : Shape → Shape} {added : List String}
    (hgrows : ∀ shape, Shape.Grows shape (change shape))
    (hperm : ∀ shape : Shape,
      ((change shape).preorder.map (·.id)).Perm (shape.preorder.map (·.id) ++ added))
    (hids : (doc.shapes.map (·.id) ++ added).Nodup) (h : doc.update? id change = some later) :
    doc.Continues later := by
  obtain ⟨roots, hroots, rfl⟩ := Option.map_eq_some_iff.1 h
  have hall := Shape.perm_updateIn? hperm hroots
  exact continues_of_growsList (hall.nodup_iff.2 hids) (Nat.le_refl _)
    (Shape.growsList_of_updateIn? hgrows hroots)

/-- To store texts in slots continues the document. -/
theorem continues_slots {id : String} {slots : Shape → Dict String}
    (hids : (doc.shapes.map (·.id)).Nodup)
    (h : doc.update? id (fun shape => { shape with slots := slots shape }) = some later) :
    doc.Continues later := by
  have hperm : ∀ shape : Shape, (({ shape with slots := slots shape } : Shape).preorder.map
      (·.id)).Perm (shape.preorder.map (·.id) ++ []) := by
    rintro ⟨id, name, kind, characters, slots, children, png⟩
    rw [List.append_nil]
    exact List.Perm.refl _
  refine continues_update? (fun shape => shape.grows_slots _) hperm ?_ h
  rw [List.append_nil]
  exact hids

/-- Making a shape continues the document, though the shape is not yet in it. -/
theorem continues_newShape (hids : (doc.shapes.map (·.id)).Nodup) (component : Component) :
    doc.Continues (doc.newShape component).2 := by
  have hnumber := doc.lastNumber_lt_newShape component
  obtain ⟨lastNumber, hdoc⟩ := doc.newShape_doc component
  rw [hdoc] at hnumber ⊢
  exact continues_of_growsList hids (Nat.le_of_lt hnumber) (Shape.GrowsList.refl _)

/-- Creating a shape continues the document, be it refused or not. -/
theorem continues_create (hids : (doc.shapes.map (·.id)).Nodup) (parent : Option String)
    (component : Component) : doc.Continues (create parent component doc).2 := by
  have hmade := continues_newShape hids component
  -- making the shape leaves the trees alone, so its identifiers are still new to them
  have hnodup : ((doc.newShape component).2.shapes.map (·.id) ++
      (doc.newShape component).1.preorder.map (·.id)).Nodup := by
    obtain ⟨lastNumber, hdoc⟩ := doc.newShape_doc component
    rw [hdoc]
    exact (doc.fresh_newShape component).nodup_append hids
  unfold create
  cases parent with
  | none =>
    refine hmade.trans (continues_of_growsList ?_ (Nat.le_refl _) (Shape.GrowsList.append _ _))
    dsimp only
    rw [shapes, Shape.preorderList_append, Shape.preorderList, Shape.preorderList, List.append_nil,
      List.map_append]
    exact hnodup
  | some id =>
    dsimp only
    split
    · exact Continues.refl hids
    · split
      · exact hmade
      · rename_i changed hchanged
        exact hmade.trans (continues_update? (fun shape => shape.grows_addChild _)
          Shape.perm_addChild hnodup hchanged)

end Document

end Newsletter
