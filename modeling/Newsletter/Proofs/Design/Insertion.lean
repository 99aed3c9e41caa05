/-
New shapes in a document. Main facts: the identifiers of a new shape are its own, as no shape of the
document has them and no two of its parts share one; and to change a shape that was just added below
another one is to add it changed.
-/
import Newsletter.Proofs.Design.Lookup
import Mathlib.Data.List.Perm.Subperm

namespace Newsletter

/-! ## New identifiers -/

namespace Document

theorem nodeId_injective {n m : Nat} (h : nodeId n = nodeId m) : n = m := by
  unfold nodeId at h
  have hchars : Digits.chars (Digits.ofNat n) = Digits.chars (Digits.ofNat m) := by
    simpa using congrArg String.toList h
  rw [← Digits.toNat_ofNat n, Digits.chars_injective hchars, Digits.toNat_ofNat]

theorem le_firstFree (taken : Nat → Bool) : ∀ tries n : Nat, n ≤ firstFree taken tries n
  | 0, n => Nat.le_refl n
  | tries + 1, n => by
    rw [firstFree]
    split
    · have := le_firstFree taken tries (n + 1)
      omega
    · exact Nat.le_refl n

theorem firstFree_le (taken : Nat → Bool) : ∀ tries n : Nat, firstFree taken tries n ≤ n + tries
  | 0, n => Nat.le_refl n
  | tries + 1, n => by
    rw [firstFree]
    split
    · have := firstFree_le taken tries (n + 1)
      omega
    · omega

/-- All numbers before the one that is found are taken. -/
theorem taken_of_lt_firstFree (taken : Nat → Bool) : ∀ (tries n : Nat) {k : Nat}, n ≤ k →
    k < firstFree taken tries n → taken k = true
  | 0, n, k, hle, hlt => by
    rw [firstFree] at hlt
    omega
  | tries + 1, n, k, hle, hlt => by
    rw [firstFree] at hlt
    split at hlt
    · rename_i hn
      rcases Nat.eq_or_lt_of_le hle with rfl | hlt'
      · exact hn
      · exact taken_of_lt_firstFree taken tries (n + 1) hlt' hlt
    · omega

/-- The number that is found is free, or no number is left to try. -/
theorem firstFree_cases (taken : Nat → Bool) : ∀ tries n : Nat,
    taken (firstFree taken tries n) = false ∨ firstFree taken tries n = n + tries
  | 0, n => Or.inr rfl
  | tries + 1, n => by
    rw [firstFree]
    split
    · rcases firstFree_cases taken tries (n + 1) with hfree | hlast
      · exact Or.inl hfree
      · exact Or.inr (by omega)
    · rename_i hn
      exact Or.inl (by simpa using hn)

theorem lastNumber_lt (doc : Document) : doc.lastNumber < doc.nextNumber :=
  le_firstFree _ _ _

/-- Shapes have the identifiers of all numbers that are passed. -/
theorem isSome_find?_of_lt_nextNumber (doc : Document) {k : Nat} (hle : doc.lastNumber + 1 ≤ k)
    (hlt : k < doc.nextNumber) : (doc.find? (nodeId k)).isSome :=
  taken_of_lt_firstFree (fun n => (doc.find? (nodeId n)).isSome) _ _ hle hlt

theorem lastNumber_lt_newShape (doc : Document) (component : Component) :
    doc.lastNumber < (doc.newShape component).2.lastNumber := by
  have hfirst := doc.lastNumber_lt
  cases component with
  | button =>
    have hsecond : doc.nextNumber < doc.allocate.2.nextNumber := doc.allocate.2.lastNumber_lt
    have hthird : doc.allocate.2.nextNumber < doc.allocate.2.allocate.2.nextNumber :=
      doc.allocate.2.allocate.2.lastNumber_lt
    show doc.lastNumber < doc.allocate.2.allocate.2.nextNumber
    omega
  | container | row | column | text | image | divider | spacer => exact hfirst

/-- A document has fewer shapes than numbers are tried, so the next number is free. -/
theorem find?_nextNumber (doc : Document) : doc.find? (nodeId doc.nextNumber) = none := by
  by_contra hfound
  rw [← ne_eq, ← Option.isSome_iff_ne_none] at hfound
  -- if the last number tried is taken too, then so are more numbers than there are shapes
  rcases firstFree_cases (fun n => (doc.find? (nodeId n)).isSome) doc.shapes.length
    (doc.lastNumber + 1) with hfree | hlast
  · rw [nextNumber] at hfound
    rw [hfound] at hfree
    cases hfree
  · have htaken : ∀ k, doc.lastNumber + 1 ≤ k → k < doc.lastNumber + 1 + (doc.shapes.length + 1) →
        (doc.find? (nodeId k)).isSome := by
      intro k hle hlt
      by_cases hk : k = doc.nextNumber
      · rw [hk]
        exact hfound
      · refine doc.isSome_find?_of_lt_nextNumber hle ?_
        rw [nextNumber] at hk ⊢
        omega
    have hnodup : ((List.range' (doc.lastNumber + 1) (doc.shapes.length + 1)).map nodeId).Nodup :=
      (List.nodup_range' 1).map fun n m => nodeId_injective
    have hsubset : (List.range' (doc.lastNumber + 1) (doc.shapes.length + 1)).map nodeId ⊆
        doc.shapes.map (·.id) := by
      intro id hid
      obtain ⟨k, hk, rfl⟩ := List.mem_map.1 hid
      obtain ⟨hle, hlt⟩ := List.mem_range'_1.1 hk
      obtain ⟨shape, hshape, hid⟩ := isSome_find?.1 (htaken k hle hlt)
      exact List.mem_map.2 ⟨shape, hshape, hid⟩
    have hlength := (hnodup.subperm hsubset).length_le
    rw [List.length_map, List.length_map, List.length_range'] at hlength
    omega

/-- The identifiers of a shape are its own: no two of its parts share one, and none is found in the
document. -/
structure Fresh (doc : Document) (shape : Shape) : Prop where
  nodup : (shape.preorder.map (·.id)).Nodup
  absent : ∀ id ∈ shape.preorder.map (·.id), doc.find? id = none

/-- New identifiers beside those of a document repeat none. -/
theorem Fresh.nodup_append {doc : Document} {new : Shape} (hnew : doc.Fresh new)
    (hids : (doc.shapes.map (·.id)).Nodup) :
    (doc.shapes.map (·.id) ++ new.preorder.map (·.id)).Nodup := by
  refine List.nodup_append.2 ⟨hids, hnew.nodup, ?_⟩
  rintro id hold other hadded rfl
  obtain ⟨shape, hshape, hid⟩ := List.mem_map.1 hold
  have hfound := isSome_find?.2 ⟨shape, hshape, hid⟩
  rw [hnew.absent id hadded] at hfound
  cases hfound

theorem fresh_newShape (doc : Document) (component : Component) :
    doc.Fresh (doc.newShape component).1 := by
  have hone := doc.find?_nextNumber
  have hsingle : ∀ shape : Shape, shape.id = nodeId doc.nextNumber → shape.children = [] →
      doc.Fresh shape := by
    rintro ⟨id, name, kind, characters, slots, children, png⟩ rfl rfl
    refine ⟨List.nodup_singleton _, fun id hid => ?_⟩
    rw [List.mem_singleton.1 hid]
    exact hone
  cases component with
  | button =>
    -- the numbers of the three parts grow, and the trees stay the same all the while
    have hsecond := doc.allocate.2.find?_nextNumber
    have hthird := doc.allocate.2.allocate.2.find?_nextNumber
    have hlt : doc.nextNumber < doc.allocate.2.nextNumber := doc.allocate.2.lastNumber_lt
    have hlt' : doc.allocate.2.nextNumber < doc.allocate.2.allocate.2.nextNumber :=
      doc.allocate.2.allocate.2.lastNumber_lt
    have hids : (doc.newShape .button).1.preorder.map (·.id) =
        [doc.nextNumber, doc.allocate.2.nextNumber, doc.allocate.2.allocate.2.nextNumber].map
          nodeId := rfl
    constructor
    · rw [hids]
      refine List.Nodup.map (fun n m => nodeId_injective) ?_
      simp only [List.nodup_cons, List.mem_cons, List.not_mem_nil, or_false, not_false_iff,
        List.nodup_nil, and_true]
      omega
    · intro id hid
      rw [hids] at hid
      simp only [List.map_cons, List.map_nil, List.mem_cons, List.not_mem_nil, or_false] at hid
      rcases hid with rfl | rfl | rfl
      · exact hone
      · exact hsecond
      · exact hthird
  | container | row | column | text | image | divider | spacer => exact hsingle _ rfl rfl

end Document

/-! ## Added shapes -/

namespace Shape

variable {parent : String} {new : Shape}

theorem isSome_update? (id : String) (change : Shape → Shape) (shape : Shape) :
    (shape.update? id change).isSome = (shape.find? id).isSome := by
  cases hfind : shape.find? id with
  | none => rw [update?_eq_none change hfind]
  | some target =>
    obtain ⟨changed, hchanged, -⟩ := exists_update? change hfind
    rw [hchanged]
    rfl

theorem updateIn?_concat (change : Shape → Shape) : ∀ {shapes : List Shape},
    findIn? new.id shapes = none →
      updateIn? new.id change (shapes ++ [new]) = some (shapes ++ [change new])
  | [], _ => by
    obtain ⟨id, name, kind, characters, slots, children, png⟩ := new
    rw [List.nil_append, updateIn?, update?, if_pos rfl]
    rfl
  | shape :: shapes, h => by
    rw [findIn?, Option.or_eq_none_iff] at h
    rw [List.cons_append, updateIn?, update?_eq_none change h.1, updateIn?_concat change h.2]
    rfl

mutual

/-- To change a shape that was added below another one is to add it changed. -/
theorem update?_addChild (change : Shape → Shape) : ∀ {shape changed : Shape},
    shape.find? new.id = none → shape.update? parent (·.addChild new) = some changed →
      changed.update? new.id change = shape.update? parent (·.addChild (change new))
  | { id := own, name, kind, characters, slots, children, png }, changed, hfresh, h => by
    rw [find?] at hfresh
    rw [update?] at h ⊢
    by_cases hown : own = new.id
    · rw [if_pos hown] at hfresh
      cases hfresh
    · rw [if_neg hown] at hfresh
      by_cases hparent : own = parent
      · rw [if_pos hparent] at h ⊢
        cases h
        rw [addChild, update?, if_neg hown, updateIn?_concat change hfresh]
        rfl
      · rw [if_neg hparent] at h ⊢
        obtain ⟨inner, hinner, rfl⟩ := Option.map_eq_some_iff.1 h
        rw [update?, if_neg hown, updateIn?_addChild change hfresh hinner]

theorem updateIn?_addChild (change : Shape → Shape) : ∀ {shapes changed : List Shape},
    findIn? new.id shapes = none → updateIn? parent (·.addChild new) shapes = some changed →
      updateIn? new.id change changed = updateIn? parent (·.addChild (change new)) shapes
  | [], _, _, h => by cases h
  | shape :: shapes, changed, hfresh, h => by
    rw [findIn?, Option.or_eq_none_iff] at hfresh
    rw [updateIn?] at h ⊢
    have hsame := (isSome_update? parent (·.addChild new) shape).trans
      (isSome_update? parent (·.addChild (change new)) shape).symm
    cases hfirst : shape.update? parent (·.addChild new) with
    | some first =>
      rw [hfirst] at h hsame
      cases h
      obtain ⟨final, hfinal⟩ := Option.isSome_iff_exists.1 hsame.symm
      rw [updateIn?, update?_addChild change hfresh.1 hfirst, hfinal]
    | none =>
      rw [hfirst] at h hsame
      obtain ⟨inner, hinner, rfl⟩ := Option.map_eq_some_iff.1 h
      have hnone : shape.update? parent (·.addChild (change new)) = none := by
        rw [← Option.not_isSome_iff_eq_none, ← hsame]
        exact nofun
      rw [updateIn?, update?_eq_none change hfresh.1, updateIn?_addChild change hfresh.2 hinner,
        hnone]

end

/-- Adding a child adds its identifiers. -/
theorem perm_addChild (shape : Shape) : ((shape.addChild new).preorder.map (·.id)).Perm
    (shape.preorder.map (·.id) ++ new.preorder.map (·.id)) := by
  obtain ⟨id, name, kind, characters, slots, children, png⟩ := shape
  rw [addChild, preorder, preorder, preorderList_append, preorderList, preorderList,
    List.append_nil, List.map_cons, List.map_append]
  exact List.Perm.refl _

variable {change : Shape → Shape} {added : List String}

mutual

/-- Where a change adds identifiers to every shape, it adds them to the tree it is made in. -/
theorem perm_update? (hchange : ∀ shape : Shape,
      ((change shape).preorder.map (·.id)).Perm (shape.preorder.map (·.id) ++ added)) :
    ∀ {shape changed : Shape}, shape.update? parent change = some changed →
      (changed.preorder.map (·.id)).Perm (shape.preorder.map (·.id) ++ added)
  | { id := own, name, kind, characters, slots, children, png }, changed, h => by
    rw [update?] at h
    by_cases hparent : own = parent
    · rw [if_pos hparent] at h
      cases h
      exact hchange _
    · rw [if_neg hparent] at h
      obtain ⟨inner, hinner, rfl⟩ := Option.map_eq_some_iff.1 h
      rw [preorder, preorder, List.map_cons, List.map_cons, List.cons_append]
      exact (perm_updateIn? hchange hinner).cons own

theorem perm_updateIn? (hchange : ∀ shape : Shape,
      ((change shape).preorder.map (·.id)).Perm (shape.preorder.map (·.id) ++ added)) :
    ∀ {shapes changed : List Shape}, updateIn? parent change shapes = some changed →
      ((preorderList changed).map (·.id)).Perm ((preorderList shapes).map (·.id) ++ added)
  | [], _, h => by cases h
  | shape :: shapes, changed, h => by
    rw [updateIn?] at h
    rw [preorderList, List.map_append]
    cases hfirst : shape.update? parent change with
    | some first =>
      rw [hfirst] at h
      cases h
      rw [preorderList, List.map_append]
      -- the new identifiers stand between those of the first tree and those of the others
      have hperm := (perm_update? hchange hfirst).append_right ((preorderList shapes).map (·.id))
      refine hperm.trans ?_
      rw [List.append_assoc, List.append_assoc]
      exact List.perm_append_comm.append_left _
    | none =>
      rw [hfirst] at h
      obtain ⟨inner, hinner, rfl⟩ := Option.map_eq_some_iff.1 h
      rw [preorderList, List.map_append, List.append_assoc]
      exact (perm_updateIn? hchange hinner).append_left _

end

end Shape

namespace Document

/-- What a component becomes in a document: its new shape, tagged. -/
def tagged (doc : Document) (component : Component) : Shape :=
  (doc.newShape component).1.setTag component.tag component.defaultProps

theorem fresh_tagged (doc : Document) (component : Component) :
    doc.Fresh (doc.tagged component) := by
  have hids : (doc.tagged component).preorder.map (·.id) =
      (doc.newShape component).1.preorder.map (·.id) := by
    unfold tagged
    cases (doc.newShape component).1
    rfl
  have hfresh := doc.fresh_newShape component
  exact ⟨hids ▸ hfresh.nodup, hids ▸ hfresh.absent⟩

theorem find?_newShape (doc : Document) (component : Component) :
    doc.find? (doc.newShape component).1.id = none := by
  refine (doc.fresh_newShape component).absent _ ?_
  exact List.mem_map.2 ⟨_, Shape.mem_preorder_self _, rfl⟩

/-- A component without a parent is added to the roots. -/
theorem exists_tagged_root (doc : Document) (component : Component) :
    ∃ created lastNumber, doc.lastNumber < lastNumber ∧
      create none component doc = (.ok (doc.tagged component).id, created) ∧
      created.update? (doc.tagged component).id (·.setTag component.tag component.defaultProps) =
        some { doc with roots := doc.roots ++ [doc.tagged component], lastNumber } := by
  have hnumber := doc.lastNumber_lt_newShape component
  obtain ⟨lastNumber, hdoc⟩ := doc.newShape_doc component
  rw [hdoc] at hnumber
  have hupdate := Shape.updateIn?_concat (·.setTag component.tag component.defaultProps)
    (doc.find?_newShape component)
  refine ⟨{ doc with roots := doc.roots ++ [(doc.newShape component).1], lastNumber }, lastNumber,
    hnumber, ?_, ?_⟩
  · unfold create
    dsimp only
    rw [hdoc]
    rfl
  · rw [update?]
    exact congrArg (Option.map _) hupdate

/-- A component with a parent is added to its children. -/
theorem exists_tagged_below {doc : Document} {parent : String} {target : Shape}
    (h : doc.find? parent = some target) (component : Component) :
    ∃ created roots lastNumber, doc.lastNumber < lastNumber ∧
      create (some parent) component doc = (.ok (doc.tagged component).id, created) ∧
      created.update? (doc.tagged component).id (·.setTag component.tag component.defaultProps) =
        some { doc with roots, lastNumber } ∧
      Shape.updateIn? parent (·.addChild (doc.tagged component)) doc.roots = some roots := by
  have hnumber := doc.lastNumber_lt_newShape component
  obtain ⟨lastNumber, hdoc⟩ := doc.newShape_doc component
  rw [hdoc] at hnumber
  obtain ⟨added, hadded, -⟩ := Shape.exists_updateIn? (·.addChild (doc.newShape component).1) h
  obtain ⟨roots, hroots, -⟩ := Shape.exists_updateIn? (·.addChild (doc.tagged component)) h
  have hupdate := Shape.updateIn?_addChild (·.setTag component.tag component.defaultProps)
    (doc.find?_newShape component) hadded
  have hcreated : (doc.newShape component).2.update? parent
      (·.addChild (doc.newShape component).1) = some { doc with roots := added, lastNumber } := by
    rw [hdoc, update?]
    exact congrArg (Option.map _) hadded
  refine ⟨{ doc with roots := added, lastNumber }, roots, lastNumber, hnumber, ?_, ?_, hroots⟩
  · unfold create
    dsimp only
    rw [h, Option.isNone_some, if_neg Bool.false_ne_true, hcreated]
    rfl
  · rw [update?]
    exact congrArg (Option.map _) (hupdate.trans hroots)

end Document

end Newsletter
