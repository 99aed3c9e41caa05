/-
Places of shapes in documents. Main facts: the shape found under an identifier is the one at the
first place, in the order of the places, where the identifier stands; and to change it changes what
is at this place and below, while at every other place stands what stood there.
-/
import Newsletter.Proofs.Design.Lookup
import Newsletter.Proofs.Draft.Kept
import Mathlib.Data.List.Lex

namespace Newsletter

namespace Shape

/-! ## Shapes at places -/

/-- The shape at a place. -/
def at? : Shape → TreePlace → Option Shape
  | shape, [] => some shape
  | shape, i :: place =>
    match shape.children[i]? with
    | some child => child.at? place
    | none => none

/-- The shape at a place in a list of trees; the first step chooses the tree. -/
def atIn? (shapes : List Shape) : TreePlace → Option Shape
  | [] => none
  | i :: place =>
    match shapes[i]? with
    | some shape => shape.at? place
    | none => none

/-- All of a shape but its children. -/
def bare (shape : Shape) : Shape := { shape with children := [] }

theorem at?_cons (shape : Shape) (i : Nat) (place : TreePlace) :
    shape.at? (i :: place) = atIn? shape.children (i :: place) := rfl

theorem atIn?_append_left {shapes : List Shape} {i : Nat} (h : i < shapes.length)
    (others : List Shape) (place : TreePlace) :
    atIn? (shapes ++ others) (i :: place) = atIn? shapes (i :: place) := by
  rw [atIn?, atIn?, List.getElem?_append_left h]

theorem atIn?_concat (shapes : List Shape) (new : Shape) (place : TreePlace) :
    atIn? (shapes ++ [new]) (shapes.length :: place) = new.at? place := by
  rw [atIn?, List.getElem?_concat_length]

theorem atIn?_of_length_le {shapes : List Shape} {i : Nat} (h : shapes.length ≤ i)
    (place : TreePlace) : atIn? shapes (i :: place) = none := by
  rw [atIn?, List.getElem?_eq_none h]

theorem at?_append : ∀ (place : TreePlace) {shape target : Shape}, shape.at? place = some target →
    ∀ rest, shape.at? (place ++ rest) = target.at? rest
  | [], _, _, h, _ => by
    cases h
    rfl
  | i :: place, shape, target, h, rest => by
    rw [at?] at h
    rw [List.cons_append, at?]
    cases hchild : shape.children[i]? with
    | none =>
      rw [hchild] at h
      cases h
    | some child =>
      rw [hchild] at h
      exact at?_append place h rest

/-- Below a place stands what is below the shape that stands there. -/
theorem atIn?_append {shapes : List Shape} {place : TreePlace} {target : Shape}
    (h : atIn? shapes place = some target) (rest : TreePlace) :
    atIn? shapes (place ++ rest) = target.at? rest := by
  cases place with
  | nil => cases h
  | cons i place =>
    rw [atIn?] at h
    rw [List.cons_append, atIn?]
    cases hshape : shapes[i]? with
    | none =>
      rw [hshape] at h
      cases h
    | some shape =>
      rw [hshape] at h
      exact at?_append place h rest

theorem mem_preorderList {shapes : List Shape} {shape inner : Shape} (hshape : shape ∈ shapes)
    (hinner : inner ∈ shape.preorder) : inner ∈ preorderList shapes := by
  induction shapes with
  | nil => cases hshape
  | cons first shapes ih =>
    rw [preorderList]
    rcases List.mem_cons.1 hshape with rfl | hshape
    · exact List.mem_append_left _ hinner
    · exact List.mem_append_right _ (ih hshape)

theorem mem_preorder_of_at? : ∀ {place : TreePlace} {shape inner : Shape},
    shape.at? place = some inner → inner ∈ shape.preorder
  | [], shape, _, h => by
    cases h
    exact shape.mem_preorder_self
  | i :: place, { children, .. }, inner, h => by
    rw [at?] at h
    split at h
    · rename_i child hchild
      rw [preorder]
      exact List.mem_cons_of_mem _
        (mem_preorderList (List.mem_of_getElem? hchild) (mem_preorder_of_at? h))
    · cases h

theorem mem_preorderList_of_atIn? {shapes : List Shape} {place : TreePlace} {inner : Shape}
    (h : atIn? shapes place = some inner) : inner ∈ preorderList shapes := by
  cases place with
  | nil => cases h
  | cons i place =>
    rw [atIn?] at h
    split at h
    · rename_i shape hshape
      exact mem_preorderList (List.mem_of_getElem? hshape) (mem_preorder_of_at? h)
    · cases h

/-! ## First places -/

/-- Among shapes at places, the first one with an identifier, a place coming before those below. -/
structure First (shapeAt? : TreePlace → Option Shape) (id : String) (place : TreePlace)
    (shape : Shape) : Prop where
  found : shapeAt? place = some shape
  id_eq : shape.id = id
  before : ∀ other < place, ∀ inner, shapeAt? other = some inner → inner.id ≠ id

/-- There is only one. -/
theorem First.unique {shapeAt? : TreePlace → Option Shape} {id : String} {place other : TreePlace}
    {shape inner : Shape} (h : First shapeAt? id place shape)
    (h' : First shapeAt? id other inner) : place = other ∧ shape = inner := by
  have hplace : place = other := by
    rcases lt_trichotomy place other with hlt | heq | hlt
    · exact absurd h.id_eq (h'.before place hlt shape h.found)
    · exact heq
    · exact absurd h'.id_eq (h.before other hlt inner h'.found)
  subst hplace
  exact ⟨rfl, Option.some.inj (h.found.symm.trans h'.found)⟩

/-- What stands at a place and below it was replaced by a shape and what is below that; at every
other place stands what stood there, though more may be below it now. -/
structure Replaced (before after : TreePlace → Option Shape) (place : TreePlace) (new : Shape) :
    Prop where
  inside : ∀ rest, after (place ++ rest) = new.at? rest
  outside : ∀ other, ¬place <+: other → (after other).map bare = (before other).map bare

/-- A tree that is added stands behind the others, and what is not in it is as it was. -/
theorem replaced_concat (shapes : List Shape) (new : Shape) :
    Replaced (atIn? shapes) (atIn? (shapes ++ [new])) [shapes.length] new := by
  constructor
  · exact atIn?_concat shapes new
  · intro other hother
    cases other with
    | nil => rfl
    | cons i rest =>
      rcases Nat.lt_trichotomy i shapes.length with hlt | rfl | hgt
      · exact congrArg _ (atIn?_append_left hlt [new] rest)
      · exact absurd ⟨rest, rfl⟩ hother
      · have hlength : (shapes ++ [new]).length ≤ i := by
          rw [List.length_append, List.length_singleton]
          exact hgt
        rw [atIn?_of_length_le hlength, atIn?_of_length_le (Nat.le_of_lt hgt)]

namespace Replaced

variable {before after : TreePlace → Option Shape} {place : TreePlace} {target new : Shape}

/-- A shape with the same children is all that differs. -/
theorem of_children (h : Replaced before after place new)
    (hbelow : ∀ rest, before (place ++ rest) = target.at? rest)
    (hchildren : new.children = target.children) {other : TreePlace} (hother : other ≠ place) :
    (after other).map bare = (before other).map bare := by
  by_cases hprefix : place <+: other
  · obtain ⟨rest, rfl⟩ := hprefix
    rw [h.inside, hbelow]
    cases rest with
    | nil => exact absurd (List.append_nil place) hother
    | cons i rest => rw [at?_cons, at?_cons, hchildren]
  · exact h.outside other hprefix

/-- A child that is added stands behind the others, and what is not below it is as it was. -/
theorem of_addChild {child : Shape} (h : Replaced before after place (target.addChild child))
    (hbelow : ∀ rest, before (place ++ rest) = target.at? rest) :
    Replaced before after (place ++ [target.children.length]) child := by
  constructor
  · intro rest
    rw [List.append_assoc, h.inside, List.singleton_append, at?_cons]
    exact atIn?_concat target.children child rest
  · intro other hother
    by_cases hprefix : place <+: other
    · obtain ⟨rest, rfl⟩ := hprefix
      rw [h.inside, hbelow]
      cases rest with
      | nil => rfl
      | cons i rest =>
        refine (replaced_concat target.children child).outside (i :: rest) fun hbehind => hother ?_
        exact (List.prefix_append_right_inj place).2 hbehind
    · exact h.outside other hprefix

end Replaced

variable {id : String} {change : Shape → Shape}

mutual

/-- To change a shape is to replace what is at the first place with its identifier. -/
theorem exists_first_update? : ∀ {shape changed : Shape}, shape.update? id change = some changed →
    ∃ place target, shape.find? id = some target ∧ First shape.at? id place target ∧
      Replaced shape.at? changed.at? place (change target)
  | { id := own, name, kind, characters, slots, children, png }, changed, h => by
    rw [update?] at h
    rw [find?]
    by_cases hown : own = id
    · rw [if_pos hown] at h ⊢
      cases h
      exact ⟨[], _, rfl, ⟨rfl, hown, fun _ hlt => absurd hlt (List.not_lt_nil _)⟩,
        ⟨fun _ => rfl, fun other hother => absurd List.nil_prefix hother⟩⟩
    · -- the shape itself comes before all below it, but it has another identifier
      rw [if_neg hown] at h ⊢
      obtain ⟨below, hbelow, rfl⟩ := Option.map_eq_some_iff.1 h
      obtain ⟨i, place, target, hfind, hfirst, hreplaced⟩ := exists_first_updateIn? hbelow
      refine ⟨i :: place, target, hfind, ⟨hfirst.found, hfirst.id_eq, ?_⟩, ⟨hreplaced.inside, ?_⟩⟩
      · intro other hlt inner hinner
        cases other with
        | nil =>
          cases hinner
          exact hown
        | cons j other => exact hfirst.before _ hlt inner hinner
      · intro other hother
        cases other with
        | nil => rfl
        | cons j other => exact hreplaced.outside _ hother

theorem exists_first_updateIn? : ∀ {shapes changed : List Shape},
    updateIn? id change shapes = some changed →
      ∃ i place target, findIn? id shapes = some target ∧
        First (atIn? shapes) id (i :: place) target ∧
        Replaced (atIn? shapes) (atIn? changed) (i :: place) (change target)
  | [], _, h => by cases h
  | shape :: shapes, changed, h => by
    rw [updateIn?] at h
    rw [findIn?]
    -- the first tree is changed if the identifier stands in it, and else the first of the others
    cases hshape : shape.update? id change with
    | some first =>
      rw [hshape] at h
      cases h
      obtain ⟨place, target, hfind, hfirst, hreplaced⟩ := exists_first_update? hshape
      rw [hfind, Option.some_or]
      refine ⟨0, place, target, rfl, ⟨hfirst.found, hfirst.id_eq, ?_⟩, ⟨hreplaced.inside, ?_⟩⟩
      · intro other hlt inner hinner
        cases other with
        | nil => cases hinner
        | cons j other =>
          rcases List.cons_lt_cons_iff.1 hlt with hj | ⟨rfl, hbelow⟩
          · cases hj
          · exact hfirst.before other hbelow inner hinner
      · intro other hother
        cases other with
        | nil => rfl
        | cons j other =>
          cases j with
          | zero =>
            refine hreplaced.outside other fun hprefix => hother ?_
            exact List.cons_prefix_cons.2 ⟨rfl, hprefix⟩
          | succ j => rfl
    | none =>
      rw [hshape] at h
      obtain ⟨rest, hrest, rfl⟩ := Option.map_eq_some_iff.1 h
      obtain ⟨i, place, target, hfind, hfirst, hreplaced⟩ := exists_first_updateIn? hrest
      have hnone : shape.find? id = none := update?_eq_none_iff.1 hshape
      rw [hnone, Option.none_or]
      refine ⟨i + 1, place, target, hfind, ⟨hfirst.found, hfirst.id_eq, ?_⟩, ⟨hreplaced.inside, ?_⟩⟩
      · intro other hlt inner hinner hid
        cases other with
        | nil => cases hinner
        | cons j other =>
          cases j with
          | zero =>
            rw [find?_eq, List.find?_eq_none] at hnone
            exact hnone inner (mem_preorder_of_at? hinner) (by simpa using hid)
          | succ j =>
            refine hfirst.before (j :: other) ?_ inner hinner hid
            rcases List.cons_lt_cons_iff.1 hlt with hj | ⟨hj, hlt⟩
            · exact List.cons_lt_cons_iff.2 (.inl (Nat.lt_of_succ_lt_succ hj))
            · exact List.cons_lt_cons_iff.2 (.inr ⟨Nat.succ.inj hj, hlt⟩)
      · intro other hother
        cases other with
        | nil => rfl
        | cons j other =>
          cases j with
          | zero => rfl
          | succ j =>
            refine hreplaced.outside (j :: other) fun hprefix => hother ?_
            obtain ⟨rfl, hbelow⟩ := List.cons_prefix_cons.1 hprefix
            exact List.cons_prefix_cons.2 ⟨rfl, hbelow⟩

end

end Shape

namespace Document

variable {doc : Document} {id : String}

/-- The shape at a place; the first step chooses the root. -/
def at? (doc : Document) : TreePlace → Option Shape := Shape.atIn? doc.roots

/-- To change a shape is to replace what is at the first place with its identifier, and nothing else
of the document. -/
theorem exists_first_update? {change : Shape → Shape} {later : Document}
    (h : doc.update? id change = some later) :
    later.selection = doc.selection ∧ later.lastNumber = doc.lastNumber ∧
      ∃ place target, Shape.First doc.at? id place target ∧
        Shape.Replaced doc.at? later.at? place (change target) := by
  obtain ⟨roots, hroots, rfl⟩ := Option.map_eq_some_iff.1 h
  obtain ⟨i, place, target, -, hfirst, hreplaced⟩ := Shape.exists_first_updateIn? hroots
  exact ⟨rfl, rfl, i :: place, target, hfirst, hreplaced⟩

/-- The shape found is the one at the first place with the identifier. -/
theorem find?_eq_some_iff {target : Shape} :
    doc.find? id = some target ↔ ∃ place, Shape.First doc.at? id place target := by
  have hfirst : ∀ {found}, doc.find? id = some found →
      ∃ place, Shape.First doc.at? id place found := by
    intro found hfound
    obtain ⟨changed, hchanged, -⟩ := Shape.exists_updateIn? (fun shape => shape) hfound
    obtain ⟨i, place, other, hother, hfirst, -⟩ := Shape.exists_first_updateIn? hchanged
    cases hother.symm.trans hfound
    exact ⟨i :: place, hfirst⟩
  constructor
  · exact hfirst
  · rintro ⟨place, hplace⟩
    have hsome := isSome_find?.2 ⟨target, Shape.mem_preorderList_of_atIn? hplace.found, hplace.id_eq⟩
    obtain ⟨found, hfound⟩ := Option.isSome_iff_exists.1 hsome
    obtain ⟨other, hother⟩ := hfirst hfound
    rw [hfound, (hother.unique hplace).2]

end Document

end Newsletter
