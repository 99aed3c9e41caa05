/-
Changes of single shapes, and what is found after them. Main statement: a shape is found under an
identifier exactly if one can be changed under it; both mean the first shape with the identifier,
also where the identifier repeats, even below this shape; and a change that keeps the identifier is
read back from the same place, while every other place stands as it was.
-/
import Newsletter.Proofs.Design.Places

namespace Newsletter

namespace Shape

/-! ## Places of shapes -/

mutual

/-- All that is in a shape has a place there. -/
theorem exists_at?_of_mem : ∀ {shape inner : Shape}, inner ∈ shape.preorder →
    ∃ place, shape.at? place = some inner
  | { children, .. }, inner, h => by
    rw [preorder] at h
    rcases List.mem_cons.1 h with rfl | hbelow
    · exact ⟨[], rfl⟩
    · obtain ⟨i, place, hplace⟩ := exists_atIn?_of_mem hbelow
      exact ⟨i :: place, hplace⟩

theorem exists_atIn?_of_mem : ∀ {shapes : List Shape} {inner : Shape},
    inner ∈ preorderList shapes → ∃ i place, atIn? shapes (i :: place) = some inner
  | [], _, h => by cases h
  | shape :: shapes, inner, h => by
    rw [preorderList] at h
    rcases List.mem_append.1 h with hfirst | hrest
    · obtain ⟨place, hplace⟩ := exists_at?_of_mem hfirst
      exact ⟨0, place, hplace⟩
    · obtain ⟨i, place, hplace⟩ := exists_atIn?_of_mem hrest
      exact ⟨i + 1, place, hplace⟩

end

mutual

/-- A shape is determined by what stands at its places. -/
theorem eq_of_at? : ∀ {shape other : Shape},
    (∀ place, (shape.at? place).map bare = (other.at? place).map bare) → shape = other
  | { children, .. }, { children := others, .. }, h => by
    have hbelow : children = others := eq_of_atIn? fun i place => h (i :: place)
    have hown := Option.some.inj (h [])
    subst hbelow
    simpa [bare] using hown

theorem eq_of_atIn? : ∀ {shapes others : List Shape},
    (∀ i place, (atIn? shapes (i :: place)).map bare = (atIn? others (i :: place)).map bare) →
      shapes = others
  | [], [], _ => rfl
  | [], _ :: _, h => by cases h 0 []
  | _ :: _, [], h => by cases h 0 []
  | shape :: shapes, other :: others, h => by
    have hfirst : shape = other := eq_of_at? fun place => h 0 place
    have hrest : shapes = others := eq_of_atIn? fun i place => h (i + 1) place
    rw [hfirst, hrest]

end

/-! ## Replaced shapes -/

variable {id : String} {place other : TreePlace} {target new : Shape}

/-- What takes the place of the first shape with an identifier, and has it too, is the first one. -/
theorem First.of_replaced {before after : TreePlace → Option Shape}
    (h : First before id place target) (hreplaced : Replaced before after place new)
    (hid : new.id = id) : First after id place new := by
  constructor
  case found =>
    have hinside := hreplaced.inside []
    rw [List.append_nil] at hinside
    exact hinside
  case id_eq => exact hid
  case before =>
    intro other hlt inner hinner hrepeated
    -- what comes before a place is not below it
    have hbelow : ¬place <+: other := fun hprefix => hprefix.le hlt
    have hsame := hreplaced.outside other hbelow
    rw [hinner] at hsame
    obtain ⟨old, hold, hbare⟩ := Option.map_eq_some_iff.1 hsame.symm
    have hids : old.bare.id = inner.bare.id := congrArg Shape.id hbare
    exact h.before other hlt old hold (hids.trans hrepeated)

/-- What is neither above the place of a replaced shape nor below it is the same, with all that is
below it. -/
theorem Replaced.eq_apart {shapes changed : List Shape}
    (h : Replaced (atIn? shapes) (atIn? changed) place new) (hbelow : ¬place <+: other)
    (habove : ¬other <+: place) : atIn? changed other = atIn? shapes other := by
  have hrest : ∀ rest, ¬place <+: other ++ rest := by
    intro rest hprefix
    rcases List.prefix_or_prefix_of_prefix hprefix (List.prefix_append other rest) with hle | hle
    · exact hbelow hle
    · exact habove hle
  have hother := h.outside other hbelow
  cases hold : atIn? shapes other with
  | none =>
    rw [hold] at hother
    exact Option.map_eq_none_iff.1 hother
  | some old =>
    rw [hold] at hother
    obtain ⟨inner, hinner, -⟩ := Option.map_eq_some_iff.1 hother
    rw [hinner, Option.some.injEq]
    refine eq_of_at? fun rest => ?_
    rw [← atIn?_append hinner rest, ← atIn?_append hold rest]
    exact h.outside (other ++ rest) (hrest rest)

end Shape

namespace Document

variable {doc : Document} {id : String}

theorem mem_shapes_iff {shape : Shape} :
    shape ∈ doc.shapes ↔ ∃ place, doc.at? place = some shape := by
  constructor
  · intro h
    obtain ⟨i, place, hplace⟩ := Shape.exists_atIn?_of_mem h
    exact ⟨i :: place, hplace⟩
  · rintro ⟨place, hplace⟩
    exact Shape.mem_preorderList_of_atIn? hplace

theorem find?_eq_none_iff :
    doc.find? id = none ↔ ∀ place shape, doc.at? place = some shape → shape.id ≠ id := by
  rw [← Option.not_isSome_iff_eq_none, isSome_find?]
  constructor
  · intro h place shape hshape hid
    exact h ⟨shape, mem_shapes_iff.2 ⟨place, hshape⟩, hid⟩
  · rintro h ⟨shape, hshape, hid⟩
    obtain ⟨place, hplace⟩ := mem_shapes_iff.1 hshape
    exact h place shape hplace hid

theorem update?_eq_none_iff {change : Shape → Shape} :
    doc.update? id change = none ↔ doc.find? id = none := by
  rw [update?, Option.map_eq_none_iff]
  exact Shape.updateIn?_eq_none_iff

/-! ## What a change does -/

/-- The shape at a place was changed, and nothing else. -/
structure ChangedAt (place : TreePlace) (target : Shape) (change : Shape → Shape)
    (doc later : Document) : Prop where
  selection : later.selection = doc.selection
  lastNumber : later.lastNumber = doc.lastNumber
  /-- The changed shape stands at the place, and above it and beside it no shape has changed but for
  its children. -/
  replaced : Shape.Replaced doc.at? later.at? place (change target)
  apart : ∀ other, ¬place <+: other → ¬other <+: place → later.at? other = doc.at? other
  /-- If the change keeps the children, then below the place nothing has changed either. -/
  others : (change target).children = target.children →
    ∀ other ≠ place, (later.at? other).map Shape.bare = (doc.at? other).map Shape.bare

theorem changedAt_update? {change : Shape → Shape} {later : Document}
    (h : doc.update? id change = some later) : ∃ place target,
      Shape.First doc.at? id place target ∧ ChangedAt place target change doc later := by
  obtain ⟨hselection, hnumber, place, target, hfirst, hreplaced⟩ := exists_first_update? h
  refine ⟨place, target, hfirst, hselection, hnumber, hreplaced, ?_, ?_⟩
  · intro other hbelow habove
    exact hreplaced.eq_apart hbelow habove
  · intro hchildren other hother
    exact hreplaced.of_children (Shape.atIn?_append hfirst.found) hchildren hother

/-- To look up an identifier and to change a shape under it is about one and the same shape, the
first one that has it; and after a change that keeps the identifier the changed shape is found, in
the same place, and no other shape has changed. -/
theorem lookups_agree (doc : Document) (id : String) (change : Shape → Shape)
    (hkeeps : ∀ target, doc.find? id = some target → (change target).id = id) :
    doc.find? id = doc.shapes.find? (·.id = id) ∧
      (doc.find? id = none ↔ ∀ place shape, doc.at? place = some shape → shape.id ≠ id) ∧
      (doc.update? id change = none ↔ doc.find? id = none) ∧
      ∀ target, doc.find? id = some target → ∃ place later,
        doc.update? id change = some later ∧ Shape.First doc.at? id place target ∧
        ChangedAt place target change doc later ∧
        Shape.First later.at? id place (change target) ∧ later.find? id = some (change target) := by
  refine ⟨Shape.findIn?_eq id doc.roots, find?_eq_none_iff, update?_eq_none_iff, ?_⟩
  intro target htarget
  obtain ⟨later, hlater, -⟩ := exists_update? change htarget
  obtain ⟨place, found, hfirst, hchanged⟩ := changedAt_update? hlater
  -- the shape that was changed is the one that was found
  have hfound := find?_eq_some_iff.2 ⟨place, hfirst⟩
  cases hfound.symm.trans htarget
  have hafter : Shape.First later.at? id place (change target) :=
    hfirst.of_replaced hchanged.replaced (hkeeps target htarget)
  exact ⟨place, later, hlater, hfirst, hchanged, hafter, find?_eq_some_iff.2 ⟨place, hafter⟩⟩

/-- A shape above one that has its identifier too. -/
def outerTwin : Shape := (Shape.plain "twin" "Outer" .group).addChild (.plain "twin" "Inner" .text)

/-- This shape below another one, and behind them a third shape with the identifier. -/
def triplets : Document :=
  { roots := [(Shape.plain "root" "Root" .board).addChild outerTwin, .plain "twin" "Other" .board]
    selection := [], lastNumber := 0 }

/-- A change of one field. -/
def renamed (shape : Shape) : Shape := { shape with name := "Renamed" }

theorem lookups_agree_triplets :
    (∀ target, triplets.find? "twin" = some target → (renamed target).id = "twin") ∧
      triplets.find? "twin" = some outerTwin ∧ ∃ place later,
        triplets.update? "twin" renamed = some later ∧
        Shape.First triplets.at? "twin" place outerTwin ∧
        ChangedAt place outerTwin renamed triplets later ∧
        Shape.First later.at? "twin" place (renamed outerTwin) ∧
        later.find? "twin" = some (renamed outerTwin) := by
  have hfind : triplets.find? "twin" = some outerTwin := rfl
  have hkeeps : ∀ target, triplets.find? "twin" = some target → (renamed target).id = "twin" := by
    intro target htarget
    cases hfind.symm.trans htarget
    rfl
  obtain ⟨-, -, -, hchange⟩ := lookups_agree triplets "twin" renamed hkeeps
  exact ⟨hkeeps, hfind, hchange outerTwin hfind⟩

end Document

end Newsletter
