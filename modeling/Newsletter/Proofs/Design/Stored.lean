/-
Documents as they are stored. Main statement: the text that a document is written as is read as the
same document, unless it has more arrays and objects inside one another than a reader opens, or a
number that does not fit its word; then it is not read at all.
-/
import Newsletter.Design.Document
import Newsletter.Proofs.Json.Restored

namespace Newsletter

open Json

/-! ## Shapes -/

namespace Shape

/-- The members of the object that a shape is written as. -/
def fields (id name : String) (kind : ShapeKind) (characters : Option String) (slots : Dict String)
    (children : List Tree) (png : Option String) : Fields :=
  [("id", .text id), ("name", .text name), ("kind", .text kind.toText)] ++
    optionalField "characters" characters ++ slotsField slots ++ childrenField children ++
    optionalField "png" png

section

variable (id name : String) (kind : ShapeKind) (characters : Option String) (slots : Dict String)
  (children : List Tree) (png : Option String)

theorem ofTree?_fields :
    Fields.ofTree? fieldNames (.record (fields id name kind characters slots children png)) =
      some (fields id name kind characters slots children png) := by
  apply Fields.ofTree?_record
  · unfold fields optionalField slotsField childrenField fieldNames
    cases characters <;> cases png <;> cases slots.isEmpty <;> cases children.isEmpty <;> simp
  · unfold fields optionalField slotsField childrenField
    cases characters <;> cases png <;> cases slots.isEmpty <;> cases children.isEmpty <;> simp

theorem lookup_fields (key : String) :
    (fields id name kind characters slots children png).lookup key =
      if key = "id" then some (.text id)
      else if key = "name" then some (.text name)
      else if key = "kind" then some (.text kind.toText)
      else if key = "characters" then characters.map .text
      else if key = "pluginData" then (slotsField slots).lookup "pluginData"
      else if key = "children" then (childrenField children).lookup "children"
      else if key = "png" then png.map .text
      else none := by
  unfold fields optionalField slotsField childrenField
  cases characters <;> cases png <;> cases slots.isEmpty <;> cases children.isEmpty <;>
    simp [List.lookup_cons] <;> grind

theorem levelsFields_fields :
    Tree.levelsFields (fields id name kind characters slots children png) =
      max (if slots.isEmpty then 0 else 1)
        (if children.isEmpty then 0 else Tree.levelsItems children + 1) := by
  have htext : ∀ (key : String) (text : Option String),
      Tree.levelsFields (optionalField key text) = 0 := by
    rintro key (_ | s) <;> rfl
  have hslots : Tree.levelsFields (slotsField slots) = if slots.isEmpty then 0 else 1 := by
    unfold slotsField
    split
    · rfl
    · rw [Tree.levelsFields_cons, Tree.levels_record, Tree.levelsFields_texts]; rfl
  have hchildren : Tree.levelsFields (childrenField children) =
      if children.isEmpty then 0 else Tree.levelsItems children + 1 := by
    unfold childrenField
    split
    · rfl
    · rw [Tree.levelsFields_cons, Tree.levels]; rfl
  unfold fields
  simp only [Tree.levelsFields_append, htext, hslots, hchildren, Tree.levelsFields_cons,
    Tree.levels_text, Tree.levelsFields_nil]
  omega

/-- The fields that hold plain texts are read back. -/
theorem texts_fields (levels : Nat) :
    let found := fields id name kind characters slots children png
    found.required levels "id" Decoder.string = some id ∧
      found.withDefault levels "name" Decoder.string "" = some name ∧
      found.withDefault levels "kind" (Decoder.word ShapeKind.ofText?) .group = some kind ∧
      found.optional levels "characters" Decoder.string = some characters ∧
      found.optional levels "png" Decoder.string = some png := by
  have hkind : ShapeKind.ofText? kind.toText = some kind := by cases kind <;> decide
  have hcharacters := lookup_fields id name kind characters slots children png "characters"
  have hpng := lookup_fields id name kind characters slots children png "png"
  simp only [String.reduceEq, if_true, if_false] at hcharacters hpng
  refine ⟨?_, ?_, ?_, Fields.optional_eq hcharacters levels, Fields.optional_eq hpng levels⟩
  · rfl
  · rfl
  · exact hkind

theorem lookup_slots (h : slots.isEmpty = false) : (slotsField slots).lookup "pluginData" =
    some (.record (slots.entries.map fun (key, value) => (key, .text value))) := by
  unfold slotsField
  rw [h]
  rfl

theorem withDefault_slots (levels : Nat) :
    Fields.withDefault (fields id name kind characters slots children png) levels "pluginData"
      (Decoder.dict Decoder.string) Dict.empty =
        if (if slots.isEmpty then 0 else 1) ≤ levels then some slots else none := by
  unfold Fields.withDefault
  rw [lookup_fields]
  cases hempty : slots.isEmpty with
  | true =>
    have hslots : slots = Dict.empty := Dict.ext (List.isEmpty_iff.1 hempty)
    subst hslots
    rfl
  | false =>
    simp only [lookup_slots slots hempty, reduceCtorEq, String.reduceEq, if_true, if_false]
    cases levels with
    | zero => rfl
    | succ levels =>
      rw [Decoder.dict_record, if_pos (by omega)]

theorem lookup_children :
    (fields id name kind characters slots children png).lookup "children" =
      if children.isEmpty then none else some (.array children) := by
  rw [lookup_fields]
  unfold childrenField
  cases children <;> simp

end

theorem toTree_eq (shape : Shape) : shape.toTree = .record (fields shape.id shape.name shape.kind
    shape.characters shape.slots (toTrees shape.children) shape.png) := by
  cases shape
  rfl

theorem toTrees_eq_map (shapes : List Shape) : toTrees shapes = shapes.map toTree := by
  induction shapes with
  | nil => rfl
  | cons shape shapes ih => rw [toTrees, ih, List.map_cons]

theorem isEmpty_toTrees (shapes : List Shape) : (toTrees shapes).isEmpty = shapes.isEmpty := by
  cases shapes <;> rfl

theorem levels_toTree (shape : Shape) : shape.toTree.levels =
    max (if shape.slots.isEmpty then 0 else 1)
      (if shape.children.isEmpty then 0 else Tree.levelsItems (toTrees shape.children) + 1) + 1 := by
  rw [toTree_eq, Tree.levels_record, levelsFields_fields, isEmpty_toTrees]

mutual

/-- A shape is given back from its tree. -/
theorem restores_toTree : ∀ shape : Shape, decoder.Restores shape.toTree shape
  | { id, name, kind, characters, slots, children, png }, levels => by
    rw [levels_toTree]
    cases levels with
    | zero => exact (if_neg (Nat.not_succ_le_zero _)).symm
    | succ levels =>
      obtain ⟨hid, hname, hkind, hcharacters, hpng⟩ :=
        texts_fields id name kind characters slots (toTrees children) png levels
      have hslots := withDefault_slots id name kind characters slots (toTrees children) png levels
      have hlookup := lookup_children id name kind characters slots (toTrees children) png
      have hitems := Decoder.mapM_restores (restores_toTrees children)
      rw [toTree_eq]
      unfold decoder
      rw [ofTree?_fields]
      simp only [Option.bind_eq_bind, Option.bind_some, hid, hname, hkind, hcharacters, hslots, hpng,
        hlookup, isEmpty_toTrees, Option.bind_ite_none, Nat.add_le_add_iff_right, Nat.max_le, ite_and]
      congr 1
      -- a shape without children has no list of them, and needs no level for it
      cases children with
      | nil => simp
      | cons child children =>
        cases levels with
        | zero => rfl
        | succ levels =>
          rw [toTrees_eq_map, List.isEmpty_cons, if_neg Bool.false_ne_true, if_neg Bool.false_ne_true]
          dsimp only
          rw [hitems levels]
          simp only [Option.bind_ite_none, Nat.add_le_add_iff_right]
          rfl

theorem restores_toTrees : ∀ shapes : List Shape, ∀ shape ∈ shapes,
    decoder.Restores shape.toTree shape
  | first :: shapes, shape, hshape => by
    rcases List.mem_cons.1 hshape with heq | hshape
    · rw [heq]
      exact restores_toTree first
    · exact restores_toTrees shapes shape hshape

end

end Shape

/-! ## Documents -/

namespace Document

/-- A document that can be stored: a reader opens as many arrays and objects as it has, and its
number fits a word of 64 bits. -/
structure Storable (doc : Document) : Prop where
  levels : doc.toTree.levels ≤ maxLevels
  number : doc.lastNumber < 0x10000000000000000

theorem levels_toTree (doc : Document) :
    doc.toTree.levels = Tree.levelsItems (Shape.toTrees doc.roots) + 2 := by
  unfold toTree
  rw [Tree.levels_record, Tree.levelsFields_cons, Tree.levelsFields_cons, Tree.levelsFields_cons,
    Tree.levels, Tree.levels, Tree.levelsItems_texts, Tree.levels_nat, Tree.levelsFields_nil]
  omega

instance (doc : Document) : Decidable doc.Storable :=
  decidable_of_iff (doc.toTree.levels ≤ maxLevels ∧ doc.lastNumber < 0x10000000000000000)
    ⟨fun h => ⟨h.1, h.2⟩, fun h => ⟨h.levels, h.number⟩⟩

theorem decoder_toTree (doc : Document) (levels : Nat) : decoder levels doc.toTree =
    if doc.toTree.levels ≤ levels ∧ doc.lastNumber < 0x10000000000000000 then some doc else none := by
  have hroots : (Decoder.list Shape.decoder).Restores (.array (Shape.toTrees doc.roots)) doc.roots := by
    rw [Shape.toTrees_eq_map]
    exact Decoder.restores_list fun shape _ => shape.restores_toTree
  have hselection : (Decoder.list Decoder.string).Restores (.array (doc.selection.map .text))
      doc.selection := Decoder.restores_list fun s _ => Decoder.restores_string s
  have hnumber (levels : ℕ) : Decoder.nat64 levels (.nat doc.lastNumber) =
      if doc.lastNumber < 0x10000000000000000 then some doc.lastNumber else none :=
    Decoder.natBelow_nat (Nat.le_refl _) levels doc.lastNumber
  have hfields : Fields.ofTree? ["roots", "selection", "nextId"] doc.toTree =
      some [("roots", .array (Shape.toTrees doc.roots)),
        ("selection", .array (doc.selection.map .text)), ("nextId", .nat doc.lastNumber)] :=
    Fields.ofTree?_record (by simp) (by simp)
  rw [levels_toTree]
  cases levels with
  | zero => rw [if_neg (by omega)]; rfl
  | succ levels =>
    unfold decoder Decoder.record
    dsimp only
    rw [hfields, Option.bind_some, Fields.withDefault_eq (t := .array (Shape.toTrees doc.roots)) rfl,
      Fields.withDefault_eq (t := .array (doc.selection.map .text)) rfl,
      Fields.withDefault_eq (t := .nat doc.lastNumber) rfl, hroots, hselection, hnumber]
    generalize 0x10000000000000000 = bound
    by_cases hlevels : Tree.levelsItems (Shape.toTrees doc.roots) + 1 ≤ levels
    · have hone : 1 ≤ levels := by omega
      by_cases h : doc.lastNumber < bound
      · simp [Tree.levels, Tree.levelsItems_texts, hlevels, hone, h]
      · simp [Tree.levels, Tree.levelsItems_texts, hlevels, hone, h]
    · simp [Tree.levels, hlevels]

/-- A document is read back from its text exactly if it can be stored. -/
theorem read?_pretty (doc : Document) :
    decoder.read? doc.toTree.pretty = if doc.Storable then some doc else none := by
  have hstorable : (doc.toTree.levels ≤ maxLevels ∧ doc.lastNumber < 0x10000000000000000) ↔ doc.Storable :=
    ⟨fun h => ⟨h.1, h.2⟩, fun h => ⟨h.levels, h.number⟩⟩
  unfold Decoder.read?
  rw [Tree.read?_pretty, Option.bind_some, decoder_toTree]
  simp only [hstorable]

end Document

end Newsletter
