/-
Blocks as they are stored. Main statement: the tree of a block whose tags all stand for texts is read
as the same block by a reader that opens as many arrays and objects as it has, and by no other. A tag
that no text is read as would come back as another one.
-/
import Newsletter.Block
import Newsletter.Proofs.Json.Properties
import Newsletter.Proofs.Json.Restored

namespace Newsletter

open Json

/-! ## Tags -/

/-- A tag that some text is read as. -/
def Tag.IsRead (tag : Tag) : Prop := ∃ text, Tag.ofText text = tag

theorem Tag.isRead_iff {tag : Tag} : tag.IsRead ↔ ofText tag.toText = tag := by
  constructor
  · rintro ⟨text, rfl⟩
    rw [toText_ofText]
  · exact fun h => ⟨_, h⟩

instance (tag : Tag) : Decidable tag.IsRead := decidable_of_iff _ Tag.isRead_iff.symm

namespace Block

/-- All tags of a tree of blocks are read from texts. -/
def TagsRead (block : Block) : Prop := ∀ b ∈ block.preorder, b.tag.IsRead

instance (block : Block) : Decidable block.TagsRead :=
  inferInstanceAs (Decidable (∀ b ∈ block.preorder, b.tag.IsRead))

/-! ## Fields -/

theorem toTrees_eq_map (blocks : List Block) : toTrees blocks = blocks.map toTree := by
  induction blocks with
  | nil => rfl
  | cons block blocks ih => rw [toTrees, ih, List.map_cons]

/-- The members of the object that a block is written as. -/
def fields (tag : Tag) (id name : String) (props : Props) (text : Option String)
    (children : List Tree) : Fields :=
  [("type", .text tag.toText), ("id", .text id), ("name", .text name), ("props", props.toTree)] ++
    (match text with
      | none => []
      | some s => [("text", .text s)]) ++
    [("children", .array children)]

theorem toTree_eq (block : Block) : block.toTree = .record (fields block.tag block.id block.name
    block.props block.text (toTrees block.children)) := by
  obtain ⟨tag, id, name, props, text, children⟩ := block
  cases text <;> rfl

section

variable (tag : Tag) (id name : String) (props : Props) (text : Option String) (children : List Tree)

theorem ofTree?_fields : Fields.ofTree? fieldNames (.record (fields tag id name props text children)) =
    some (fields tag id name props text children) := by
  apply Fields.ofTree?_record
  · unfold fields fieldNames
    cases text <;> simp
  · unfold fields
    cases text <;> simp

theorem levelsFields_fields : Tree.levelsFields (fields tag id name props text children) =
    max props.toTree.levels (Tree.levelsItems children + 1) := by
  unfold fields
  cases text <;> simp [Tree.levels]

/-- The fields are found, the text only if there is one. -/
theorem lookup_fields :
    let found := fields tag id name props text children
    found.lookup "type" = some (.text tag.toText) ∧ found.lookup "id" = some (.text id) ∧
      found.lookup "name" = some (.text name) ∧ found.lookup "props" = some props.toTree ∧
      found.lookup "text" = text.map .text ∧ found.lookup "children" = some (.array children) := by
  cases text <;> exact ⟨rfl, rfl, rfl, rfl, rfl, rfl⟩

end

theorem levels_toTree (block : Block) : block.toTree.levels =
    max block.props.toTree.levels (Tree.levelsItems (toTrees block.children) + 1) + 1 := by
  rw [toTree_eq, Tree.levels_record, levelsFields_fields]

/-! ## Reading -/

mutual

/-- A block is given back from its tree. -/
theorem restores_toTree : ∀ {block : Block}, block.TagsRead → decoder.Restores block.toTree block
  | { tag, id, name, props, text, children }, h, levels => by
    obtain ⟨htag, hchildren⟩ := List.forall_mem_cons.1 h
    obtain ⟨htype, hid, hname, hprops, htext, hlookup⟩ :=
      lookup_fields tag id name props text (toTrees children)
    have hitems := Decoder.mapM_restores (restores_toTrees hchildren)
    rw [levels_toTree]
    cases levels with
    | zero => exact (if_neg (Nat.not_succ_le_zero _)).symm
    | succ levels =>
      rw [toTree_eq]
      unfold decoder
      rw [ofTree?_fields]
      simp only [Option.bind_eq_bind, Option.bind_some, Fields.required_text htype,
        Fields.required_text hid, Fields.required_text hname,
        Fields.withDefault_eq hprops, Props.decoder_toTree, Fields.optional_eq htext, hlookup,
        Option.bind_ite_none, Nat.add_le_add_iff_right, Nat.max_le, ite_and, Tag.isRead_iff.1 htag]
      -- the list of the children takes a level of its own
      cases levels with
      | zero => rfl
      | succ levels =>
        dsimp only
        rw [toTrees_eq_map, hitems levels]
        simp only [Option.bind_ite_none, Nat.add_le_add_iff_right]
        rfl

theorem restores_toTrees : ∀ {blocks : List Block}, (∀ b ∈ preorderList blocks, b.tag.IsRead) →
    ∀ block ∈ blocks, decoder.Restores block.toTree block
  | first :: blocks, h, block, hblock => by
    obtain ⟨hfirst, hblocks⟩ := List.forall_mem_append.1 h
    rcases List.mem_cons.1 hblock with heq | hblock
    · rw [heq]
      exact restores_toTree hfirst
    · exact restores_toTrees hblocks block hblock

end

mutual

/-- The tree of a block is a value, whatever it is read as. -/
theorem isValue_toTree : ∀ block : Block, block.toTree.IsValue
  | { tag, id, name, props, text, children } => by
    have hchildren : (Tree.array (toTrees children)).IsValue :=
      Tree.isValue_array (isValue_toTrees children)
    have hprops : props.toTree.IsValue := ⟨props.toValue, rfl⟩
    rw [toTree_eq]
    refine Tree.isValue_record ?_
    unfold fields
    cases text <;> simp [Tree.isValue_text, hprops, hchildren]

theorem isValue_toTrees : ∀ blocks : List Block, ∀ tree ∈ toTrees blocks, tree.IsValue
  | block :: blocks, tree, htree => by
    rcases List.mem_cons.1 htree with rfl | htree
    · exact isValue_toTree block
    · exact isValue_toTrees blocks tree htree

end

end Block

end Newsletter
