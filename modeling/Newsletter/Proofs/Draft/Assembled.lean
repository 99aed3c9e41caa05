/-
Drafts of assembled shapes. Main facts: all tagged shapes are kept, in their places and with the
properties of their components, and the only findings are the rows without columns, in pre-order.
-/
import Newsletter.Proofs.Design.Assembly
import Newsletter.Proofs.Draft.Kept

namespace Newsletter

open Json

/-! ## Stored components -/

/-- A parent accepts the components that ask for it. -/
theorem Component.accepts_tag {component : Component} {tag : Tag}
    (h : component.requiredParent = some tag) : tag.accepts component.tag = true := by
  cases component with
  | container => cases h
  | row | column | text | button | image | divider | spacer =>
    cases h
    rfl

namespace Shape

theorem toNodes_eq (shapes : List Shape) : toNodes shapes = shapes.map toNode := by
  induction shapes with
  | nil => rfl
  | cons shape shapes ih => rw [toNodes, ih, List.map_cons]

@[simp] theorem id_toNode (shape : Shape) : shape.toNode.id = shape.id := by
  cases shape; rfl

@[simp] theorem name_toNode (shape : Shape) : shape.toNode.name = shape.name := by
  cases shape; rfl

theorem children_toNode (shape : Shape) : shape.toNode.children = toNodes shape.children := by
  cases shape; rfl

theorem preorder_eq (shape : Shape) : shape.preorder = shape :: preorderList shape.children := by
  cases shape; rfl

theorem Stores.props_toNode {component : Component} {shape : Shape} (h : Stores component shape) :
    shape.toNode.props = component.defaultProps := by
  have hprops : shape.toNode.props = Slots.props shape.slots.get? := by
    cases shape
    rfl
  rw [hprops, h.props_eq]

theorem Raw.preorder_eq {shape : Shape} (h : Raw shape) : shape.preorder = [shape] := by
  rw [Shape.preorder_eq, h.children]
  rfl

/-! ## Kept shapes -/

/-- Of the children of an assembled shape those with a tag are taken. -/
theorem Assembled.takes {tag : Tag} {child : Shape} (h : Assembled (some tag) child) :
    tag.takes child.toNode = child.tag?.isSome := by
  rw [Tag.takes, child.tag?_toNode]
  cases h with
  | part hraw => rw [hraw.tag?_eq]; rfl
  | module hparent hstores =>
    rw [hstores.tag?_eq, Option.any_some, Component.accepts_tag hparent]
    rfl

mutual

/-- The kept nodes of an assembled shape are those with a tag. -/
theorem Assembled.kept : ∀ {shape : Shape} {parent : Option Tag}, Assembled parent shape →
    shape.tag?.isSome → shape.toNode.kept = (shape.preorder.filter (·.tag?.isSome)).map toNode
  | { id, name, kind, characters, slots, children, png }, parent, h, htag => by
    have hfirst := List.filter_cons_of_pos (p := fun shape : Shape => shape.tag?.isSome)
      (l := preorderList children) htag
    obtain ⟨component, -, hstores, -, hchildren⟩ := h.exists_component htag
    rw [preorder, hfirst, List.map_cons, toNode, Node.kept, ← Assembled.keptAmong hchildren,
      ← hstores.tag?_eq]
    rfl

theorem Assembled.keptAmong : ∀ {shapes : List Shape} {tag : Tag},
    (∀ shape ∈ shapes, Assembled (some tag) shape) → Node.keptAmong (some tag) (toNodes shapes) =
      ((preorderList shapes).filter (·.tag?.isSome)).map toNode
  | [], _, _ => rfl
  | shape :: shapes, tag, h => by
    obtain ⟨hshape, hshapes⟩ := List.forall_mem_cons.1 h
    have hrest := Assembled.keptAmong hshapes
    rw [toNodes, Node.keptAmong, Option.any_some, hshape.takes, hrest, preorderList,
      List.filter_append, List.map_append]
    by_cases htag : shape.tag?.isSome
    · rw [if_pos htag, Assembled.kept hshape htag]
    · rw [if_neg htag]
      cases hshape with
      | part hraw =>
        rw [hraw.preorder_eq, List.filter_cons_of_neg (by simpa using htag)]
        rfl
      | module _ hstores =>
        rw [hstores.tag?_eq] at htag
        exact absurd rfl htag

end

end Shape

/-! ## Rows without columns -/

theorem Node.diagnostics_draft (node : Node) (tag : Tag) : (node.draft tag).diagnostics =
    (draftChildren tag node.children).diagnostics ++
      node.closing tag (draftChildren tag node.children).value :=
  congrArg Draft.diagnostics (node.draft_eq tag)

namespace Shape

/-- Whether a shape is a row and none of its children is a column. -/
def lacksColumns (shape : Shape) : Bool :=
  shape.tag? = some .row && shape.children.all (·.tag? ≠ some .column)

/-- The findings about the rows without columns. -/
def missingColumns (shapes : List Shape) : List Diagnostic :=
  (shapes.filter lacksColumns).map fun row => .noColumns row.id row.name

theorem missingColumns_append (first second : List Shape) :
    missingColumns (first ++ second) = missingColumns first ++ missingColumns second := by
  rw [missingColumns, List.filter_append, List.map_append]
  rfl

theorem missingColumns_cons (shape : Shape) (shapes : List Shape) :
    missingColumns (shape :: shapes) = missingColumns [shape] ++ missingColumns shapes :=
  missingColumns_append [shape] shapes

theorem missingColumns_eq_nil {shape : Shape} (h : shape.lacksColumns = false) :
    missingColumns [shape] = [] := by
  rw [missingColumns, List.filter_cons_of_neg (by simpa using h)]
  rfl

theorem lacksColumns_other {shape : Shape} (h : shape.tag? ≠ some .row) :
    shape.lacksColumns = false := by
  rw [lacksColumns, decide_eq_false h, Bool.false_and]

/-- What is assembled below a button is a part of it. -/
theorem Assembled.raw {shape : Shape} (h : Assembled (some .button) shape) : Raw shape := by
  cases h with
  | part hraw => exact hraw
  | module hparent => exact absurd hparent (requiredParent_ne_button _)

/-- What is assembled elsewhere has a tag. -/
theorem Assembled.isSome_tag? {tag : Tag} {shape : Shape} (h : Assembled (some tag) shape)
    (hbutton : tag ≠ .button) : shape.tag?.isSome := by
  cases h with
  | part => exact absurd rfl hbutton
  | module _ hstores => rw [hstores.tag?_eq]; rfl

/-- The children of an assembled row are columns. -/
theorem Assembled.column {child : Shape} (h : Assembled (some .row) child) :
    child.tag? = some .column := by
  cases h with
  | module hparent hstores hparts hchildren =>
    rename_i component
    cases component with
    | column => exact hstores.tag?_eq
    | container | row | text | button | image | divider | spacer => cases hparent

/-- What is said about a shape once its children are built: a row that lacks columns has no children
at all. -/
theorem Assembled.closing {shape : Shape} {component : Component} (hstores : Stores component shape)
    (hchildren : ∀ child ∈ shape.children, Assembled (some component.tag) child) :
    shape.toNode.closing component.tag
        (Node.draftChildren component.tag (toNodes shape.children)).value =
      missingColumns [shape] ∧ (missingColumns [shape] = [] ∨ shape.children = []) := by
  have htag := hstores.tag?_eq
  cases component with
  | row =>
    cases hbelow : shape.children with
    | nil =>
      have hlacks : shape.lacksColumns = true := by
        rw [lacksColumns, htag, hbelow]
        rfl
      refine ⟨?_, .inr rfl⟩
      rw [missingColumns, List.filter_cons_of_pos hlacks, Node.closing, if_pos ⟨rfl, rfl⟩, id_toNode,
        name_toNode]
      rfl
    | cons child children =>
      -- the first child is a column, so it is built
      have hcolumn := (hchildren child (hbelow ▸ List.mem_cons_self)).column
      have hlacks : shape.lacksColumns = false := by
        rw [lacksColumns, hbelow, List.all_cons, hcolumn]
        simp
      refine ⟨?_, .inl (missingColumns_eq_nil hlacks)⟩
      rw [missingColumns_eq_nil hlacks, toNodes,
        Node.draftChildren_takes ((child.tag?_toNode).trans hcolumn) rfl]
      rfl
  | container | column | text | button | image | divider | spacer =>
    have hnone : missingColumns [shape] = [] :=
      missingColumns_eq_nil (lacksColumns_other (by rw [htag]; decide))
    exact ⟨hnone ▸ rfl, .inl hnone⟩

mutual

/-- The findings about an assembled shape are its rows without columns. -/
theorem Assembled.diagnostics : ∀ {shape : Shape} {parent : Option Tag} {tag : Tag},
    Assembled parent shape → shape.tag? = some tag →
      (shape.toNode.draft tag).diagnostics = missingColumns shape.preorder
  | { id, name, kind, characters, slots, children, png }, parent, tag, h, htag => by
    obtain ⟨component, -, hstores, -, hchildren⟩ := h.exists_component (by rw [htag]; rfl)
    rw [hstores.tag?_eq] at htag
    cases htag
    obtain ⟨hclosing, horder⟩ := Assembled.closing hstores hchildren
    rw [preorder_eq, missingColumns_cons, Node.diagnostics_draft, children_toNode, hclosing,
      Assembled.diagnosticsList hchildren]
    -- the finding comes after those below the shape, but one of the two lists is empty
    rcases horder with hnone | hchildless
    · rw [hnone, List.nil_append, List.append_nil]
    · rw [hchildless]
      exact (List.append_nil _).symm

theorem Assembled.diagnosticsList : ∀ {shapes : List Shape} {tag : Tag},
    (∀ shape ∈ shapes, Assembled (some tag) shape) →
      (Node.draftChildren tag (toNodes shapes)).diagnostics = missingColumns (preorderList shapes)
  | [], _, _ => rfl
  | shape :: shapes, tag, h => by
    obtain ⟨hshape, hshapes⟩ := List.forall_mem_cons.1 h
    have hrest := Assembled.diagnosticsList hshapes
    rw [toNodes, preorderList, missingColumns_append, ← hrest]
    have hcases := hshape
    cases hcases with
    | part hraw =>
      rw [hraw.preorder_eq, missingColumns_eq_nil (lacksColumns_other (by rw [hraw.tag?_eq]; decide))]
      rfl
    | module hparent hstores =>
      rw [Node.draftChildren_takes ((shape.tag?_toNode).trans hstores.tag?_eq)
        (Component.accepts_tag hparent), ← Assembled.diagnostics hshape hstores.tag?_eq]
      rfl

end

end Shape

/-! ## The blocks of shapes -/

/-- A block with the tag and the default properties of the component that a shape stores. -/
structure Carries (component : Component) (shape : Shape) (block : Block) : Prop where
  stored : shape.tag? = some component.tag
  id : block.id = shape.id
  name : block.name = shape.name
  tag : block.tag = component.tag
  props : block.props = component.defaultProps

/-- A tree of blocks that has all of a tree of shapes, in its nesting and order, except for the two
parts of each button. -/
inductive Reproduces : Shape → Block → Prop
  | module {component : Component} {shape : Shape} {block : Block} : component ≠ .button →
      Carries component shape block → List.Forall₂ Reproduces shape.children block.children →
      Reproduces shape block
  | button {shape background label : Shape} {block : Block} : Carries .button shape block →
      shape.children = [background, label] → background.Raw → label.Raw → block.children = [] →
      Reproduces shape block

namespace Shape

theorem Stores.carries {component : Component} {shape : Shape} {block : Block}
    (h : Stores component shape) (hbuilt : BuiltFrom shape.toNode block) :
    Carries component shape block := by
  have htag := hbuilt.tag
  rw [shape.tag?_toNode, h.tag?_eq, Option.some.injEq] at htag
  exact ⟨h.tag?_eq, hbuilt.id.trans shape.id_toNode, hbuilt.name.trans shape.name_toNode, htag.symm,
    hbuilt.props.trans h.props_toNode⟩

/-- The children that are accepted below a shape: all of them, unless it is a button. -/
theorem accepted_toNode {component : Component} {shape : Shape} (h : Stores component shape)
    (hchildren : ∀ child ∈ shape.children, Assembled (some component.tag) child) :
    shape.toNode.accepted = (shape.children.filter (·.tag?.isSome)).map toNode := by
  have htag : shape.toNode.tag? = some component.tag := shape.tag?_toNode.trans h.tag?_eq
  rw [Node.accepted, Node.accepts_eq htag, children_toNode, toNodes_eq, List.filter_map]
  refine congrArg (List.map toNode) (List.filter_congr fun child hchild => ?_)
  exact (hchildren child hchild).takes

/-- A mirror of an assembled shape has all of it that has a tag. -/
theorem Assembled.reproduces {parent : Option Tag} {shape : Shape} (h : Assembled parent shape) :
    ∀ {block : Block}, shape.tag?.isSome → Mirrors shape.toNode block → Reproduces shape block := by
  induction h with
  | part hraw =>
    intro block htag
    rw [hraw.tag?_eq] at htag
    cases htag
  | module hparent hstores hparts hchildren ih =>
    rename_i component parent shape
    intro block _ hmirrors
    have hcarries := hstores.carries hmirrors.builtFrom
    have hbelow := hmirrors.children
    rw [accepted_toNode hstores hchildren] at hbelow
    by_cases hbutton : component = .button
    · cases hbutton
      obtain ⟨background, label, htwo⟩ := List.length_eq_two.1 (hparts rfl)
      rw [htwo] at hchildren hbelow
      have hbackground := (hchildren background (by simp)).raw
      have hlabel := (hchildren label (by simp)).raw
      refine .button hcarries htwo hbackground hlabel ?_
      simpa [hbackground.tag?_eq, hlabel.tag?_eq] using hbelow
    · have htagged : ∀ child ∈ shape.children, child.tag?.isSome := fun child hchild =>
        (hchildren child hchild).isSome_tag? (by cases component <;> simp [Component.tag] at hbutton ⊢)
      rw [List.filter_eq_self.2 htagged, List.forall₂_map_left_iff] at hbelow
      refine .module hbutton hcarries ?_
      have hall := (List.forall₂_and_left _ _).2 ⟨fun child hchild =>
        show child ∈ shape.children from hchild, hbelow⟩
      exact hall.imp fun child block h => ih child h.1 (htagged child h.1) h.2

end Shape

end Newsletter
