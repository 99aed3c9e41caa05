/-
Hosts of design trees. A host has to tell identity, kind, slots and children of its items; characters
and exports are optional, and a host that does not have them offers none. Main statement: through such
a host a tree is compiled as stored shapes are whose characters and images have been deleted.
-/
import Newsletter.Proofs.Draft.Assembled
import Newsletter.Proofs.Edition.Stripped

namespace Newsletter

/-! ## Hosts -/

/-- What every host tells about its items. -/
structure Host (σ : Type) where
  id : σ → String
  name : σ → String
  kind : σ → ShapeKind
  slots : σ → Slots
  children : σ → List σ

/-- What a host may offer for its items beside that. By default it offers nothing. -/
structure Offers (σ : Type) where
  characters : σ → Option String := fun _ => none
  exporter : σ → Option (ExportRequest → Except ExportError Bytes) := fun _ => none

namespace Host

variable {σ : Type}

/-- A host shows an item, and all items below it, as a node. -/
inductive Shows (host : Host σ) (offers : Offers σ) : σ → Node → Prop
  | mk {item : σ} {children : List Node} :
      List.Forall₂ (Shows host offers) (host.children item) children →
      Shows host offers item
        { id := host.id item, name := host.name item, kind := host.kind item,
          slots := host.slots item, characters := offers.characters item,
          exporter := offers.exporter item, children }

/-- What compiling the tree below an item gives. -/
def Compiles (host : Host σ) (offers : Offers σ) (settings : Settings) (item : σ)
    (outcome : Except CompileError Edition) : Prop :=
  ∃ node, host.Shows offers item node ∧ Edition.compile settings node = outcome

theorem shows_iff {host : Host σ} {offers : Offers σ} {item : σ} {node : Node} :
    host.Shows offers item node ↔
      List.Forall₂ (host.Shows offers) (host.children item) node.children ∧
        node = { id := host.id item, name := host.name item, kind := host.kind item,
                 slots := host.slots item, characters := offers.characters item,
                 exporter := offers.exporter item, children := node.children } := by
  constructor
  · rintro ⟨hchildren⟩
    exact ⟨hchildren, rfl⟩
  · rintro ⟨hchildren, hnode⟩
    rw [hnode]
    exact .mk hchildren

mutual

/-- A host has an item with the identity, kind, slots and children of a stored shape. -/
def Exposes (host : Host σ) (item : σ) : Shape → Prop
  | { id, name, kind, slots, children, .. } =>
    host.id item = id ∧ host.name item = name ∧ host.kind item = kind ∧
      host.slots item = slots.get? ∧ ExposesAll host (host.children item) children
termination_by structural shape => shape

def ExposesAll (host : Host σ) : List σ → List Shape → Prop
  | [], [] => True
  | item :: items, shape :: shapes => Exposes host item shape ∧ ExposesAll host items shapes
  | _, _ => False
termination_by structural _ shapes => shapes

end

end Host

/-! ## Stored shapes -/

namespace Shape

/-- Stored shapes as items of a host. -/
def host : Host Shape where
  id := Shape.id
  name := Shape.name
  kind := Shape.kind
  slots shape := shape.slots.get?
  children := Shape.children

/-- Stored shapes offer their characters and their images. -/
def offers : Offers Shape where
  characters := Shape.characters
  exporter shape := shape.png.map exportImage

mutual

/-- A shape without characters and image, and all below it. -/
def stripped : Shape → Shape
  | { id, name, kind, slots, children, .. } =>
    { id, name, kind, characters := none, slots, children := strippedAll children, png := none }
termination_by structural shape => shape

def strippedAll : List Shape → List Shape
  | [] => []
  | shape :: shapes => stripped shape :: strippedAll shapes
termination_by structural shapes => shapes

end

mutual

theorem toNode_stripped : ∀ shape : Shape, shape.stripped.toNode = shape.toNode.stripped
  | { id, name, kind, characters, slots, children, png } => by
    rw [stripped, toNode, toNodes_strippedAll children]
    rfl

theorem toNodes_strippedAll : ∀ shapes : List Shape,
    toNodes (strippedAll shapes) = Node.strippedAll (toNodes shapes)
  | [] => rfl
  | shape :: shapes => by
    rw [strippedAll, toNodes, toNode_stripped shape, toNodes_strippedAll shapes]
    rfl

end

mutual

/-- A stored shape is shown as its node, and as nothing else. -/
theorem shows_iff : ∀ {shape : Shape} {node : Node},
    host.Shows offers shape node ↔ node = shape.toNode
  | { id, name, kind, characters, slots, children, png }, node => by
    rw [Host.shows_iff, toNode]
    change List.Forall₂ (host.Shows offers) children node.children ∧ _ ↔ _
    rw [showsAll_iff]
    constructor
    · rintro ⟨hchildren, hnode⟩
      rw [hnode, hchildren]
      rfl
    · rintro rfl
      exact ⟨rfl, rfl⟩

theorem showsAll_iff : ∀ {shapes : List Shape} {nodes : List Node},
    List.Forall₂ (host.Shows offers) shapes nodes ↔ nodes = toNodes shapes
  | [], nodes => by rw [List.forall₂_nil_left_iff]; rfl
  | shape :: shapes, nodes => by
    rw [List.forall₂_cons_left_iff, toNodes]
    constructor
    · rintro ⟨node, rest, hnode, hrest, rfl⟩
      rw [shows_iff.1 hnode, showsAll_iff.1 hrest]
    · rintro rfl
      exact ⟨_, _, shows_iff.2 rfl, showsAll_iff.2 rfl, rfl⟩

end

end Shape

/-! ## Hosts that offer nothing -/

namespace Host

variable {σ : Type} {host : Host σ}

mutual

/-- Without offers, an item is shown as the shape it exposes is shown when that is stripped. -/
theorem shows_stripped_iff : ∀ {shape : Shape} {item : σ} {node : Node}, host.Exposes item shape →
    (host.Shows {} item node ↔ Shape.host.Shows Shape.offers shape.stripped node)
  | { id, name, kind, characters, slots, children, png }, item, node, h => by
    obtain ⟨hid, hname, hkind, hslots, hchildren⟩ := h
    rw [shows_iff, shows_iff, showsAll_stripped_iff hchildren, hid, hname, hkind, hslots]
    rfl

theorem showsAll_stripped_iff : ∀ {shapes : List Shape} {items : List σ} {nodes : List Node},
    host.ExposesAll items shapes →
    (List.Forall₂ (host.Shows {}) items nodes ↔
      List.Forall₂ (Shape.host.Shows Shape.offers) (Shape.strippedAll shapes) nodes)
  | [], [], nodes, _ => by
    rw [List.forall₂_nil_left_iff, Shape.strippedAll, List.forall₂_nil_left_iff]
  | shape :: shapes, item :: items, nodes, h => by
    rw [List.forall₂_cons_left_iff, Shape.strippedAll, List.forall₂_cons_left_iff]
    simp only [shows_stripped_iff h.1, showsAll_stripped_iff h.2]

end

/-- Compiling through a host that offers nothing, against the shape that the host exposes. -/
structure CompilesStripped (host : Host σ) (settings : Settings) (item : σ) (shape : Shape) :
    Prop where
  /-- The outcome is that of the shape without all characters and images. -/
  same : ∀ outcome, host.Compiles {} settings item outcome ↔
    Shape.host.Compiles Shape.offers settings shape.stripped outcome
  /-- There is one outcome, and it is computed. -/
  outcome : ∀ outcome, host.Compiles {} settings item outcome ↔
    Edition.compile settings shape.stripped.toNode = outcome
  refused : shape.tag? ≠ some .container →
    host.Compiles {} settings item (.error (.notAContainer shape.id))
  /-- Texts and buttons fall back on their names, no image is exported, and each is a finding; the
  blocks and the other findings are those of the shape as it is. -/
  edition : shape.tag? = some .container → ∃ edition,
    host.Compiles {} settings item (.ok edition) ∧
      edition.block = (shape.toNode.draft .container).value.captioned ∧
      edition.markup = edition.block.render ∧ edition.assets = [] ∧
      edition.diagnostics = (shape.toNode.draft .container).diagnostics ++
        (Node.images shape.toNode.kept).map fun node => .notExported node.id node.name

/-- What a host does not offer is handled as absent. -/
theorem compiles_stripped {item : σ} {shape : Shape} (h : host.Exposes item shape)
    (settings : Settings) : host.CompilesStripped settings item shape := by
  have houtcome : ∀ outcome, host.Compiles {} settings item outcome ↔
      Edition.compile settings shape.stripped.toNode = outcome := by
    intro outcome
    unfold Compiles
    simp only [shows_stripped_iff h, Shape.shows_iff, exists_eq_left]
  refine ⟨fun outcome => ?_, houtcome, fun htag => ?_, fun htag => ?_⟩
  · unfold Compiles
    simp only [shows_stripped_iff h]
  · rw [houtcome, Shape.toNode_stripped, Edition.compile, Node.tag?_stripped, Shape.tag?_toNode,
      if_neg htag, Node.id_stripped, Shape.id_toNode]
  · have hnode := shape.tag?_toNode.trans htag
    obtain ⟨edition, hcompile, hblock, hassets, hdiagnostics⟩ :=
      Edition.compile_stripped settings hnode
    rw [← Shape.toNode_stripped] at hcompile
    exact ⟨edition, (houtcome _).2 hcompile, hblock, Edition.markup_of_compile hcompile, hassets,
      hdiagnostics⟩

/-- A letter with a text, an image and a button without a name, but with a label. -/
def letter : Shape :=
  let text := (Shape.ofText "3" "Greeting" "Hello").setTag .text .empty
  let image := ((Shape.plain "4" "Hero" .rectangle).setTag .image .empty).setPng [7, 7]
  let button := ((Shape.plain "5" "" .group).setTag .button .empty).addChild
    (Shape.ofText "6" "Label" "Buy")
  let column := (Shape.plain "2" "Column" .group).setTag .column .empty
  let row := (Shape.plain "1" "Row" .group).setTag .row .empty
  ((Shape.plain "0" "Letter" .board).setTag .container .empty).addChild
    (row.addChild (((column.addChild text).addChild image).addChild button))

/-- The same letter in a host whose items are numbers. -/
def numbered : Host ℕ where
  id n := ["0", "1", "2", "3", "4", "5", "6"].getD n ""
  name n := ["Letter", "Row", "Column", "Greeting", "Hero", "", "Label"].getD n ""
  kind n := [.board, .group, .group, .text, .rectangle, .group, .text].getD n .other
  slots n :=
    (([.container, .row, .column, .text, .image, .button].map fun tag =>
      Dict.empty.setTag tag .empty).getD n Dict.empty).get?
  children n := [[1], [2], [3, 4, 5], [], [], [6]].getD n []

theorem compiles_stripped_letter : numbered.Exposes 0 letter ∧ ∃ edition,
    numbered.Compiles {} .standard 0 (.ok edition) ∧
      edition.block.preorder.map (·.text) =
        [none, none, none, some "Greeting", none, some "Button"] ∧
      edition.assets = [] ∧ edition.diagnostics = [.notExported "4" "Hero"] := by
  have hexposes : numbered.Exposes 0 letter := by
    refine ⟨rfl, rfl, rfl, rfl, ⟨rfl, rfl, rfl, rfl, ⟨rfl, rfl, rfl, rfl, ?_⟩, trivial⟩, trivial⟩
    exact ⟨⟨rfl, rfl, rfl, rfl, trivial⟩, ⟨rfl, rfl, rfl, rfl, trivial⟩,
      ⟨rfl, rfl, rfl, rfl, ⟨rfl, rfl, rfl, rfl, trivial⟩, trivial⟩, trivial⟩
  obtain ⟨edition, hcompiles, hblock, -, hassets, hdiagnostics⟩ :=
    (compiles_stripped hexposes .standard).edition (by decide +kernel)
  refine ⟨hexposes, edition, hcompiles, ?_, hassets, ?_⟩
  · rw [hblock]
    decide +kernel
  · rw [hdiagnostics]
    decide +kernel

end Host

end Newsletter
