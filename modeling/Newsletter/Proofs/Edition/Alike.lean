/-
Trees that are compiled alike. Two trees are alike if they differ only in what is dropped without a
finding, in what a finding or a block does not mention, and in exports that nobody asks for.
Decorations may be added and removed, so nodes of two alike trees stand at different places, but
their blocks do not. Main statement: alike containers are compiled to the same edition.
-/
import Newsletter.Proofs.Edition.Images

namespace Newsletter

/-! ## Alike trees -/

/-- The characters of the first text shape of a button. -/
def Node.inscription? (node : Node) : Option String :=
  (node.children.find? (·.kind = .text)).bind Node.text?

/-- Two nodes kept with a tag that become the same block, but for the children of the block. Only
the slots of tags and properties count, only texts show their characters, only buttons the
characters below them, and only images are exported. -/
structure SameModule (tag : Tag) (node other : Node) : Prop where
  tagged : node.tag? = some tag ∧ other.tag? = some tag
  id : node.id = other.id
  name : node.name = other.name
  props : node.props = other.props
  text : tag = .text → node.text? = other.text?
  inscription : tag = .button → node.inscription? = other.inscription?
  exporter : tag = .image → node.exporter = other.exporter

mutual

/-- Two nodes kept with a tag, and all below them, that differ in nothing compiling shows. -/
inductive Alike : Tag → Node → Node → Prop
  | mk {tag : Tag} {node other : Node} : SameModule tag node other →
      AlikeBelow tag node.children other.children → Alike tag node other

/-- The children of two nodes kept with a tag. -/
inductive AlikeBelow : Tag → List Node → List Node → Prop
  | nil {parent : Tag} : AlikeBelow parent [] []
  /-- Below a leaf anything can stand. -/
  | leaf {parent : Tag} {nodes others : List Node} : parent.isLeaf = true →
      AlikeBelow parent nodes others
  | kept {parent tag : Tag} {node other : Node} {nodes others : List Node} :
      parent.accepts tag = true → Alike tag node other → AlikeBelow parent nodes others →
      AlikeBelow parent (node :: nodes) (other :: others)
  /-- A decoration of the first container or row. -/
  | decoration {parent : Tag} {node : Node} {nodes others : List Node} :
      parent = .container ∨ parent = .row → node.tag? = none → AlikeBelow parent nodes others →
      AlikeBelow parent (node :: nodes) others
  /-- A decoration of the second one. -/
  | decorationThere {parent : Tag} {other : Node} {nodes others : List Node} :
      parent = .container ∨ parent = .row → other.tag? = none → AlikeBelow parent nodes others →
      AlikeBelow parent nodes (other :: others)
  /-- Children with a tag that does not belong there: the finding mentions their identifier. -/
  | rejected {parent tag : Tag} {node other : Node} {nodes others : List Node} :
      parent.accepts tag = false → node.tag? = some tag → other.tag? = some tag →
      node.id = other.id → AlikeBelow parent nodes others →
      AlikeBelow parent (node :: nodes) (other :: others)
  /-- Children of a column without a tag: the finding mentions their name too. -/
  | untagged {node other : Node} {nodes others : List Node} : node.tag? = none →
      other.tag? = none → node.id = other.id → node.name = other.name →
      AlikeBelow .column nodes others → AlikeBelow .column (node :: nodes) (other :: others)

end

/-! ## Drafts -/

/-- Two nodes of which an image block can get the same export. -/
structure SameSource (node other : Node) : Prop where
  tag : node.tag? = other.tag?
  id : node.id = other.id
  exporter : node.tag? = some .image → node.exporter = other.exporter

/-- Two drafts with the same blocks and findings, from nodes that can be exchanged one by one. -/
structure Draft.Same {α : Type} (draft other : Draft α) : Prop where
  value : draft.value = other.value
  diagnostics : draft.diagnostics = other.diagnostics
  sources : List.Forall₂ SameSource draft.sources other.sources

theorem SameModule.sameSource {tag : Tag} {node other : Node} (h : SameModule tag node other) :
    SameSource node other := by
  refine ⟨h.tagged.1.trans h.tagged.2.symm, h.id, fun htag => h.exporter ?_⟩
  rw [h.tagged.1] at htag
  exact Option.some.inj htag

theorem SameModule.blockText? {tag : Tag} {node other : Node} (h : SameModule tag node other) :
    node.blockText? tag = other.blockText? tag := by
  cases tag with
  | text => rw [Node.blockText?, Node.blockText?, Node.content, Node.content, h.text rfl, h.name]
  | button =>
    have hlabel : node.label = other.label := by
      have hinscription := h.inscription rfl
      unfold Node.inscription? at hinscription
      rw [Node.label, Node.label, hinscription, h.name]
    rw [Node.blockText?, Node.blockText?, hlabel]
  | container | row | column | image | divider | spacer | unrecognized stored => rfl

namespace Node

/-- A child that is ignored leaves the draft of the children as it is. -/
theorem draftChildren_ignore {parent : Tag} {child : Node} (h : Verdict.ofChild parent child = .ignore)
    (rest : List Node) : draftChildren parent (child :: rest) = draftChildren parent rest := by
  rw [draftChildren, h]

theorem draftChildren_reject {parent : Tag} {child : Node} {d : Diagnostic}
    (h : Verdict.ofChild parent child = .reject d) (rest : List Node) :
    draftChildren parent (child :: rest) = (draftChildren parent rest).report d := by
  rw [draftChildren, h]

/-- Leaves are built without looking at their children. -/
theorem draftChildren_leaf {parent : Tag} (h : parent.isLeaf = true) (nodes : List Node) :
    draftChildren parent nodes = Draft.nothing := by
  induction nodes with
  | nil => rw [draftChildren]
  | cons child rest ih =>
    rw [draftChildren_ignore _ rest, ih]
    cases parent with
    | text | button | image | divider | spacer => rfl
    | container | row | column | unrecognized stored => cases h

end Node

/-- Containers and rows ignore their decorations. -/
theorem Verdict.ofChild_decoration {parent : Tag} {child : Node}
    (h : parent = .container ∨ parent = .row) (htag : child.tag? = none) :
    ofChild parent child = .ignore := by
  rcases h with rfl | rfl <;> simp only [ofChild, nested, htag]

/-- Of a child that is rejected for its tag, only the tag and the identifier count. -/
theorem Verdict.ofChild_rejected {parent tag : Tag} {child other : Node}
    (h : parent.accepts tag = false) (htag : child.tag? = some tag) (hother : other.tag? = some tag)
    (hid : child.id = other.id) : ofChild parent child = ofChild parent other ∧
      ∀ kept, ofChild parent child ≠ .keep kept := by
  constructor
  · cases parent <;> simp only [ofChild, nested, inColumn, htag, hother, hid]
  · intro kept hkeep
    obtain ⟨hkept, hacc⟩ := Verdict.ofChild_keep_iff.1 hkeep
    rw [htag] at hkept
    cases hkept
    rw [h] at hacc
    cases hacc

mutual

/-- The drafts of alike nodes are the same, by induction on what makes them alike. -/
theorem Alike.draft : ∀ {tag : Tag} {node other : Node}, Alike tag node other →
    (node.draft tag).Same (other.draft tag)
  | tag, node, other, .mk hsame hbelow => by
    have ih := hbelow.draftChildren
    rw [Node.draft_eq node, Node.draft_eq other]
    refine ⟨?_, ?_, .cons hsame.sameSource ih.sources⟩
    · dsimp only
      rw [hsame.id, hsame.name, hsame.props, hsame.blockText?, ih.value]
    · dsimp only
      rw [ih.diagnostics, ih.value, Node.closing, Node.closing, hsame.id, hsame.name]

theorem AlikeBelow.draftChildren : ∀ {parent : Tag} {nodes others : List Node},
    AlikeBelow parent nodes others →
    (Node.draftChildren parent nodes).Same (Node.draftChildren parent others)
  | _, _, _, .nil => ⟨rfl, rfl, .nil⟩
  | _, nodes, others, .leaf hleaf => by
    rw [Node.draftChildren_leaf hleaf nodes, Node.draftChildren_leaf hleaf others]
    exact ⟨rfl, rfl, .nil⟩
  | _, _ :: nodes, _ :: others, .kept hacc halike hrest => by
    have hchild := halike.draft
    have ih := hrest.draftChildren
    obtain ⟨hsame, -⟩ := halike
    rw [Node.draftChildren_takes hsame.tagged.1 hacc, Node.draftChildren_takes hsame.tagged.2 hacc]
    refine ⟨?_, ?_, List.rel_append hchild.sources ih.sources⟩
    · simp only [Draft.cons, hchild.value, ih.value]
    · simp only [Draft.cons, hchild.diagnostics, ih.diagnostics]
  | _, _ :: nodes, _, .decoration hparent htag hrest => by
    rw [Node.draftChildren_ignore (Verdict.ofChild_decoration hparent htag)]
    exact hrest.draftChildren
  | _, _, _ :: others, .decorationThere hparent htag hrest => by
    rw [Node.draftChildren_ignore (Verdict.ofChild_decoration hparent htag)]
    exact hrest.draftChildren
  | parent, node :: nodes, other :: others, .rejected hacc htag hother hid hrest => by
    have ih := hrest.draftChildren
    obtain ⟨hsame, hdropped⟩ := Verdict.ofChild_rejected hacc htag hother hid
    cases hverdict : Verdict.ofChild parent node with
    | keep kept => exact absurd hverdict (hdropped kept)
    | reject d =>
      rw [Node.draftChildren_reject hverdict, Node.draftChildren_reject (hsame ▸ hverdict)]
      exact ⟨ih.value, congrArg (d :: ·) ih.diagnostics, ih.sources⟩
    | ignore =>
      rw [Node.draftChildren_ignore hverdict, Node.draftChildren_ignore (hsame ▸ hverdict)]
      exact ih
  | _, node :: nodes, other :: others, .untagged htag hother hid hname hrest => by
    have ih := hrest.draftChildren
    have hverdict : Verdict.ofChild .column node = .reject (.untagged node.id node.name) := by
      simp only [Verdict.ofChild, Verdict.inColumn, htag]
    have hthere : Verdict.ofChild .column other = .reject (.untagged node.id node.name) := by
      simp only [Verdict.ofChild, Verdict.inColumn, hother, hid, hname]
    rw [Node.draftChildren_reject hverdict, Node.draftChildren_reject hthere]
    exact ⟨ih.value, congrArg (_ :: ·) ih.diagnostics, ih.sources⟩

end

/-! ## Extractions -/

/-- Two extractions with the same results; their calls may name other nodes. -/
structure Extraction.Same {α : Type} (extraction other : Extraction α) : Prop where
  value : extraction.value = other.value
  assets : extraction.assets = other.assets
  diagnostics : extraction.diagnostics = other.diagnostics

theorem Extraction.Same.andThen {α β γ : Type} {first first' : Extraction α}
    {second second' : Extraction β} (h : first.Same first') (h' : second.Same second')
    (join : α → β → γ) : (first.andThen second join).Same (first'.andThen second' join) := by
  refine ⟨?_, ?_, ?_⟩
  · simp only [Extraction.andThen, h.value, h'.value]
  · simp only [Extraction.andThen, h.assets, h'.assets]
  · simp only [Extraction.andThen, h.diagnostics, h'.diagnostics]

namespace ExportJob

/-- All that an extraction reads of a node. -/
def view (node : Node) : String × Option (ExportRequest → Except ExportError Bytes) :=
  (node.id, node.exporter)

theorem ask_sourceOf (job : ExportJob) {sources others : List Node}
    (h : sources.head?.map view = others.head?.map view) (block : Block) :
    (job.ask (sourceOf sources block)).1 = (job.ask (sourceOf others block)).1 := by
  unfold sourceOf
  cases hsource : sources.head? with
  | none =>
    rw [hsource] at h
    rw [Option.map_eq_none_iff.1 h.symm]
  | some node =>
    rw [hsource] at h
    obtain ⟨other, hother, hview⟩ := Option.map_eq_some_iff.1 h.symm
    obtain ⟨hid, hexporter⟩ := Prod.mk.inj hview
    rw [hother, Option.filter_some, Option.filter_some, hid]
    split
    · unfold ask
      dsimp only
      rw [hexporter]
      cases node.exporter <;> rfl
    · rfl

theorem extractImage_congr (job : ExportJob) {source other : Option Node}
    (h : (job.ask source).1 = (job.ask other).1) (position : Nat) (block : Block) :
    (job.extractImage source position block).Same (job.extractImage other position block) := by
  unfold extractImage
  generalize job.ask source = asked at h ⊢
  generalize job.ask other = asked' at h ⊢
  obtain ⟨result, calls⟩ := asked
  obtain ⟨result', calls'⟩ := asked'
  cases h
  cases result with
  | error e => exact ⟨rfl, rfl, rfl⟩
  | ok bytes => exact ⟨rfl, rfl, rfl⟩

/-- Two lists of sources that look the same wherever an image stands among blocks. -/
def SameExports (blocks : List Block) (sources others : List Node) : Prop :=
  ∀ (k : Nat) (block : Block), blocks[k]? = some block → block.tag = .image →
    sources[k]?.map view = others[k]?.map view

theorem SameExports.drop {first second : List Block} {sources others : List Node}
    (h : SameExports (first ++ second) sources others) :
    SameExports second (sources.drop first.length) (others.drop first.length) := by
  intro k block hk himage
  rw [List.getElem?_drop, List.getElem?_drop]
  refine h (first.length + k) block ?_ himage
  rw [List.getElem?_append_right (by omega), Nat.add_sub_cancel_left]
  exact hk

theorem SameExports.left {first second : List Block} {sources others : List Node}
    (h : SameExports (first ++ second) sources others) : SameExports first sources others := by
  intro k block hk
  refine h k block ?_
  rw [List.getElem?_append_left (List.getElem?_eq_some_iff.1 hk).1]
  exact hk

theorem extractOne_congr (job : ExportJob) {block : Block} {blocks : List Block}
    {sources others : List Node} (h : SameExports (block :: blocks) sources others) (images : Nat) :
    (job.extractOne sources images block).Same (job.extractOne others images block) := by
  unfold extractOne
  split
  · rename_i himage
    refine job.extractImage_congr (job.ask_sourceOf ?_ block) _ _
    rw [List.head?_eq_getElem?, List.head?_eq_getElem?]
    exact h 0 block rfl himage
  · exact ⟨rfl, rfl, rfl⟩

mutual

/-- An extraction depends only on what its images can see of their sources. -/
theorem extract_congr (job : ExportJob) : ∀ (block : Block) {sources others : List Node}
    (images : Nat), SameExports block.preorder sources others →
    (job.extract sources images block).Same (job.extract others images block)
  | block@{ tag, id, name, props, text, children }, sources, others, images, h => by
    rw [Block.preorder] at h
    have hbelow : SameExports (Block.preorderList children) (sources.drop 1) (others.drop 1) :=
      SameExports.drop (List.singleton_append ▸ h)
    have hchildren :=
      extractList_congr job children (images + if tag = .image then 1 else 0) hbelow
    rw [extract, extract]
    exact (job.extractOne_congr h images).andThen hchildren _

theorem extractList_congr (job : ExportJob) : ∀ (blocks : List Block) {sources others : List Node}
    (images : Nat), SameExports (Block.preorderList blocks) sources others →
    (job.extractList sources images blocks).Same (job.extractList others images blocks)
  | [], _, _, _, _ => ⟨rfl, rfl, rfl⟩
  | block :: blocks, sources, others, images, h => by
    rw [Block.preorderList] at h
    rw [extractList, extractList]
    exact (extract_congr job block images h.left).andThen
      (extractList_congr job blocks (images + block.imageCount) h.drop) _

end

end ExportJob

/-! ## Editions -/

namespace Edition

/-- The sources of alike containers look the same wherever an image stands in their draft. -/
theorem sameExports_sources {root other : Node} (h : Alike .container root other) :
    ExportJob.SameExports (root.draft .container).value.preorder (root.draft .container).sources
      (other.draft .container).sources := by
  have hsources := h.draft.sources
  obtain ⟨hsame, -⟩ := h
  have hmirrors := (Node.mirrors_draft root .container hsame.tagged.1).preorder
  rw [← Node.sources_draft root .container hsame.tagged.1] at hmirrors
  intro k block hk himage
  obtain ⟨node, hnode, hbuilt⟩ := forall₂_getElem? hmirrors.flip hk
  obtain ⟨there, hthere, hsource⟩ := forall₂_getElem? hsources hnode
  have htag : node.tag? = some .image := by rw [hbuilt.builtFrom.tag, himage]
  rw [hnode, hthere, Option.map_some, Option.map_some, ExportJob.view, ExportJob.view, hsource.id,
    hsource.exporter htag]

/-- Containers that differ only in what is dropped, in what is not mentioned and in what is not
exported are compiled to the same edition. -/
theorem compile_alike {root other : Node} (h : Alike .container root other) (settings : Settings) :
    ∃ edition, compile settings root = .ok edition ∧ compile settings other = .ok edition := by
  have hdraft := h.draft
  have hextraction : (extraction settings root).Same (extraction settings other) := by
    have hcongr := (job settings).extract_congr _ 0 (sameExports_sources h)
    rw [hdraft.value] at hcongr
    unfold extraction
    dsimp only
    rw [hdraft.value]
    exact hcongr
  obtain ⟨hsame, -⟩ := h
  refine ⟨_, if_pos hsame.tagged.1, ?_⟩
  rw [compile, if_pos hsame.tagged.2]
  dsimp only
  rw [hextraction.value, hextraction.assets, hextraction.diagnostics, hdraft.diagnostics]

/-- A shape without a tag, and with a tagged one below it. -/
def backdrop : Node :=
  { Node.tagged .text [.tagged .row []] with slots := fun _ => none, exporter := some fun _ => .ok [] }

/-- A text shape inside a button. -/
def inscription : Node :=
  { Node.tagged .spacer [] with kind := .text, characters := some "Read on" }

/-- A column with a picture, a button and a row, which does not belong there. -/
def plainColumn : Node :=
  .tagged .column [{ Node.tagged .image [] with exporter := some fun _ => .ok [137] },
    .tagged .button [inscription], .tagged .row []]

/-- The same column with another version, other kinds and characters, and more below what is not
looked at. -/
def dressedColumn : Node :=
  { Node.tagged .column
      [{ Node.tagged .image [backdrop] with kind := .board, exporter := some fun _ => .ok [137] },
        { Node.tagged .button [backdrop, inscription, backdrop] with
          exporter := some fun _ => .ok [1], characters := some "unread" },
        { Node.tagged .row [.tagged .column []] with name := "Stray" }] with
    slots := fun slot =>
      if slot = Slot.tag then some Tag.column.toText
      else if slot = Slot.version then some "9" else none }

/-- Decorations around the dressed column and its row. -/
def dressed : Node :=
  { Node.tagged .container [backdrop, .tagged .row [backdrop, dressedColumn], backdrop] with
    kind := .board }

theorem compile_alike_dressed :
    Alike .container (.tagged .container [.tagged .row [plainColumn]]) dressed ∧
      ∃ edition, compile .standard (.tagged .container [.tagged .row [plainColumn]]) = .ok edition ∧
        compile .standard dressed = .ok edition := by
  have hcolumn : Alike .column plainColumn dressedColumn := by
    have haccepts : Tag.accepts .column .image = true ∧ Tag.accepts .column .button = true ∧
        Tag.accepts .column .row = false := by decide
    refine .mk ⟨⟨by decide, by decide⟩, rfl, rfl, rfl, nofun, nofun, nofun⟩
      (.kept haccepts.1 ?_ (.kept haccepts.2.1 ?_
        (.rejected haccepts.2.2 (by decide) (by decide) rfl .nil)))
    · exact .mk ⟨⟨by decide, by decide⟩, rfl, rfl, rfl, nofun, nofun, fun _ => rfl⟩ (.leaf rfl)
    · exact .mk ⟨⟨by decide, by decide⟩, rfl, rfl, rfl, nofun, fun _ => rfl, nofun⟩ (.leaf rfl)
  have hrow : Alike .row (.tagged .row [plainColumn]) (.tagged .row [backdrop, dressedColumn]) :=
    .mk ⟨⟨by decide, by decide⟩, rfl, rfl, rfl, nofun, nofun, nofun⟩
      (.decorationThere (.inr rfl) rfl (.kept rfl hcolumn .nil))
  have halike : Alike .container (.tagged .container [.tagged .row [plainColumn]]) dressed :=
    .mk ⟨⟨by decide, by decide⟩, rfl, rfl, rfl, nofun, nofun, nofun⟩
      (.decorationThere (.inl rfl) rfl (.kept rfl hrow (.decorationThere (.inl rfl) rfl .nil)))
  exact ⟨halike, compile_alike halike .standard⟩

end Edition

end Newsletter
