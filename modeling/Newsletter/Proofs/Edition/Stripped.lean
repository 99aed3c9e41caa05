/-
Editions of nodes that offer no exports. Main statement: where nodes offer neither exports nor
characters, the same blocks are built and the same findings are made as with them, but texts and
buttons say what their names say, and every image is a finding.
-/
import Newsletter.Proofs.Edition.Images

namespace Newsletter

/-! ## Nodes without exports -/

namespace Edition

/-- The edition of a container whose nodes offer no exports: its draft, with a finding for each of
its images. -/
theorem compile_unexported (settings : Settings) {root : Node} (htag : root.tag? = some .container)
    (hkept : ∀ node ∈ root.kept, node.exporter = none) :
    ∃ edition, compile settings root = .ok edition ∧
      edition.block = (root.draft .container).value ∧ edition.assets = [] ∧
      edition.diagnostics = (root.draft .container).diagnostics ++
        (Node.images root.kept).map fun node => .notExported node.id node.name := by
  obtain ⟨steps, hflat, hown⟩ := extraction_exportsOwn settings htag
  have hexported : ∀ node ∈ Node.images root.kept, (job settings).exported node = none := by
    intro node hnode
    unfold ExportJob.exported
    rw [hkept node (List.mem_of_mem_filter hnode), Option.bind_none]
  have hassets : (extraction settings root).assets = [] := by
    rw [hflat.assets, hown.assets, ExportJob.numberedAssets, List.flatMap_eq_nil_iff]
    rintro ⟨node, position⟩ hmem
    dsimp only
    rw [hexported node (List.fst_mem_of_mem_zipIdx hmem)]
    rfl
  have hfindings : (extraction settings root).diagnostics =
      (Node.images root.kept).map fun node => .notExported node.id node.name := by
    rw [hflat.diagnostics, hown.diagnostics, filter_notExported, List.filter_eq_self.2]
    intro node hnode
    rw [hexported node hnode]
    rfl
  refine ⟨_, if_pos htag, ?_, hassets, ?_⟩
  · refine ExportJob.extract_unexported _ _ _ _ ?_
    rw [Node.sources_draft root .container htag]
    exact hkept
  · exact congrArg ((root.draft .container).diagnostics ++ ·) hfindings

end Edition

/-! ## Nodes without exports and characters -/

namespace Node

mutual

/-- A node without characters and export, and all below it. -/
def stripped : Node → Node
  | { id, name, kind, slots, children, .. } =>
    { id, name, kind, slots, characters := none, exporter := none, children := strippedAll children }
termination_by structural node => node

def strippedAll : List Node → List Node
  | [] => []
  | node :: nodes => stripped node :: strippedAll nodes
termination_by structural nodes => nodes

end

variable (node : Node)

@[simp] theorem id_stripped : node.stripped.id = node.id := by cases node; rfl

@[simp] theorem name_stripped : node.stripped.name = node.name := by cases node; rfl

@[simp] theorem tag?_stripped : node.stripped.tag? = node.tag? := by cases node; rfl

@[simp] theorem props_stripped : node.stripped.props = node.props := by cases node; rfl

@[simp] theorem children_stripped : node.stripped.children = strippedAll node.children := by
  cases node; rfl

@[simp] theorem exporter_stripped : node.stripped.exporter = none := by cases node; rfl

@[simp] theorem text?_stripped : node.stripped.text? = none := by cases node; rfl

theorem takes_stripped (parent : Tag) : parent.takes node.stripped = parent.takes node := by
  rw [Tag.takes, Tag.takes, tag?_stripped]

theorem ofChild_stripped (parent : Tag) :
    Verdict.ofChild parent node.stripped = Verdict.ofChild parent node := by
  cases node
  rfl

end Node

/-! ## Captions -/

/-- The text that a name gives to a block with a tag. -/
def Tag.caption? (tag : Tag) (name : String) : Option String :=
  match tag with
  | .text => some name
  | .button => some (if name = "" then Node.defaultLabel else name)
  | _ => none

namespace Block

mutual

/-- A block and all below it with the texts that their names give. -/
def captioned : Block → Block
  | { tag, id, name, props, children, .. } =>
    { tag, id, name, props, text := tag.caption? name, children := captionedAll children }
termination_by structural block => block

def captionedAll : List Block → List Block
  | [] => []
  | block :: blocks => captioned block :: captionedAll blocks
termination_by structural blocks => blocks

end

end Block

namespace Node

/-- No shape below a stripped button has a label. -/
theorem find?_strippedAll (nodes : List Node) (p : Node → Bool) :
    ((strippedAll nodes).find? p).bind text? = none := by
  induction nodes with
  | nil => rfl
  | cons node nodes ih =>
    rw [strippedAll, List.find?_cons]
    cases p node.stripped with
    | true => exact node.text?_stripped
    | false => exact ih

theorem blockText?_stripped (tag : Tag) (node : Node) :
    node.stripped.blockText? tag = tag.caption? node.name := by
  obtain ⟨id, name, kind, slots, characters, exporter, children⟩ := node
  cases tag with
  | button =>
    unfold blockText? label stripped
    dsimp only
    rw [find?_strippedAll]
    rfl
  | text | container | row | column | image | divider | spacer | unrecognized stored => rfl

/-- The blocks of another draft with the texts that their names give, and the same findings. -/
structure Recaptions (draft other : Draft Block) : Prop where
  value : draft.value = other.value.captioned
  diagnostics : draft.diagnostics = other.diagnostics

structure RecaptionsAll (draft other : Draft (List Block)) : Prop where
  value : draft.value = Block.captionedAll other.value
  diagnostics : draft.diagnostics = other.diagnostics

theorem closing_stripped (tag : Tag) (node : Node) (blocks : List Block) :
    node.stripped.closing tag (Block.captionedAll blocks) = node.closing tag blocks := by
  cases blocks <;> simp [closing, Block.captionedAll]

mutual

theorem recaptions_stripped : ∀ (node : Node) (tag : Tag),
    Recaptions (node.stripped.draft tag) (node.draft tag)
  | { id, name, kind, slots, characters, exporter, children }, tag => by
    have ih := recaptionsAll_strippedAll children tag
    rw [draft_eq, draft_eq, blockText?_stripped, children_stripped, id_stripped, name_stripped,
      props_stripped]
    constructor
    · rw [ih.value]
      rfl
    · rw [ih.value, ih.diagnostics, closing_stripped]

theorem recaptionsAll_strippedAll : ∀ (nodes : List Node) (parent : Tag),
    RecaptionsAll (draftChildren parent (strippedAll nodes)) (draftChildren parent nodes)
  | [], parent => ⟨rfl, rfl⟩
  | node :: nodes, parent => by
    have ih := recaptionsAll_strippedAll nodes parent
    rw [strippedAll, draftChildren, draftChildren, ofChild_stripped]
    cases Verdict.ofChild parent node with
    | keep tag =>
      have hnode := recaptions_stripped node tag
      exact ⟨congrArg₂ List.cons hnode.value ih.value,
        congrArg₂ List.append hnode.diagnostics ih.diagnostics⟩
    | reject d => exact ⟨ih.value, congrArg (d :: ·) ih.diagnostics⟩
    | ignore => exact ih

end

mutual

theorem kept_stripped : ∀ node : Node, node.stripped.kept = node.kept.map stripped
  | { id, name, kind, slots, characters, exporter, children } => by
    rw [stripped, kept, kept, List.map_cons]
    exact congrArg (_ :: ·) (keptAmong_stripped _ children)

theorem keptAmong_stripped (parent : Option Tag) : ∀ nodes : List Node,
    keptAmong parent (strippedAll nodes) = (keptAmong parent nodes).map stripped
  | [] => rfl
  | node :: nodes => by
    have ih := keptAmong_stripped parent nodes
    rw [strippedAll, keptAmong, keptAmong, kept_stripped node, ih]
    simp only [takes_stripped]
    split
    · rw [List.map_append]
    · rfl

end

end Node

/-! ## Editions -/

namespace Edition

theorem markup_of_compile {settings : Settings} {root : Node} {edition : Edition}
    (h : compile settings root = .ok edition) : edition.markup = edition.block.render := by
  unfold compile at h
  split at h
  · cases h
    rfl
  · cases h

/-- Without exports and characters, a container is compiled to the blocks of its draft with the texts
that their names give; no image is exported, and nothing else is found. -/
theorem compile_stripped (settings : Settings) {root : Node} (htag : root.tag? = some .container) :
    ∃ edition, compile settings root.stripped = .ok edition ∧
      edition.block = (root.draft .container).value.captioned ∧ edition.assets = [] ∧
      edition.diagnostics = (root.draft .container).diagnostics ++
        (Node.images root.kept).map fun node => .notExported node.id node.name := by
  have hstripped : ∀ node ∈ root.stripped.kept, node.exporter = none := by
    intro node hnode
    rw [Node.kept_stripped] at hnode
    obtain ⟨inner, -, rfl⟩ := List.mem_map.1 hnode
    exact inner.exporter_stripped
  have himages :
      (Node.images root.stripped.kept).map (fun node => Diagnostic.notExported node.id node.name) =
        (Node.images root.kept).map fun node => .notExported node.id node.name := by
    rw [Node.kept_stripped, Node.images, Node.images, List.filter_map, List.map_map]
    simp [Function.comp_def]
  obtain ⟨edition, hcompile, hblock, hassets, hdiagnostics⟩ :=
    compile_unexported settings (root.tag?_stripped.trans htag) hstripped
  have hdraft := Node.recaptions_stripped root .container
  rw [hdraft.value] at hblock
  rw [hdraft.diagnostics, himages] at hdiagnostics
  exact ⟨edition, hcompile, hblock, hassets, hdiagnostics⟩

end Edition

end Newsletter
