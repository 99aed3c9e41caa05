/-
Which picture an image of a compiled newsletter shows. Main statement: the image elements of the
markup are the kept image nodes of the tree, in the same order; each refers to the asset of its own
number with the bytes its own node exported, or, where that failed, keeps what its own properties
say, and nothing else is among the assets.
-/
import Newsletter.Proofs.Block.Forest
import Newsletter.Proofs.Extraction.Pass

namespace Newsletter

/-! ## Tags of markup -/

namespace Markup

mutual

/-- The names and attributes of the elements of a piece of markup, in the order of the text. -/
def tags : Markup → List (String × List (String × String))
  | .text _ => []
  | .element name attributes children => (name, attributes) :: tagsList children
  | .void name attributes => [(name, attributes)]
termination_by structural markup => markup

/-- The names and attributes of the elements of pieces one after the other. -/
def tagsList : List Markup → List (String × List (String × String))
  | [] => []
  | piece :: pieces => tags piece ++ tagsList pieces
termination_by structural pieces => pieces

end

theorem tagsList_append (first second : List Markup) :
    tagsList (first ++ second) = tagsList first ++ tagsList second := by
  induction first with
  | nil => rfl
  | cons piece pieces ih => rw [List.cons_append, tagsList, tagsList, ih, List.append_assoc]

theorem tagsList_ofText (content : String) : tagsList (ofText content) = [] := by
  unfold ofText
  split
  · rfl
  · rfl

/-- The attributes of the image elements, in the order of the text. -/
def images (forest : List Markup) : List (List (String × String)) :=
  ((tagsList forest).filter (·.1 = "mj-image")).map Prod.snd

theorem images_append (first second : List Markup) :
    images (first ++ second) = images first ++ images second := by
  rw [images, tagsList_append, List.filter_append, List.map_append]; rfl

theorem images_element {name : String} (h : name ≠ "mj-image") (attributes : List (String × String))
    (children : List Markup) : images [.element name attributes children] = images children := by
  unfold images
  rw [tagsList, tags, tagsList, List.append_nil, List.filter_cons_of_neg (by simpa using h)]

theorem images_ofText (content : String) : images (ofText content) = [] := by
  rw [images, tagsList_ofText]; rfl

end Markup

/-! ## Images of blocks -/

namespace Block

open Attribute (ofProps)

/-- The attributes of the images among blocks. -/
def imageAttributes (blocks : List Block) : List (List (String × String)) :=
  (images blocks).map fun block => ofProps .image block.props

theorem imageAttributes_append (first second : List Block) :
    imageAttributes (first ++ second) = imageAttributes first ++ imageAttributes second := by
  rw [imageAttributes, images, List.filter_append, List.map_append]; rfl

mutual

/-- The image elements that a well nested tree writes are its images in pre-order. -/
theorem images_markup : ∀ block : Block, (∀ inner ∈ block.preorder, inner.Fits) →
    Markup.images block.markup = imageAttributes block.preorder
  | { tag, id, name, props, text, children }, h => by
    rw [preorder] at h ⊢
    have hfits : Fits _ := h _ List.mem_cons_self
    have ih := images_markupList children fun inner hinner => h inner (List.mem_cons_of_mem _ hinner)
    rw [markup, ← List.singleton_append, imageAttributes_append, ← ih]
    cases tag with
    | container =>
      show Markup.images [_] = _
      rw [Markup.images_element (by decide), Markup.images_element (by decide)]; rfl
    | row | column =>
      show Markup.images [_] = _
      rw [Markup.images_element (by decide)]; rfl
    | text | button =>
      -- a leaf that fits has no children, so nothing of them is lost
      have hnil : children = [] := List.map_eq_nil_iff.1 hfits
      subst hnil
      show Markup.images [_] = _
      rw [Markup.images_element (by decide), Markup.images_ofText]; rfl
    | image | divider | spacer | unrecognized stored =>
      have hnil : children = [] := List.map_eq_nil_iff.1 hfits
      subst hnil
      rfl

theorem images_markupList : ∀ blocks : List Block, (∀ inner ∈ preorderList blocks, inner.Fits) →
    Markup.images (markupList blocks) = imageAttributes (preorderList blocks)
  | [], _ => rfl
  | block :: blocks, h => by
    rw [preorderList] at h ⊢
    rw [markupList, Markup.images_append, imageAttributes_append,
      images_markup block fun inner hinner => h inner (List.mem_append_left _ hinner),
      images_markupList blocks fun inner hinner => h inner (List.mem_append_right _ hinner)]

end

end Block

/-! ## Sources of images -/

theorem Props.get?_setText (props : Props) (key other text : String) :
    (props.setText key text).get? other =
      if other = key then some (.string text) else props.get? other :=
  Dict.get?_insert ⟨props.entries, props.sorted.1⟩ key other (.string text)

/-- An attribute has the text of the property it shows. -/
theorem Attribute.Shown.lookup_eq_some_iff {tag : Tag} {props : Props}
    {attributes : List (String × String)} (h : Shown tag props attributes) {name : String}
    {source : Props → Json.Value → Prop} (hs : (name, source) ∈ sources tag) {text : String} :
    attributes.lookup name = some text ↔ ∃ value, source props value ∧ HasText value text := by
  constructor
  · intro hlookup
    have hmem : (name, text) ∈ attributes := (lookup_eq_some_iff_mem h.nodup).1 hlookup
    obtain ⟨other, value, hother, hvalue⟩ := (h.exact name text).1 hmem
    cases List.inj_on_of_nodup_map (nodup_sources tag) hother hs rfl
    exact ⟨value, hvalue⟩
  · rintro ⟨value, hvalue, htext⟩
    exact (lookup_eq_some_iff_mem h.nodup).2 ((h.exact name text).2
      ⟨source, value, hs, hvalue, htext⟩)

theorem Asset.reference_ne_empty (directory name : String) : Asset.reference directory name ≠ "" := by
  intro h
  have hlength := congrArg String.length h
  rw [Asset.reference, String.length_append, String.length_append] at hlength
  have hslash : "/".length = 1 := rfl
  have hempty : "".length = 0 := rfl
  omega

/-! ## Findings -/

namespace Node

theorem kind_closing (tag : Tag) (node : Node) (children : List Block) :
    ∀ d ∈ node.closing tag children, d.kind ≠ .exportFailed := by
  intro d hd
  unfold closing at hd
  split at hd
  · rw [List.mem_singleton.1 hd]; exact nofun
  · cases hd

theorem kind_nested {parent expected : Tag} {child : Node} {d : Diagnostic}
    (h : Verdict.nested parent expected child = .reject d) : d.kind ≠ .exportFailed := by
  unfold Verdict.nested at h
  split at h
  · split at h
    · cases h
    · cases h; exact nofun
  · cases h

theorem kind_inColumn {child : Node} {d : Diagnostic} (h : Verdict.inColumn child = .reject d) :
    d.kind ≠ .exportFailed := by
  unfold Verdict.inColumn at h
  split at h
  · split at h
    · cases h
    · cases h; exact nofun
  · cases h; exact nofun

theorem kind_ofChild {parent : Tag} {child : Node} {d : Diagnostic}
    (h : Verdict.ofChild parent child = .reject d) : d.kind ≠ .exportFailed := by
  cases parent with
  | container | row => exact kind_nested h
  | column => exact kind_inColumn h
  | text | button | image | divider | spacer | unrecognized stored => cases h

mutual

/-- Drafts have no findings about exports. -/
theorem kind_draft : ∀ (node : Node) (tag : Tag), ∀ d ∈ (node.draft tag).diagnostics,
    d.kind ≠ .exportFailed
  | { id, name, kind, slots, characters, exporter, children }, tag, d, hd => by
    rw [draft] at hd
    rcases List.mem_append.1 hd with hd | hd
    · exact kind_draftChildren children tag d hd
    · exact kind_closing tag _ _ d hd

theorem kind_draftChildren : ∀ (nodes : List Node) (parent : Tag),
    ∀ d ∈ (draftChildren parent nodes).diagnostics, d.kind ≠ .exportFailed
  | [], _, d, hd => by cases hd
  | child :: rest, parent, d, hd => by
    have ih := kind_draftChildren rest parent d
    rw [draftChildren] at hd
    split at hd
    · rename_i tag _
      rcases List.mem_append.1 hd with hd | hd
      · exact kind_draft child tag d hd
      · exact ih hd
    · rename_i reported hreported
      rcases List.mem_cons.1 hd with rfl | hd
      · exact kind_ofChild hreported
      · exact ih hd
    · exact ih hd

end

end Node

/-! ## Images of an edition -/

namespace Block

/-- The properties of images are told by the blocks without their children. -/
theorem map_props_images {blocks others : List Block} (h : blocks.map bare = others.map bare) :
    (images blocks).map (·.props) = (images others).map (·.props) := by
  have key : ∀ l : List Block, (images l).map (·.props) = (images (l.map bare)).map (·.props) := by
    intro l
    unfold images
    rw [List.filter_map, List.map_map]; rfl
  rw [key, h, ← key]

end Block

namespace Edition

/-- What an edition makes of an image with the attributes given at a position: the picture its own
node exports, or else what the properties of the node say. -/
structure BindsImage (settings : Settings) (edition : Edition) (node : Node) (position : Nat)
    (attributes : List (String × String)) : Prop where
  exported : ∀ bytes, (job settings).exported node = some bytes →
    Attribute.Shown .image (node.props.setText "src"
      (Asset.reference settings.assetsDir (Asset.imageName position))) attributes ∧
    attributes.lookup "src" =
      some (Asset.reference settings.assetsDir (Asset.imageName position)) ∧
    edition.assets.filter (·.name = Asset.imageName position) =
      [{ name := Asset.imageName position, bytes, mediaType := "image/png" }]
  kept : (job settings).exported node = none →
    Attribute.Shown .image node.props attributes ∧
    (∀ text, attributes.lookup "src" = some text ↔
      ∃ value, Attribute.Holds "src" node.props value ∧ Attribute.HasText value text) ∧
    edition.assets.filter (·.name = Asset.imageName position) = []

/-- The images of an edition are the kept image nodes of a tree, in their order and each bound to
its own node; assets and findings about exports are theirs alone, and no two assets share a name. -/
structure BindsImages (settings : Settings) (root : Node) (edition : Edition) : Prop where
  elements : ∃ forest, Markup.read? edition.markup = some forest ∧
    (Markup.images forest).length = (Node.images root.kept).length ∧
    ∀ k node, (Node.images root.kept)[k]? = some node → ∃ attributes,
      (Markup.images forest)[k]? = some attributes ∧
        BindsImage settings edition node (k + 1) attributes
  assets : edition.assets = (job settings).numberedAssets ((Node.images root.kept).zipIdx 1)
  names : (edition.assets.map (·.name)).Nodup
  findings : edition.diagnostics.filter (·.kind = .exportFailed) =
    ((Node.images root.kept).filter fun node => ((job settings).exported node).isNone).map
      fun node =>
        { kind := .exportFailed, nodeId := some node.id,
          message := "Could not export image for node " ++ node.name ++ "." }

/-- The blocks of an edition, next to the passes that exported its images. -/
theorem extraction_exportsOwn (settings : Settings) {root : Node}
    (h : root.tag? = some .container) : ∃ steps,
    (extraction settings root).Flattens (extraction settings root).value.preorder steps ∧
      (job settings).ExportsOwn steps ((Node.images root.kept).zipIdx 1) := by
  have hmirrors := Node.mirrors_draft root .container h
  have hown : List.Forall₂ BuiltFrom root.kept (root.draft .container).value.preorder :=
    hmirrors.preorder.imp fun _ _ h => h.builtFrom
  refine ⟨_, ExportJob.extract_flattens _ _ _ _, ?_⟩
  rw [Node.sources_draft root .container h]
  exact (job settings).pass_exportsOwn 0 hown

theorem images_extraction (settings : Settings) {root : Node} (h : root.tag? = some .container) :
    Markup.images (extraction settings root).value.markup =
      ((Node.images root.kept).zipIdx 1).map fun (node, position) =>
        Attribute.ofProps .image ((job settings).imageProps node position) := by
  obtain ⟨steps, hflat, hown⟩ := extraction_exportsOwn settings h
  have hfits : ∀ inner ∈ (extraction settings root).value.preorder, inner.Fits :=
    ExportJob.extract_fits _ _ _ _ (Node.mirrors_draft root .container h).fits
  rw [Block.images_markup _ hfits, Block.imageAttributes]
  -- the blocks of the tree and of the passes differ in their children only
  have hbare : (extraction settings root).value.preorder.map Block.bare =
      (steps.map (·.value)).map Block.bare := by
    rw [hflat.blocks, List.map_map]; rfl
  have hprops := (Block.map_props_images hbare).trans hown.props
  have hattributes := congrArg (List.map (Attribute.ofProps .image)) hprops
  rw [List.map_map, List.map_map] at hattributes
  exact hattributes

theorem assets_of_compile {settings : Settings} {root : Node} {edition : Edition}
    (h : compile settings root = .ok edition) :
    edition.assets = (job settings).numberedAssets ((Node.images root.kept).zipIdx 1) := by
  unfold compile at h
  split at h
  · rename_i htag
    obtain ⟨steps, hflat, hown⟩ := extraction_exportsOwn settings htag
    cases h
    exact hflat.assets.trans hown.assets
  · cases h

theorem images_of_compile {settings : Settings} {root : Node} {edition : Edition}
    (h : compile settings root = .ok edition) : ∃ forest, Markup.read? edition.markup = some forest ∧
      Markup.images forest = ((Node.images root.kept).zipIdx 1).map fun (node, position) =>
        Attribute.ofProps .image ((job settings).imageProps node position) := by
  unfold compile at h
  split at h
  · rename_i htag
    cases h
    exact ⟨_, Block.read?_render _, images_extraction settings htag⟩
  · cases h

theorem bindsImage_ofProps (settings : Settings) {edition : Edition} {nodes : List Node}
    (hassets : edition.assets = (job settings).numberedAssets (nodes.zipIdx 1)) {k : Nat}
    {node : Node} (hk : nodes[k]? = some node) :
    BindsImage settings edition node (k + 1)
      (Attribute.ofProps .image ((job settings).imageProps node (k + 1))) := by
  have hfilter := (job settings).filter_numberedAssets 1 hk
  rw [← hassets, Nat.add_comm 1 k] at hfilter
  have hsrc : ("src", Attribute.Holds "src") ∈ Attribute.sources .image := List.mem_cons_self
  constructor
  · intro bytes hbytes
    have hshown := Attribute.shown_ofProps .image ((job settings).imageProps node (k + 1))
    unfold ExportJob.imageProps at hshown ⊢
    rw [hbytes] at hshown hfilter ⊢
    refine ⟨hshown, ?_, hfilter⟩
    refine (hshown.lookup_eq_some_iff hsrc).2 ⟨.string _, ?_, .string (Asset.reference_ne_empty _ _)⟩
    rw [Attribute.holds_iff, Props.get?_setText, if_pos rfl]
    rfl
  · intro hnone
    have hshown := Attribute.shown_ofProps .image ((job settings).imageProps node (k + 1))
    unfold ExportJob.imageProps at hshown ⊢
    rw [hnone] at hshown hfilter ⊢
    exact ⟨hshown, fun text => hshown.lookup_eq_some_iff hsrc, hfilter⟩

theorem filter_notExported (job : ExportJob) (nodes : List Node) (start : Nat) :
    ((nodes.zipIdx start).filter fun (node, _) => (job.exported node).isNone).map
        (fun (node, _) => Diagnostic.notExported node.id node.name) =
      (nodes.filter fun node => (job.exported node).isNone).map
        fun node => .notExported node.id node.name := by
  conv => rhs; rw [← List.zipIdx_map_fst start nodes, List.filter_map, List.map_map]
  rfl

/-- Compiling binds every image of a container to the picture of its own node. -/
theorem compile_bindsImages (settings : Settings) (root : Node)
    (h : root.tag? = some .container) :
    ∃ edition, compile settings root = .ok edition ∧ BindsImages settings root edition := by
  obtain ⟨steps, hflat, hown⟩ := extraction_exportsOwn settings h
  have hassets := hflat.assets.trans hown.assets
  refine ⟨_, if_pos h, ⟨?_, hassets, ?_, ?_⟩⟩
  · refine ⟨_, Block.read?_render _, ?_, ?_⟩
    · rw [images_extraction settings h, List.length_map, List.length_zipIdx]
    · intro k node hk
      refine ⟨Attribute.ofProps .image ((job settings).imageProps node (k + 1)), ?_,
        bindsImage_ofProps settings hassets hk⟩
      rw [images_extraction settings h, List.getElem?_map, List.getElem?_zipIdx, hk,
        Nat.add_comm k 1]
      rfl
  · show ((extraction settings root).assets.map (·.name)).Nodup
    rw [hassets]
    exact (job settings).nodup_numberedAssets _ _
  · show ((root.draft .container).diagnostics ++ (extraction settings root).diagnostics).filter _ = _
    -- what the draft reports is about other things
    have hdraft : ∀ d ∈ (root.draft .container).diagnostics,
        ¬decide (d.kind = .exportFailed) = true :=
      fun d hd => by simpa using Node.kind_draft root .container d hd
    rw [List.filter_append, List.filter_eq_nil_iff.2 hdraft, List.nil_append, hflat.diagnostics,
      hown.diagnostics, filter_notExported]
    refine List.filter_eq_self.2 fun d hd => ?_
    obtain ⟨node, -, rfl⟩ := List.mem_map.1 hd
    rfl

/-- A column of three images that share one identifier; only the first one can be exported. -/
def pictures : Node :=
  .tagged .container [.tagged .row [.tagged .column
    [{ Node.tagged .image [] with exporter := some fun _ => .ok [137] }, .tagged .text [],
      { Node.tagged .image [] with exporter := some fun _ => .error (.failed "busy") },
      .tagged .image []]]]

theorem compile_bindsImages_pictures :
    pictures.tag? = some .container ∧ ∃ edition,
      compile .standard pictures = .ok edition ∧ BindsImages .standard pictures edition :=
  ⟨by decide, compile_bindsImages .standard pictures (by decide)⟩

end Edition

end Newsletter
