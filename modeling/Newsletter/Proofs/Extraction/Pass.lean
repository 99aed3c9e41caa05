/-
Extraction as one pass over the blocks of a tree in pre-order. Main facts: whatever the sources are,
extracting a tree does to each of its blocks what the pass does to it, in the order of the pass; and
where the sources are the blocks' own nodes, the `k`-th image is exported from the `k`-th image node
under the `k`-th name, and no two names are the same.
-/
import Newsletter.Proofs.Draft.Kept

namespace Newsletter

/-! ## Names of images -/

/-- Every position has a name of its own. -/
theorem Asset.imageName_injective {j k : Nat} (h : Asset.imageName j = Asset.imageName k) : j = k := by
  have hchars := congrArg String.toList h
  simp only [Asset.imageName, String.toList_append, String.toList_ofList] at hchars
  have hdigits := Digits.chars_injective (List.append_cancel_left (List.append_cancel_right hchars))
  rw [← Digits.toNat_padded 3 j, hdigits, Digits.toNat_padded]

/-! ## The pass -/

/-- What a call asked for, without what came of it. -/
def ExportCall.question (call : ExportCall) : Node × ExportRequest := (call.node, call.request)

/-- A block without what is below it. -/
def Block.bare (block : Block) : Block := { block with children := [] }

namespace ExportJob

/-- The exports of blocks one after the other, each without its children. `sources` are the nodes
from the first block on, `images` the number of images before it. -/
def pass (job : ExportJob) (sources : List Node) (images : Nat) : List Block → List (Extraction Block)
  | [] => []
  | block :: blocks =>
    job.extractOne sources images block ::
      pass job (sources.drop 1) (images + if block.tag = .image then 1 else 0) blocks

theorem pass_append (job : ExportJob) : ∀ (first second : List Block) (sources : List Node)
    (images : Nat), job.pass sources images (first ++ second) =
      job.pass sources images first ++
        job.pass (sources.drop first.length) (images + first.countP (·.tag = .image)) second
  | [], _, _, _ => rfl
  | block :: first, second, sources, images => by
    rw [List.cons_append, pass, pass, pass_append job first, List.cons_append, List.drop_drop,
      List.length_cons, List.countP_cons, Nat.add_comm 1, Nat.add_assoc,
      Nat.add_comm (ite _ _ _) (List.countP _ _)]
    simp only [decide_eq_true_eq]

end ExportJob

/-- An extraction that found and changed the blocks given exactly as the steps did. -/
structure Extraction.Flattens {α : Type} (extraction : Extraction α) (blocks : List Block)
    (steps : List (Extraction Block)) : Prop where
  assets : extraction.assets = steps.flatMap (·.assets)
  diagnostics : extraction.diagnostics = steps.flatMap (·.diagnostics)
  calls : extraction.calls = steps.flatMap (·.calls)
  blocks : blocks.map Block.bare = steps.map (·.value.bare)

namespace ExportJob

mutual

/-- Extracting a tree is the pass over its blocks. -/
theorem extract_flattens (job : ExportJob) : ∀ (block : Block) (sources : List Node) (images : Nat),
    (job.extract sources images block).Flattens (job.extract sources images block).value.preorder
      (job.pass sources images block.preorder)
  | block@{ tag, id, name, props, text, children }, sources, images => by
    have ih := extractList_flattens job children (sources.drop 1)
      (images + if tag = .image then 1 else 0)
    rw [extract, Block.preorder, pass]
    simp only [Extraction.andThen]
    refine ⟨?_, ?_, ?_, ?_⟩
    · rw [List.flatMap_cons, ih.assets]
    · rw [List.flatMap_cons, ih.diagnostics]
    · rw [List.flatMap_cons, ih.calls]
    · rw [Block.preorder, List.map_cons, List.map_cons, ih.blocks]; rfl

theorem extractList_flattens (job : ExportJob) : ∀ (blocks : List Block) (sources : List Node)
    (images : Nat), (job.extractList sources images blocks).Flattens
      (Block.preorderList (job.extractList sources images blocks).value)
      (job.pass sources images (Block.preorderList blocks))
  | [], _, _ => ⟨rfl, rfl, rfl, rfl⟩
  | block :: blocks, sources, images => by
    have hfirst := extract_flattens job block sources images
    have hothers := extractList_flattens job blocks (sources.drop block.size)
      (images + block.imageCount)
    rw [extractList, Block.preorderList, pass_append]
    simp only [Extraction.andThen]
    refine ⟨?_, ?_, ?_, ?_⟩
    · rw [List.flatMap_append, hfirst.assets, hothers.assets]; rfl
    · rw [List.flatMap_append, hfirst.diagnostics, hothers.diagnostics]; rfl
    · rw [List.flatMap_append, hfirst.calls, hothers.calls]; rfl
    · rw [Block.preorderList, List.map_append, List.map_append, hfirst.blocks, hothers.blocks]; rfl

end

/-! ## What an extraction leaves as it was -/

/-- At most the properties of a block change. -/
theorem exists_extractOne_value (job : ExportJob) (sources : List Node) (images : Nat)
    (block : Block) :
    ∃ props, (job.extractOne sources images block).value = { block with props } := by
  obtain ⟨tag, id, name, props, text, children⟩ := block
  unfold extractOne
  split
  · unfold extractImage
    generalize job.ask _ = asked
    obtain ⟨result, calls⟩ := asked
    cases result with
    | error e => exact ⟨props, rfl⟩
    | ok bytes => exact ⟨_, rfl⟩
  · exact ⟨props, rfl⟩

theorem extract_tag (job : ExportJob) (sources : List Node) (images : Nat) (block : Block) :
    (job.extract sources images block).value.tag = block.tag := by
  obtain ⟨tag, id, name, props, text, children⟩ := block
  obtain ⟨changed, h⟩ := job.exists_extractOne_value sources images
    { tag, id, name, props, text, children }
  rw [extract, Extraction.andThen]
  simp only [h]

theorem extractList_tags (job : ExportJob) : ∀ (blocks : List Block) (sources : List Node)
    (images : Nat), (job.extractList sources images blocks).value.map (·.tag) = blocks.map (·.tag)
  | [], _, _ => rfl
  | block :: blocks, sources, images => by
    rw [extractList, Extraction.andThen, List.map_cons, List.map_cons, extract_tag,
      extractList_tags job blocks]

mutual

/-- Blocks stay nested as they were. -/
theorem extract_fits (job : ExportJob) : ∀ (block : Block) (sources : List Node) (images : Nat),
    (∀ inner ∈ block.preorder, inner.Fits) →
    ∀ inner ∈ (job.extract sources images block).value.preorder, inner.Fits
  | { tag, id, name, props, text, children }, sources, images, h => by
    obtain ⟨changed, hone⟩ := job.exists_extractOne_value sources images
      { tag, id, name, props, text, children }
    rw [Block.preorder] at h
    have hblock : Block.Fits _ := h _ List.mem_cons_self
    -- the block keeps its tag and its children keep theirs
    have htags := job.extractList_tags children (sources.drop 1) (images + if tag = .image then 1 else 0)
    rw [extract, Extraction.andThen]
    simp only [hone]
    rw [Block.preorder]
    intro inner hinner
    rcases List.mem_cons.1 hinner with rfl | hinner
    · unfold Block.Fits at hblock ⊢
      rw [htags]; exact hblock
    · exact extractList_fits job children _ _
        (fun b hb => h b (List.mem_cons_of_mem _ hb)) inner hinner

theorem extractList_fits (job : ExportJob) : ∀ (blocks : List Block) (sources : List Node)
    (images : Nat), (∀ inner ∈ Block.preorderList blocks, inner.Fits) →
    ∀ inner ∈ Block.preorderList (job.extractList sources images blocks).value, inner.Fits
  | [], _, _, _ => by intro inner hinner; cases hinner
  | block :: blocks, sources, images, h => by
    rw [Block.preorderList] at h
    rw [extractList, Extraction.andThen, Block.preorderList]
    intro inner hinner
    rcases List.mem_append.1 hinner with hinner | hinner
    · exact extract_fits job block _ _ (fun b hb => h b (List.mem_append_left _ hb)) inner hinner
    · exact extractList_fits job blocks _ _ (fun b hb => h b (List.mem_append_right _ hb)) inner
        hinner

end

theorem extractOne_unexported (job : ExportJob) {sources : List Node}
    (h : ∀ node ∈ sources, node.exporter = none) (images : Nat) (block : Block) :
    (job.extractOne sources images block).value = block := by
  have hask : (job.ask (sourceOf sources block)).1 = .error .unsupported := by
    cases hsource : sourceOf sources block with
    | none => rfl
    | some node =>
      have hhead := (Option.filter_eq_some_iff.1 hsource).1
      simp only [ask, h node (List.mem_of_mem_head? hhead)]
  unfold extractOne extractImage
  split
  · simp only [hask]
  · rfl

mutual

/-- Where no node offers an export, blocks stay as they were. -/
theorem extract_unexported (job : ExportJob) : ∀ (block : Block) (sources : List Node)
    (images : Nat), (∀ node ∈ sources, node.exporter = none) →
    (job.extract sources images block).value = block
  | { tag, id, name, props, text, children }, sources, images, h => by
    have hchildren := extractList_unexported job children (sources.drop 1)
      (images + if tag = .image then 1 else 0) fun node hnode => h node (List.mem_of_mem_drop hnode)
    rw [extract, Extraction.andThen]
    simp only [hchildren, job.extractOne_unexported h]

theorem extractList_unexported (job : ExportJob) : ∀ (blocks : List Block) (sources : List Node)
    (images : Nat), (∀ node ∈ sources, node.exporter = none) →
    (job.extractList sources images blocks).value = blocks
  | [], _, _, _ => rfl
  | block :: blocks, sources, images, h => by
    rw [extractList, Extraction.andThen]
    dsimp only
    rw [extract_unexported job block sources images h, extractList_unexported job blocks _ _
      fun node hnode => h node (List.mem_of_mem_drop hnode)]

end

/-! ## Images and their own nodes -/

/-- The image that a node exports itself as, if it does. -/
def exported (job : ExportJob) (node : Node) : Option Bytes :=
  node.exporter.bind fun run => (run job.request).toOption

/-- The asset of the image at a position. -/
def asset (job : ExportJob) (position : Nat) (bytes : Bytes) : Asset :=
  { name := Asset.imageName position, bytes, mediaType := job.request.format.mediaType }

/-- The properties of the image at a position once it was exported from its node. -/
def imageProps (job : ExportJob) (node : Node) (position : Nat) : Props :=
  match job.exported node with
  | some _ => node.props.setText "src" (Asset.reference job.directory (Asset.imageName position))
  | none => node.props

/-- The assets of numbered image nodes, of those that export themselves. -/
def numberedAssets (job : ExportJob) (numbered : List (Node × Nat)) : List Asset :=
  numbered.flatMap fun (node, position) => ((job.exported node).map (job.asset position)).toList

theorem sourceOf_own {node : Node} {block : Block} (h : block.id = node.id) (sources : List Node) :
    sourceOf (node :: sources) block = some node := by
  unfold sourceOf
  rw [List.head?_cons, Option.filter_some, if_pos (decide_eq_true h.symm)]

/-- The properties of the image at a position, given what it was exported as. -/
def linked (job : ExportJob) (bytes : Option Bytes) (position : Nat) (props : Props) : Props :=
  match bytes with
  | some _ => props.setText "src" (Asset.reference job.directory (Asset.imageName position))
  | none => props

theorem toOption_ask (job : ExportJob) (source : Option Node) :
    (job.ask source).1.toOption = source.bind job.exported := by
  cases source with
  | none => rfl
  | some node =>
    rw [Option.bind_some]
    unfold ask exported
    cases h : node.exporter with
    | none => simp only [h]; rfl
    | some run => simp only [h]; rfl

/-- A node is asked exactly if it offers an export, once and for what the job requests. -/
theorem map_question_ask (job : ExportJob) (source : Option Node) :
    (job.ask source).2.map (·.question) =
      (source.filter (·.exporter.isSome)).toList.map fun node => (node, job.request) := by
  cases source with
  | none => rfl
  | some node =>
    rw [Option.filter_some]
    unfold ask
    cases h : node.exporter with
    | none => simp only [h]; rfl
    | some run => simp only [h]; rfl

theorem map_node_ask (job : ExportJob) (source : Option Node) :
    (job.ask source).2.map (·.node) = (source.filter (·.exporter.isSome)).toList := by
  have hnode : (job.ask source).2.map (·.node) =
      ((job.ask source).2.map (·.question)).map Prod.fst := by
    rw [List.map_map]
    rfl
  rw [hnode, map_question_ask, List.map_map]
  exact List.map_id' _

/-- What comes of exporting an image from a node, or from none. -/
theorem extractImage_from (job : ExportJob) (source : Option Node) (position : Nat) (block : Block) :
    (job.extractImage source position block).assets =
        ((source.bind job.exported).map (job.asset position)).toList ∧
      (job.extractImage source position block).diagnostics =
        (if (source.bind job.exported).isNone then [.notExported block.id block.name] else []) ∧
      (job.extractImage source position block).calls.map (·.node) =
        (source.filter (·.exporter.isSome)).toList ∧
      (job.extractImage source position block).value =
        { block with props := job.linked (source.bind job.exported) position block.props } := by
  rw [← job.toOption_ask source, ← job.map_node_ask source]
  unfold extractImage
  obtain ⟨result, calls⟩ := job.ask source
  cases result with
  | error e =>
    cases block
    exact ⟨rfl, rfl, rfl, rfl⟩
  | ok bytes => exact ⟨rfl, rfl, rfl, rfl⟩

/-- What comes of exporting an image from its own node. -/
theorem extractImage_own (job : ExportJob) {node : Node} {block : Block} (h : BuiltFrom node block)
    (position : Nat) :
    (job.extractImage (some node) position block).assets =
        ((job.exported node).map (job.asset position)).toList ∧
      (job.extractImage (some node) position block).diagnostics =
        (if (job.exported node).isNone then [.notExported node.id node.name] else []) ∧
      (job.extractImage (some node) position block).value =
        { block with props := job.imageProps node position } := by
  obtain ⟨hassets, hdiagnostics, -, hvalue⟩ := job.extractImage_from (some node) position block
  rw [Option.bind_some] at hassets hdiagnostics hvalue
  rw [h.id, h.name] at hdiagnostics
  rw [h.props] at hvalue
  exact ⟨hassets, hdiagnostics, hvalue⟩

end ExportJob

/-- The image nodes among nodes. -/
def Node.images (nodes : List Node) : List Node := nodes.filter (·.tag? = some .image)

/-- The images among blocks. -/
def Block.images (blocks : List Block) : List Block := blocks.filter (·.tag = .image)

namespace ExportJob

/-- The steps of a pass over blocks with their own nodes as sources export the image nodes one by
one, numbered on from the images before them. -/
structure ExportsOwn (job : ExportJob) (steps : List (Extraction Block)) (numbered : List (Node × Nat)) :
    Prop where
  assets : steps.flatMap (·.assets) = job.numberedAssets numbered
  diagnostics : steps.flatMap (·.diagnostics) =
    (numbered.filter fun (node, _) => (job.exported node).isNone).map fun (node, _) =>
      .notExported node.id node.name
  props : (Block.images (steps.map (·.value))).map (·.props) =
    numbered.map fun (node, position) => job.imageProps node position

theorem pass_exportsOwn (job : ExportJob) : ∀ {nodes : List Node} {blocks : List Block} (images : Nat),
    List.Forall₂ BuiltFrom nodes blocks →
    job.ExportsOwn (job.pass nodes images blocks) ((Node.images nodes).zipIdx (images + 1))
  | [], _, _, h => by
    rw [List.forall₂_nil_left_iff] at h
    subst h; exact ⟨rfl, rfl, rfl⟩
  | node :: nodes, _, images, h => by
    obtain ⟨block, blocks, hown, hothers, rfl⟩ := List.forall₂_cons_left_iff.1 h
    rw [pass, List.drop_one, List.tail_cons, extractOne, sourceOf_own hown.id]
    unfold Node.images
    by_cases htag : block.tag = .image
    · have hnode : node.tag? = some .image := by rw [hown.tag, htag]
      obtain ⟨hassets, hdiagnostics, hvalue⟩ := job.extractImage_own hown (images + 1)
      -- the number is used up even where the export fails
      have ih := job.pass_exportsOwn (images + 1) hothers
      rw [if_pos htag, if_pos htag, List.filter_cons, if_pos (decide_eq_true hnode),
        List.zipIdx_cons]
      refine ⟨?_, ?_, ?_⟩
      · rw [List.flatMap_cons, numberedAssets, List.flatMap_cons, hassets, ih.assets]; rfl
      · rw [List.flatMap_cons, hdiagnostics, List.filter_cons]
        split
        · rw [List.map_cons]; exact congrArg _ ih.diagnostics
        · exact ih.diagnostics
      · rw [List.map_cons, hvalue]
        unfold Block.images
        rw [List.filter_cons, if_pos (decide_eq_true htag), List.map_cons, List.map_cons]
        exact congrArg _ ih.props
    · have hnode : ¬node.tag? = some .image := by
        rw [hown.tag]; exact fun h => htag (Option.some.inj h)
      have ih := job.pass_exportsOwn images hothers
      rw [if_neg htag, if_neg htag, Nat.add_zero, List.filter_cons, if_neg (by simpa using hnode)]
      refine ⟨ih.assets, ih.diagnostics, ?_⟩
      rw [List.map_cons]
      unfold Block.images Extraction.done
      rw [List.filter_cons, if_neg (by simpa using htag)]
      exact ih.props

/-! ## Numbered assets -/

theorem numberedAssets_cons (job : ExportJob) (node : Node) (nodes : List Node) (start : Nat) :
    job.numberedAssets ((node :: nodes).zipIdx start) =
      ((job.exported node).map (job.asset start)).toList ++
        job.numberedAssets (nodes.zipIdx (start + 1)) := by
  rw [List.zipIdx_cons]; rfl

/-- An asset has the name of a number from the first one on. -/
theorem exists_name_numberedAssets (job : ExportJob) : ∀ {nodes : List Node} {start : Nat},
    ∀ asset ∈ job.numberedAssets (nodes.zipIdx start),
      ∃ position, start ≤ position ∧ asset.name = Asset.imageName position
  | [], _, asset, h => by cases h
  | node :: nodes, start, asset, h => by
    rw [numberedAssets_cons, List.mem_append] at h
    rcases h with h | h
    · obtain ⟨bytes, -, rfl⟩ := Option.map_eq_some_iff.1 (Option.mem_toList.1 h)
      exact ⟨start, Nat.le_refl _, rfl⟩
    · obtain ⟨position, hle, hname⟩ := job.exists_name_numberedAssets asset h
      exact ⟨position, by omega, hname⟩

/-- No two assets have one name. -/
theorem nodup_numberedAssets (job : ExportJob) : ∀ (nodes : List Node) (start : Nat),
    ((job.numberedAssets (nodes.zipIdx start)).map (·.name)).Nodup
  | [], _ => List.nodup_nil
  | node :: nodes, start => by
    have ih := job.nodup_numberedAssets nodes (start + 1)
    rw [numberedAssets_cons]
    cases job.exported node with
    | none => exact ih
    | some bytes =>
      refine List.nodup_cons.2 ⟨?_, ih⟩
      intro hmem
      -- the later names have later numbers
      obtain ⟨asset, hasset, hname⟩ := List.mem_map.1 hmem
      obtain ⟨position, hle, hposition⟩ := job.exists_name_numberedAssets asset hasset
      have := Asset.imageName_injective (hposition.symm.trans hname)
      omega

/-- Where assets are named after different numbers, under each name there is the asset that has the
number, if it was made, and nothing else. -/
theorem filter_flatMap_asset {α : Type} (job : ExportJob) (number : α → Nat) (bytes : α → Option Bytes)
    {images : List α} (hnodup : (images.map number).Nodup) {image : α} (h : image ∈ images) :
    (images.flatMap fun image => ((bytes image).map (job.asset (number image))).toList).filter
        (·.name = Asset.imageName (number image)) =
      ((bytes image).map (job.asset (number image))).toList := by
  have hother : ∀ other, number other ≠ number image →
      (((bytes other).map (job.asset (number other))).toList).filter
        (·.name = Asset.imageName (number image)) = [] := by
    intro other hne
    refine List.filter_eq_nil_iff.2 fun asset hasset hname => hne ?_
    obtain ⟨found, -, rfl⟩ := Option.map_eq_some_iff.1 (Option.mem_toList.1 hasset)
    exact Asset.imageName_injective (of_decide_eq_true hname)
  have hown : (((bytes image).map (job.asset (number image))).toList).filter
      (·.name = Asset.imageName (number image)) =
        ((bytes image).map (job.asset (number image))).toList := by
    refine List.filter_eq_self.2 fun asset hasset => ?_
    obtain ⟨found, -, rfl⟩ := Option.map_eq_some_iff.1 (Option.mem_toList.1 hasset)
    exact decide_eq_true rfl
  induction images with
  | nil => cases h
  | cons first images ih =>
    rw [List.map_cons, List.nodup_cons] at hnodup
    rw [List.flatMap_cons, List.filter_append]
    rcases List.mem_cons.1 h with rfl | h
    · -- the others have other numbers
      rw [hown, List.filter_flatMap, List.flatMap_eq_nil_iff.2 fun other hmem => hother other
        fun heq => hnodup.1 (List.mem_map.2 ⟨other, hmem, heq⟩), List.append_nil]
    · have hne : number first ≠ number image := fun heq =>
        hnodup.1 (List.mem_map.2 ⟨image, h, heq.symm⟩)
      rw [hother first hne, List.nil_append]
      exact ih hnodup.2 h

/-- Under the name of a number there is the asset of its own node, if that exports itself, and
nothing else. -/
theorem filter_numberedAssets (job : ExportJob) {nodes : List Node} {k : Nat} {node : Node}
    (start : Nat) (h : nodes[k]? = some node) :
    (job.numberedAssets (nodes.zipIdx start)).filter (·.name = Asset.imageName (start + k)) =
      ((job.exported node).map (job.asset (start + k))).toList := by
  have hnodup : ((nodes.zipIdx start).map Prod.snd).Nodup := by
    rw [List.zipIdx_map_snd]
    exact List.nodup_range'
  have hmem : (node, start + k) ∈ nodes.zipIdx start :=
    List.mk_add_mem_zipIdx_iff_getElem?.2 h
  have hfilter := job.filter_flatMap_asset Prod.snd (fun numbered => job.exported numbered.1)
    hnodup hmem
  dsimp only at hfilter
  exact hfilter

end ExportJob

end Newsletter
