/-
What an extraction does to any tree of blocks with any sources. Main statement: the image that is
the `p`-th block and the `k`-th image of the tree is exported from the `p`-th source, if that has the
image's identifier, and from no other; its asset and its reference are named after `k`, whatever
becomes of the other images; nothing else in the tree changes, and extracting the result again
changes nothing more.
-/
import Newsletter.Proofs.Edition.Images

namespace Newsletter

/-! ## Trees without references -/

namespace Ascending

variable {α : Type} {key : String} {value : α} {entries : List (String × α)}

/-- What is stored under a key is not seen where the key is left out. -/
theorem filter_put (key : String) (value : α) (entries : List (String × α)) :
    (put key value entries).filter (fun entry => decide (entry.1 ≠ key)) =
      entries.filter fun entry => decide (entry.1 ≠ key) := by
  induction entries with
  | nil => simp [put]
  | cons entry entries ih =>
    obtain ⟨other, found⟩ := entry
    rw [put]
    split
    · rw [List.filter_cons_of_neg (by simp)]
    · split
      · rename_i heq
        subst heq
        rw [List.filter_cons_of_neg (by simp), List.filter_cons_of_neg (by simp)]
      · rw [List.filter_cons, List.filter_cons, ih]

/-- What was stored is replaced. -/
theorem put_put (key : String) (first second : α) (entries : List (String × α)) :
    put key second (put key first entries) = put key second entries := by
  induction entries with
  | nil => simp [put]
  | cons entry entries ih =>
    obtain ⟨other, found⟩ := entry
    rw [put, put]
    split
    · rw [put, if_neg (String.lt_irrefl key), if_pos rfl]
    · rename_i hlt
      split
      · rw [put, if_neg (String.lt_irrefl key), if_pos rfl]
      · rename_i hne
        rw [put, if_neg hlt, if_neg hne, ih]

end Ascending

namespace Props

open Json

/-- The properties but the one under `key`. -/
def erase (props : Props) (key : String) : Props :=
  ⟨props.entries.filter fun entry => decide (entry.1 ≠ key), props.sorted.1.filter _,
    Value.sortedMembers_iff.2 fun member hmember =>
      Value.sortedMembers_iff.1 props.sorted.2 member (List.mem_of_mem_filter hmember)⟩

theorem erase_setText (props : Props) (key text : String) :
    (props.setText key text).erase key = props.erase key :=
  ext (Ascending.filter_put key (Value.string text) props.entries)

theorem setText_setText (props : Props) (key first second : String) :
    (props.setText key first).setText key second = props.setText key second :=
  ext (Ascending.put_put key (Value.string first) (Value.string second) props.entries)

end Props

namespace Block

/-- The properties of a block without the reference that an image has to its file. -/
def unlinkedProps (tag : Tag) (props : Props) : Props :=
  if tag = .image then props.erase "src" else props

mutual

/-- A tree without the references of its images. -/
def unlinked : Block → Block
  | { tag, id, name, props, text, children } =>
    { tag, id, name, props := unlinkedProps tag props, text, children := unlinkedList children }
termination_by structural block => block

def unlinkedList : List Block → List Block
  | [] => []
  | block :: blocks => unlinked block :: unlinkedList blocks
termination_by structural blocks => blocks

end

mutual

theorem tags_unlinked : ∀ block : Block,
    block.unlinked.preorder.map (·.tag) = block.preorder.map (·.tag)
  | { tag, id, name, props, text, children } => by
    rw [unlinked, preorder, preorder, List.map_cons, List.map_cons, tags_unlinkedList children]

theorem tags_unlinkedList : ∀ blocks : List Block,
    (preorderList (unlinkedList blocks)).map (·.tag) = (preorderList blocks).map (·.tag)
  | [] => rfl
  | block :: blocks => by
    rw [unlinkedList, preorderList, preorderList, List.map_append, List.map_append,
      tags_unlinked block, tags_unlinkedList blocks]

end

/-- Trees that differ in references at most have as many blocks and as many images. -/
theorem counts_of_unlinked {block other : Block} (h : block.unlinked = other.unlinked) :
    block.size = other.size ∧ block.imageCount = other.imageCount := by
  have htags : block.preorder.map (·.tag) = other.preorder.map (·.tag) := by
    rw [← tags_unlinked, h, tags_unlinked]
  have hcount : ∀ blocks : List Block, blocks.countP (·.tag = .image) =
      (blocks.map (·.tag)).countP (· = .image) := by
    intro blocks
    rw [List.countP_map]
    rfl
  constructor
  · have hlength := congrArg List.length htags
    rwa [List.length_map, List.length_map] at hlength
  · unfold imageCount
    rw [hcount, htags, ← hcount]

end Block

namespace ExportJob

/-! ## What an extraction leaves alone -/

/-- At most the reference of an image changes. -/
theorem exists_extractOne_unlinked (job : ExportJob) (sources : List Node) (images : Nat)
    (block : Block) : ∃ props, (job.extractOne sources images block).value = { block with props } ∧
      Block.unlinkedProps block.tag props = Block.unlinkedProps block.tag block.props := by
  unfold extractOne
  split
  · rename_i htag
    obtain ⟨-, -, -, hvalue⟩ := job.extractImage_from (sourceOf sources block) (images + 1) block
    refine ⟨_, hvalue, ?_⟩
    unfold linked Block.unlinkedProps
    rw [if_pos htag, if_pos htag]
    cases (sourceOf sources block).bind job.exported with
    | none => rfl
    | some bytes => exact Props.erase_setText _ _ _
  · obtain ⟨tag, id, name, props, text, children⟩ := block
    exact ⟨props, rfl, rfl⟩

mutual

/-- Nothing in a tree changes but the references of images. -/
theorem extract_unlinked (job : ExportJob) : ∀ (block : Block) (sources : List Node) (images : Nat),
    (job.extract sources images block).value.unlinked = block.unlinked
  | { tag, id, name, props, text, children }, sources, images => by
    obtain ⟨changed, hvalue, hprops⟩ := job.exists_extractOne_unlinked sources images
      { tag, id, name, props, text, children }
    have hchildren := extractList_unlinked job children (sources.drop 1)
      (images + if tag = .image then 1 else 0)
    rw [extract, Extraction.andThen]
    simp only [hvalue]
    rw [Block.unlinked, Block.unlinked, hchildren, hprops]

theorem extractList_unlinked (job : ExportJob) : ∀ (blocks : List Block) (sources : List Node)
    (images : Nat), Block.unlinkedList (job.extractList sources images blocks).value =
      Block.unlinkedList blocks
  | [], _, _ => rfl
  | block :: blocks, sources, images => by
    rw [extractList, Extraction.andThen]
    dsimp only
    rw [Block.unlinkedList, Block.unlinkedList, extract_unlinked job block,
      extractList_unlinked job blocks]

end

/-! ## Extracting again -/

/-- An image that was exported is exported in the same way again, whatever is below it. -/
theorem extractOne_again (job : ExportJob) (sources : List Node) (images : Nat) (block : Block)
    (children : List Block) :
    job.extractOne sources images { (job.extractOne sources images block).value with children } =
      { job.extractOne sources images block with
        value := { (job.extractOne sources images block).value with children } } := by
  by_cases htag : block.tag = .image
  · obtain ⟨-, -, -, hvalue⟩ := job.extractImage_from (sourceOf sources block) (images + 1) block
    have hone : job.extractOne sources images block =
      job.extractImage (sourceOf sources block) (images + 1) block := if_pos htag
    rw [hone, hvalue]
    refine (if_pos htag).trans ?_
    show job.extractImage (sourceOf sources block) (images + 1) _ = _
    rw [← job.toOption_ask]
    unfold extractImage
    obtain ⟨result, calls⟩ := job.ask (sourceOf sources block)
    cases result with
    | error e => rfl
    | ok bytes => simp only [Except.toOption, linked, Props.setText_setText]
  · have hone : job.extractOne sources images block = .done block := if_neg htag
    rw [hone]
    exact if_neg htag

mutual

/-- Extracting the result of an extraction gives the same once more. -/
theorem extract_again (job : ExportJob) : ∀ (block : Block) (sources : List Node) (images : Nat),
    job.extract sources images (job.extract sources images block).value =
      job.extract sources images block
  | { tag, id, name, props, text, children }, sources, images => by
    have hchildren := extractList_again job children (sources.drop 1)
      (images + if tag = .image then 1 else 0)
    have hone := job.extractOne_again sources images { tag, id, name, props, text, children }
      (job.extractList (sources.drop 1) (images + if tag = .image then 1 else 0) children).value
    obtain ⟨changed, hvalue⟩ := job.exists_extractOne_value sources images
      { tag, id, name, props, text, children }
    rw [extract, Extraction.andThen]
    simp only [hvalue] at hone ⊢
    rw [extract, hchildren, hone]
    rfl

theorem extractList_again (job : ExportJob) : ∀ (blocks : List Block) (sources : List Node)
    (images : Nat), job.extractList sources images (job.extractList sources images blocks).value =
      job.extractList sources images blocks
  | [], _, _ => rfl
  | block :: blocks, sources, images => by
    -- the counters stand where they stood, as the result has as many blocks and images
    obtain ⟨hsize, hcount⟩ := Block.counts_of_unlinked (job.extract_unlinked block sources images)
    have hothers := extractList_again job blocks (sources.drop block.size)
      (images + block.imageCount)
    rw [extractList, Extraction.andThen]
    dsimp only
    rw [extractList, extract_again job block, hsize, hcount, hothers]
    rfl

end

end ExportJob

/-! ## Images by their places -/

/-- An image with its place among all blocks, counted from zero, and its number among the images,
counted from one. -/
structure PlacedImage where
  block : Block
  place : Nat
  number : Nat

namespace PlacedImage

/-- The images among blocks in their order, if the first block stands at a place and the first image
has a number. -/
def among (blocks : List Block) (place number : Nat) : List PlacedImage :=
  (((blocks.zipIdx place).filter fun (block, _) => block.tag = .image).zipIdx number).map
    fun ((block, place), number) => { block, place, number }

/-- The images of a tree. -/
def all (block : Block) : List PlacedImage := among block.preorder 0 1

/-- The node at the place of an image, if it has the identifier of the image. -/
def source (image : PlacedImage) (sources : List Node) : Option Node :=
  sources[image.place]?.filter (·.id = image.block.id)

/-- What an image is exported as. -/
def bytes (image : PlacedImage) (job : ExportJob) (sources : List Node) : Option Bytes :=
  (image.source sources).bind job.exported

/-- The asset of an image, if it is exported. -/
def asset (image : PlacedImage) (job : ExportJob) (sources : List Node) : Option Asset :=
  (image.bytes job sources).map (job.asset image.number)

theorem among_cons_image {block : Block} (h : block.tag = .image) (blocks : List Block)
    (place number : Nat) : among (block :: blocks) place number =
      { block, place, number } :: among blocks (place + 1) (number + 1) := by
  unfold among
  rw [List.zipIdx_cons, List.filter_cons, if_pos (decide_eq_true h), List.zipIdx_cons,
    List.map_cons]

theorem among_cons_other {block : Block} (h : block.tag ≠ .image) (blocks : List Block)
    (place number : Nat) :
    among (block :: blocks) place number = among blocks (place + 1) number := by
  unfold among
  rw [List.zipIdx_cons, List.filter_cons_of_neg (by simpa using h)]

end PlacedImage

namespace ExportJob

/-- The steps of a pass export the images given one by one, each from the source at its place. -/
structure ExportsPlaced (job : ExportJob) (sources : List Node) (steps : List (Extraction Block))
    (images : List PlacedImage) : Prop where
  assets : steps.flatMap (·.assets) = images.flatMap fun image => (image.asset job sources).toList
  diagnostics : steps.flatMap (·.diagnostics) =
    (images.filter fun image => (image.bytes job sources).isNone).map fun image =>
      .notExported image.block.id image.block.name
  calls : (steps.flatMap (·.calls)).map (·.node) = images.flatMap fun image =>
    ((image.source sources).filter (·.exporter.isSome)).toList
  props : (Block.images (steps.map (·.value))).map (·.props) = images.map fun image =>
    job.linked (image.bytes job sources) image.number image.block.props

theorem pass_exportsPlaced (job : ExportJob) (sources : List Node) : ∀ (blocks : List Block)
    (place images : Nat), job.ExportsPlaced sources (job.pass (sources.drop place) images blocks)
      (PlacedImage.among blocks place (images + 1))
  | [], _, _ => ⟨rfl, rfl, rfl, rfl⟩
  | block :: blocks, place, images => by
    rw [pass, List.drop_drop]
    by_cases htag : block.tag = .image
    · obtain ⟨hassets, hdiagnostics, hcalls, hvalue⟩ :=
        job.extractImage_from (sourceOf (sources.drop place) block) (images + 1) block
      have hone : job.extractOne (sources.drop place) images block =
        job.extractImage (sourceOf (sources.drop place) block) (images + 1) block := if_pos htag
      have hsource : sourceOf (sources.drop place) block =
          PlacedImage.source { block, place, number := images + 1 } sources := by
        unfold sourceOf PlacedImage.source
        rw [List.head?_drop]
      have ih := job.pass_exportsPlaced sources blocks (place + 1) (images + 1)
      rw [hsource] at hone hassets hdiagnostics hcalls hvalue
      rw [if_pos htag, hone, PlacedImage.among_cons_image htag]
      refine ⟨?_, ?_, ?_, ?_⟩
      · rw [List.flatMap_cons, List.flatMap_cons, hassets, ih.assets]
        rfl
      · rw [List.flatMap_cons, hdiagnostics, ih.diagnostics, List.filter_cons]
        unfold PlacedImage.bytes
        split
        · rfl
        · rfl
      · rw [List.flatMap_cons, List.flatMap_cons, List.map_append, hcalls, ih.calls]
      · rw [List.map_cons, List.map_cons, hvalue]
        unfold Block.images
        rw [List.filter_cons, if_pos (decide_eq_true htag), List.map_cons]
        exact congrArg _ ih.props
    · have hone : job.extractOne (sources.drop place) images block = .done block := if_neg htag
      have ih := job.pass_exportsPlaced sources blocks (place + 1) images
      rw [if_neg htag, Nat.add_zero, hone, PlacedImage.among_cons_other htag]
      refine ⟨ih.assets, ih.diagnostics, ih.calls, ?_⟩
      rw [List.map_cons]
      unfold Block.images Extraction.done
      rw [List.filter_cons_of_neg (by simpa using htag)]
      exact ih.props

/-! ## Extractions by places -/

end ExportJob

end Newsletter
