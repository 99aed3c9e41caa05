/-
The nodes recorded while a tree is built. Main statement: they are as many as the blocks, and at
every position of the pre-order stands the very node that the block there was built from, whether
identifiers repeat or not; so an extraction finds the own node of every image, and its check of the
identifiers turns none away.
-/
import Newsletter.Proofs.Extraction.Places
import Mathlib.Data.List.Lex

namespace Newsletter

/-! ## Recording -/

namespace Node

mutual

/-- The block of a node that is kept with a tag, and the nodes recorded so far followed by those
recorded on the way: a node is recorded before its children are looked at. -/
def recordOnto (tag : Tag) (recorded : List Node) : Node → Block × List Node
  | node@{ id, name, children, .. } =>
    let (inner, recorded) := recordChildrenOnto tag (recorded ++ [node]) children
    ({ tag, id, name, props := node.props, text := node.blockText? tag, children := inner },
      recorded)
termination_by structural node => node

/-- The blocks of those children that a node with the tag `parent` accepts. -/
def recordChildrenOnto (parent : Tag) (recorded : List Node) : List Node → List Block × List Node
  | [] => ([], recorded)
  | child :: rest =>
    match Verdict.ofChild parent child with
    | .keep tag =>
      let (block, recorded) := recordOnto tag recorded child
      let (blocks, recorded) := recordChildrenOnto parent recorded rest
      (block :: blocks, recorded)
    | .reject _ | .ignore => recordChildrenOnto parent recorded rest
termination_by structural children => children

end

/-- The block of a tree with a tagged root, and the nodes recorded so far followed by its sources. -/
def recordOnto? (recorded : List Node) (node : Node) : Option Block × List Node :=
  match node.tag? with
  | none => (none, recorded)
  | some tag =>
    let (block, recorded) := node.recordOnto tag recorded
    (some block, recorded)

mutual

/-- What was recorded before stays as it is, and the sources of the draft come behind it. -/
theorem recordOnto_eq : ∀ (node : Node) (tag : Tag) (recorded : List Node),
    node.recordOnto tag recorded = ((node.draft tag).value, recorded ++ (node.draft tag).sources)
  | { id, name, kind, slots, characters, exporter, children }, tag, recorded => by
    rw [recordOnto, draft, recordChildrenOnto_eq children tag]
    dsimp only
    rw [List.append_assoc, List.singleton_append]

theorem recordChildrenOnto_eq : ∀ (nodes : List Node) (parent : Tag) (recorded : List Node),
    recordChildrenOnto parent recorded nodes =
      ((draftChildren parent nodes).value, recorded ++ (draftChildren parent nodes).sources)
  | [], _, recorded => by
    rw [recordChildrenOnto, draftChildren, Draft.nothing, List.append_nil]
  | child :: rest, parent, recorded => by
    rw [recordChildrenOnto, draftChildren]
    cases Verdict.ofChild parent child with
    | keep tag =>
      dsimp only
      rw [recordOnto_eq child tag recorded, recordChildrenOnto_eq rest parent, List.append_assoc]
      rfl
    | reject d => exact recordChildrenOnto_eq rest parent recorded
    | ignore => exact recordChildrenOnto_eq rest parent recorded

end

end Node

/-! ## Places of kept nodes -/

/-- The place one tree further on. -/
def TreePlace.next : TreePlace → TreePlace
  | [] => []
  | i :: place => (i + 1) :: place

theorem TreePlace.next_lt_next {place other : TreePlace} (h : place < other) :
    TreePlace.next place < TreePlace.next other := by
  cases other with
  | nil => exact absurd h (List.not_lt_nil _)
  | cons j other =>
    cases place with
    | nil => exact List.nil_lt_cons _ _
    | cons i place =>
      rcases List.cons_lt_cons_iff.1 h with hlt | ⟨rfl, hlt⟩
      · exact List.cons_lt_cons_iff.2 (.inl (Nat.succ_lt_succ hlt))
      · exact List.cons_lt_cons_iff.2 (.inr ⟨rfl, hlt⟩)

namespace Node

mutual

/-- The places of the kept nodes of a tree, each before those below it. -/
def keptPlaces : Node → List TreePlace
  | node@{ children, .. } => [] :: keptPlacesAmong node.tag? children
termination_by structural node => node

/-- The places of the kept nodes among the children of a node. -/
def keptPlacesAmong (parent : Option Tag) : List Node → List TreePlace
  | [] => []
  | child :: rest =>
    if parent.any (·.takes child) then
      (keptPlaces child).map (0 :: ·) ++ (keptPlacesAmong parent rest).map TreePlace.next
    else (keptPlacesAmong parent rest).map TreePlace.next
termination_by structural nodes => nodes

end

mutual

theorem mem_keptPlaces : ∀ {node : Node} {place : TreePlace},
    place ∈ node.keptPlaces ↔ node.keeps place = true
  | { id, name, kind, slots, characters, exporter, children }, place => by
    rw [keptPlaces, List.mem_cons, mem_keptPlacesAmong]
    cases place with
    | nil => simp [keeps]
    | cons i place =>
      rw [keeps_cons]
      simp only [reduceCtorEq, false_or, List.cons.injEq]
      constructor
      · rintro ⟨j, below, child, ⟨rfl, rfl⟩, hchild, htakes, hkeeps⟩
        exact ⟨child, hchild, htakes, hkeeps⟩
      · rintro ⟨child, hchild, htakes, hkeeps⟩
        exact ⟨i, place, child, ⟨rfl, rfl⟩, hchild, htakes, hkeeps⟩

theorem mem_keptPlacesAmong : ∀ {nodes : List Node} {parent : Option Tag} {place : TreePlace},
    place ∈ keptPlacesAmong parent nodes ↔ ∃ i below child, place = i :: below ∧
      nodes[i]? = some child ∧ parent.any (·.takes child) = true ∧ child.keeps below = true
  | [], _, _ => by simp [keptPlacesAmong]
  | child :: rest, parent, place => by
    have hlater : place ∈ (keptPlacesAmong parent rest).map TreePlace.next ↔
        ∃ i below other, place = (i + 1) :: below ∧ rest[i]? = some other ∧
          parent.any (·.takes other) = true ∧ other.keeps below = true := by
      rw [List.mem_map]
      constructor
      · rintro ⟨before, hbefore, rfl⟩
        obtain ⟨i, below, other, rfl, hother⟩ := mem_keptPlacesAmong.1 hbefore
        exact ⟨i, below, other, rfl, hother⟩
      · rintro ⟨i, below, other, rfl, hother⟩
        exact ⟨i :: below, mem_keptPlacesAmong.2 ⟨i, below, other, rfl, hother⟩, rfl⟩
    have hsplit : (∃ i below found, place = i :: below ∧ (child :: rest)[i]? = some found ∧
          parent.any (·.takes found) = true ∧ found.keeps below = true) ↔
        (∃ below, place = 0 :: below ∧ parent.any (·.takes child) = true ∧
          child.keeps below = true) ∨
        ∃ i below other, place = (i + 1) :: below ∧ rest[i]? = some other ∧
          parent.any (·.takes other) = true ∧ other.keeps below = true := by
      constructor
      · rintro ⟨_ | i, below, found, rfl, hfound, htakes, hkeeps⟩
        · cases hfound
          exact .inl ⟨below, rfl, htakes, hkeeps⟩
        · exact .inr ⟨i, below, found, rfl, hfound, htakes, hkeeps⟩
      · rintro (⟨below, rfl, htakes, hkeeps⟩ | ⟨i, below, other, rfl, hother⟩)
        · exact ⟨0, below, child, rfl, rfl, htakes, hkeeps⟩
        · exact ⟨i + 1, below, other, rfl, hother⟩
    rw [hsplit, ← hlater, keptPlacesAmong]
    split
    · rename_i htakes
      simp only [List.mem_append, List.mem_map, mem_keptPlaces, htakes, true_and]
      grind
    · rename_i htakes
      simp [htakes]

end

/-- Places of kept nodes among children have a first step. -/
theorem exists_cons_of_mem {nodes : List Node} {parent : Option Tag} {place : TreePlace}
    (h : place ∈ keptPlacesAmong parent nodes) :
    ∃ i below child, place = i :: below ∧ nodes[i]? = some child := by
  obtain ⟨i, below, child, hplace, hchild, -⟩ := mem_keptPlacesAmong.1 h
  exact ⟨i, below, child, hplace, hchild⟩

mutual

/-- The places come in ascending order. -/
theorem pairwise_keptPlaces : ∀ node : Node, node.keptPlaces.Pairwise (· < ·)
  | { id, name, kind, slots, characters, exporter, children } => by
    rw [keptPlaces, List.pairwise_cons]
    refine ⟨fun place hplace => ?_, pairwise_keptPlacesAmong children _⟩
    obtain ⟨i, below, child, rfl, -⟩ := exists_cons_of_mem hplace
    exact List.nil_lt_cons _ _

theorem pairwise_keptPlacesAmong : ∀ (nodes : List Node) (parent : Option Tag),
    (keptPlacesAmong parent nodes).Pairwise (· < ·)
  | [], _ => .nil
  | child :: rest, parent => by
    have hlater : ((keptPlacesAmong parent rest).map TreePlace.next).Pairwise (· < ·) :=
      List.pairwise_map.2 ((pairwise_keptPlacesAmong rest parent).imp TreePlace.next_lt_next)
    rw [keptPlacesAmong]
    split
    · refine List.pairwise_append.2 ⟨?_, hlater, ?_⟩
      · refine List.pairwise_map.2 ((pairwise_keptPlaces child).imp fun hlt => ?_)
        exact List.cons_lt_cons_iff.2 (.inr ⟨rfl, hlt⟩)
      · intro first hfirst second hsecond
        obtain ⟨below, -, rfl⟩ := List.mem_map.1 hfirst
        obtain ⟨before, hbefore, rfl⟩ := List.mem_map.1 hsecond
        obtain ⟨i, other, found, rfl, -⟩ := exists_cons_of_mem hbefore
        exact List.cons_lt_cons_iff.2 (.inl (Nat.succ_pos i))
    · exact hlater

end

/-! ## Nodes and blocks at these places -/

/-- The node at a place in a list of trees; the first step chooses the tree. -/
def atIn? (nodes : List Node) : TreePlace → Option Node
  | [] => none
  | i :: place =>
    match nodes[i]? with
    | some node => node.at? place
    | none => none

/-- Where the block of a kept node stands in a list of trees of which only some are kept. -/
def targetIn (accepts : Node → Bool) (nodes : List Node) : TreePlace → TreePlace
  | [] => []
  | i :: place =>
    match nodes[i]? with
    | some node => (nodes.take i).countP accepts :: node.target place
    | none => []

theorem atIn?_next (node : Node) (nodes : List Node) (place : TreePlace) :
    atIn? (node :: nodes) (TreePlace.next place) = atIn? nodes place := by
  cases place with
  | nil => rfl
  | cons i place => rfl

theorem targetIn_next {accepts : Node → Bool} (node : Node) (nodes : List Node)
    (place : TreePlace) : targetIn accepts (node :: nodes) (TreePlace.next place) =
      if accepts node then TreePlace.next (targetIn accepts nodes place)
      else targetIn accepts nodes place := by
  cases place with
  | nil =>
    split <;> rfl
  | cons i place =>
    rw [TreePlace.next, targetIn, targetIn, List.getElem?_cons_succ, List.take_succ_cons,
      List.countP_cons]
    cases nodes[i]? with
    | none =>
      dsimp only
      split <;> rfl
    | some found =>
      dsimp only
      split <;> rfl

end Node

/-- The block at a place in a list of trees. -/
def Block.atIn? (blocks : List Block) : TreePlace → Option Block
  | [] => none
  | i :: place =>
    match blocks[i]? with
    | some block => block.at? place
    | none => none

theorem Block.atIn?_next (block : Block) (blocks : List Block) (place : TreePlace) :
    atIn? (block :: blocks) (TreePlace.next place) = atIn? blocks place := by
  cases place with
  | nil => rfl
  | cons i place => rfl

namespace Node

mutual

/-- At these places stand the kept nodes, in their order. -/
theorem map_at?_keptPlaces : ∀ node : Node, node.keptPlaces.map node.at? = node.kept.map some
  | node@{ id, name, kind, slots, characters, exporter, children } => by
    rw [keptPlaces, kept, List.map_cons, List.map_cons, ← map_atIn?_keptPlacesAmong children]
    refine congrArg _ (List.map_congr_left fun place hplace => ?_)
    obtain ⟨i, below, child, rfl, -⟩ := exists_cons_of_mem hplace
    rfl

theorem map_atIn?_keptPlacesAmong : ∀ (nodes : List Node) (parent : Option Tag),
    (keptPlacesAmong parent nodes).map (atIn? nodes) = (keptAmong parent nodes).map some
  | [], _ => rfl
  | child :: rest, parent => by
    have hlater : ((keptPlacesAmong parent rest).map TreePlace.next).map (atIn? (child :: rest)) =
        (keptAmong parent rest).map some := by
      rw [← map_atIn?_keptPlacesAmong rest parent, List.map_map]
      exact List.map_congr_left fun place _ => atIn?_next child rest place
    rw [keptPlacesAmong, keptAmong]
    split
    · rw [List.map_append, List.map_append, hlater, ← map_at?_keptPlaces child, List.map_map]
      rfl
    · exact hlater

end

mutual

/-- The kept nodes in their order are sent to the places of the blocks in their order. -/
theorem map_target_keptPlaces : ∀ {node : Node} {block : Block}, Mirrors node block →
    node.keptPlaces.map (fun place => block.at? (node.target place)) = block.preorder.map some
  | node@{ id, name, kind, slots, characters, exporter, children }, block@{ .. }, h => by
    rw [keptPlaces, Block.preorder, List.map_cons, List.map_cons,
      ← map_targetIn_keptPlacesAmong h.children]
    refine congrArg _ (List.map_congr_left fun place hplace => ?_)
    obtain ⟨i, below, child, rfl, hchild⟩ := exists_cons_of_mem hplace
    rw [target_cons hchild, targetIn, hchild]
    rfl

theorem map_targetIn_keptPlacesAmong : ∀ {nodes : List Node} {blocks : List Block}
    {parent : Option Tag},
    List.Forall₂ Mirrors (nodes.filter fun child => parent.any (·.takes child)) blocks →
    (keptPlacesAmong parent nodes).map (fun place =>
      Block.atIn? blocks (targetIn (fun child => parent.any (·.takes child)) nodes place)) =
        (Block.preorderList blocks).map some
  | [], _, _, h => by
    rw [List.filter_nil, List.forall₂_nil_left_iff] at h
    subst h
    rfl
  | child :: rest, blocks, parent, h => by
    rw [List.filter_cons] at h
    rw [keptPlacesAmong]
    -- a kept child takes the first block; a dropped one does not count for those behind it
    split
    · rename_i htakes
      rw [if_pos htakes] at h
      obtain ⟨block, others, hblock, hothers, rfl⟩ := List.forall₂_cons_left_iff.1 h
      rw [List.map_append, Block.preorderList, List.map_append, ← map_target_keptPlaces hblock,
        ← map_targetIn_keptPlacesAmong hothers, List.map_map, List.map_map]
      refine congrArg _ (List.map_congr_left fun place _ => ?_)
      rw [Function.comp_apply, targetIn_next, if_pos htakes, Block.atIn?_next]
    · rename_i htakes
      rw [if_neg htakes] at h
      rw [← map_targetIn_keptPlacesAmong h, List.map_map]
      refine List.map_congr_left fun place _ => ?_
      rw [Function.comp_apply, targetIn_next, if_neg htakes]

end

end Node

/-! ## Positions -/

/-- How far behind a block in the pre-order its child at a position stands: behind the block itself
and all that is in the children before it. -/
def Block.offset (block : Block) (j : Nat) : Nat :=
  (preorderList (block.children.take j)).length + 1

mutual

/-- Where a block stands in the pre-order, its tree begins, and at the same position among the kept
nodes begin those of a node that it mirrors. -/
theorem Mirrors.exists_drop : ∀ {block : Block} {node : Node}, Mirrors node block →
    ∀ {i : Nat} {inner : Block}, block.preorder[i]? = some inner → ∃ source nodes blocks,
      Mirrors source inner ∧ node.kept.drop i = source.kept ++ nodes ∧
        block.preorder.drop i = inner.preorder ++ blocks
  | block@{ children, .. }, node, h, i, inner, hinner => by
    cases i with
    | zero =>
      rw [Block.preorder] at hinner
      cases hinner
      refine ⟨node, [], [], h, ?_, ?_⟩
      · rw [List.drop_zero, List.append_nil]
      · rw [List.drop_zero, List.append_nil]
    | succ i =>
      rw [Block.preorder] at hinner ⊢
      rw [Node.kept_eq]
      exact Mirrors.exists_drop_list h.children hinner

theorem Mirrors.exists_drop_list : ∀ {blocks : List Block} {nodes : List Node},
    List.Forall₂ Mirrors nodes blocks → ∀ {i : Nat} {inner : Block},
      (Block.preorderList blocks)[i]? = some inner → ∃ source behind blocksBehind,
        Mirrors source inner ∧ (nodes.flatMap Node.kept).drop i = source.kept ++ behind ∧
          (Block.preorderList blocks).drop i = inner.preorder ++ blocksBehind
  | [], _, _, i, inner, hinner => by cases hinner
  | block :: blocks, _, h, i, inner, hinner => by
    obtain ⟨node, nodes, hnode, hnodes, rfl⟩ := List.forall₂_cons_right_iff.1 h
    have hlength := hnode.preorder.length_eq
    rw [Block.preorderList] at hinner ⊢
    rw [List.flatMap_cons]
    -- as many nodes are kept in a tree as there are blocks in its mirror
    rcases Nat.lt_or_ge i block.preorder.length with hlt | hge
    · rw [List.getElem?_append_left hlt] at hinner
      obtain ⟨source, behind, blocksBehind, hsource, hdrop, hblocks⟩ := hnode.exists_drop hinner
      refine ⟨source, behind ++ nodes.flatMap Node.kept, blocksBehind ++ Block.preorderList blocks,
        hsource, ?_, ?_⟩
      · rw [List.drop_append_of_le_length (by omega), hdrop, List.append_assoc]
      · rw [List.drop_append_of_le_length (by omega), hblocks, List.append_assoc]
    · rw [List.getElem?_append_right hge] at hinner
      obtain ⟨source, behind, blocksBehind, hsource, hdrop, hblocks⟩ :=
        Mirrors.exists_drop_list hnodes hinner
      refine ⟨source, behind, blocksBehind, hsource, ?_, ?_⟩
      · rw [List.drop_append, List.drop_eq_nil_of_le (by omega), hlength, List.nil_append, hdrop]
      · rw [List.drop_append, List.drop_eq_nil_of_le hge, List.nil_append, hblocks]

end

/-- Behind the trees of the children before it stands a child, and at the same position among the
kept nodes below stands the node it mirrors. -/
theorem Mirrors.getElem?_children : ∀ {nodes : List Node} {blocks : List Block} {j : Nat}
    {child : Block}, List.Forall₂ Mirrors nodes blocks → blocks[j]? = some child →
    (Block.preorderList blocks)[(Block.preorderList (blocks.take j)).length]? = some child ∧
      (nodes.flatMap Node.kept)[(Block.preorderList (blocks.take j)).length]? = nodes[j]?
  | _, [], _, _, _, hchild => by cases hchild
  | _, block :: blocks, j, child, h, hchild => by
    obtain ⟨node, nodes, hnode, hnodes, rfl⟩ := List.forall₂_cons_right_iff.1 h
    cases j with
    | zero =>
      cases hchild
      rw [Block.preorderList, List.flatMap_cons, Node.kept_eq]
      obtain ⟨tag, id, name, props, text, children⟩ := block
      exact ⟨rfl, rfl⟩
    | succ j =>
      have hlength := hnode.preorder.length_eq
      obtain ⟨hblock, hsource⟩ := Mirrors.getElem?_children hnodes hchild
      rw [Block.preorderList, List.flatMap_cons, List.take_succ_cons, Block.preorderList,
        List.length_append]
      constructor
      · rw [List.getElem?_append_right (Nat.le_add_right _ _), Nat.add_sub_cancel_left]
        exact hblock
      · rw [← hlength, List.getElem?_append_right (Nat.le_add_right _ _), Nat.add_sub_cancel_left]
        exact hsource

theorem Block.preorder_eq (block : Block) : block.preorder = block :: preorderList block.children := by
  cases block; rfl

theorem PlacedImage.getElem?_place {image : PlacedImage} {block : Block}
    (h : image ∈ all block) : block.preorder[image.place]? = some image.block := by
  obtain ⟨⟨⟨inner, place⟩, number⟩, hnumbered, rfl⟩ := List.mem_map.1 h
  have hplaced := (List.mem_filter.1 (List.fst_mem_of_mem_zipIdx hnumbered)).1
  exact List.mem_zipIdx_iff_getElem?.1 hplaced

/-! ## Aligned sources -/

/-- The node that a block at a position of the pre-order was built from is recorded at the same
position, and its accepted children at the positions of the children of the block. -/
structure RecordedAt (sources : List Node) (root : Block) (i : Nat) (block : Block)
    (source : Node) : Prop where
  recorded : sources[i]? = some source
  built : BuiltFrom source block
  count : source.accepted.length = block.children.length
  children : ∀ j child, block.children[j]? = some child →
    root.preorder[i + block.offset j]? = some child ∧
      sources[i + block.offset j]? = source.accepted[j]?
  /-- The check of the identifiers lets it through. -/
  passed : ExportJob.sourceOf (sources.drop i) block = some source

/-- Nodes recorded for the blocks of a tree, position by position. -/
structure Aligned (root : Node) (block : Block) (sources : List Node) : Prop where
  length : sources.length = block.preorder.length
  /-- At a position stand the node at a place of the tree and the block that it is sent to; the
  places are all those that are kept, in ascending order. -/
  places : ∃ places : List TreePlace, places.Pairwise (· < ·) ∧
    (∀ place, place ∈ places ↔ root.keeps place = true) ∧
    sources.map some = places.map root.at? ∧
    block.preorder.map some = places.map fun place => block.at? (root.target place)
  recorded : ∀ i inner, block.preorder[i]? = some inner →
    ∃ source, RecordedAt sources block i inner source
  /-- An extraction asks the node at the position of every image, whatever its identifier. -/
  asked : ∀ job : ExportJob, (job.extract sources 0 block).calls.map (·.node) =
    (PlacedImage.all block).flatMap fun image =>
      (sources[image.place]?.filter (·.exporter.isSome)).toList

theorem Mirrors.recordedAt {root : Node} {block inner : Block} (h : Mirrors root block) {i : Nat}
    (hinner : block.preorder[i]? = some inner) :
    ∃ source, RecordedAt root.kept block i inner source := by
  obtain ⟨source, behind, blocksBehind, hsource, hdrop, hblocks⟩ := h.exists_drop hinner
  rw [source.kept_eq, List.cons_append] at hdrop
  rw [inner.preorder_eq, List.cons_append] at hblocks
  have hrecorded : root.kept[i]? = some source := by
    rw [← List.head?_drop, hdrop, List.head?_cons]
  refine ⟨source, hrecorded, hsource.builtFrom, hsource.children.length_eq, ?_, ?_⟩
  · intro j child hchild
    obtain ⟨node, hnode, -⟩ := forall₂_getElem? hsource.children.flip hchild
    obtain ⟨hblock, hkept⟩ := Mirrors.getElem?_children hsource.children hchild
    rw [hnode] at hkept ⊢
    obtain ⟨hlt, -⟩ := List.getElem?_eq_some_iff.1 hblock
    obtain ⟨hlt', -⟩ := List.getElem?_eq_some_iff.1 hkept
    rw [Block.offset]
    constructor
    · rw [← List.getElem?_drop, hblocks, List.getElem?_cons_succ, List.getElem?_append_left hlt]
      exact hblock
    · rw [← List.getElem?_drop, hdrop, List.getElem?_cons_succ, List.getElem?_append_left hlt']
      exact hkept
  · rw [hdrop]
    exact ExportJob.sourceOf_own hsource.builtFrom.id _

theorem Mirrors.aligned {root : Node} {block : Block} (h : Mirrors root block) :
    Aligned root block root.kept := by
  refine ⟨h.preorder.length_eq, ⟨root.keptPlaces, root.pairwise_keptPlaces,
    fun place => Node.mem_keptPlaces, root.map_at?_keptPlaces.symm,
    (Node.map_target_keptPlaces h).symm⟩, fun i inner hinner => h.recordedAt hinner, ?_⟩
  intro job
  have hcalls := (job.pass_exportsPlaced root.kept block.preorder 0 0).calls
  rw [List.drop_zero] at hcalls
  rw [(job.extract_flattens block root.kept 0).calls, hcalls]
  refine List.flatMap_congr fun image himage => ?_
  obtain ⟨source, hsource⟩ := h.recordedAt (PlacedImage.getElem?_place himage)
  rw [PlacedImage.source, hsource.recorded, Option.filter_some,
    if_pos (decide_eq_true hsource.built.id.symm)]

/-- The nodes recorded while a tagged tree is built come behind those recorded before, and are
aligned with the blocks. -/
theorem recordOnto?_aligned (root : Node) {tag : Tag} (htag : root.tag? = some tag) :
    ∃ draft, root.draft? = some draft ∧
      (∀ recorded, root.recordOnto? recorded = (some draft.value, recorded ++ draft.sources)) ∧
      Aligned root draft.value draft.sources := by
  have hmirrors := Node.mirrors_draft root tag htag
  refine ⟨root.draft tag, ?_, fun recorded => ?_, ?_⟩
  · rw [Node.draft?, htag, Option.map_some]
  · unfold Node.recordOnto?
    rw [htag]
    dsimp only
    rw [Node.recordOnto_eq]
  · rw [Node.sources_draft root tag htag]
    exact hmirrors.aligned

/-- A container of two rows; all nodes of the tree have one identifier. -/
def Node.namesakes : Node :=
  .tagged .container [.tagged .row [.tagged .text [], .tagged .column [.tagged .image []]],
    .tagged .divider [], .tagged .row [.tagged .column [.tagged .spacer [], .tagged .image []]]]

theorem recordOnto?_aligned_namesakes : Node.namesakes.tag? = some .container ∧
    ∃ draft, Node.namesakes.draft? = some draft ∧
      Node.namesakes.recordOnto? [] = (some draft.value, draft.sources) ∧
      Aligned Node.namesakes draft.value draft.sources := by
  have htag : Node.namesakes.tag? = some .container := by decide
  obtain ⟨draft, hdraft, hrecorded, haligned⟩ := recordOnto?_aligned Node.namesakes htag
  exact ⟨htag, draft, hdraft, hrecorded [], haligned⟩

end Newsletter
