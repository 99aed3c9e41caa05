/-
What of a design is kept: the nodes at the end of a path on which every node belongs below the one
before it. Places are paths of positions from the root, so nodes are told apart even where their
identifiers repeat. Main statement: the draft of a tagged tree mirrors the kept part of the tree
level by level, and every block stands where exactly one kept node sends it.
-/
import Newsletter.Edition
import Mathlib.Data.List.Forall2
import Mathlib.Data.List.Nodup

namespace Newsletter

/-! ## What belongs where -/

/-- Containers hold rows, rows hold columns, and columns hold the leaf modules. -/
def Tag.accepts : Tag → Tag → Bool
  | .container, .row | .row, .column => true
  | .column, .text | .column, .button | .column, .image | .column, .divider | .column, .spacer =>
    true
  | _, _ => false

/-- Whether a node belongs below a node with a tag. -/
def Tag.takes (tag : Tag) (child : Node) : Bool := child.tag?.any tag.accepts

theorem Tag.takes_iff {tag : Tag} {child : Node} :
    tag.takes child = true ↔ ∃ inner, child.tag? = some inner ∧ tag.accepts inner = true := by
  rw [takes, Option.any_eq_true]

/-- A child is kept with its own tag if it belongs there, and else not at all. -/
theorem Verdict.ofChild_keep_iff {parent tag : Tag} {child : Node} :
    ofChild parent child = .keep tag ↔ child.tag? = some tag ∧ parent.accepts tag = true := by
  cases htag : child.tag? with
  | none => cases parent <;> simp [ofChild, nested, inColumn, htag]
  | some found =>
    cases parent <;> cases found <;>
      simp [ofChild, nested, inColumn, htag, Tag.isLeaf, Tag.accepts] <;> grind [Tag.accepts]

theorem Verdict.exists_keep_iff {parent : Tag} {child : Node} :
    (∃ tag, ofChild parent child = .keep tag) ↔ parent.takes child = true := by
  rw [Tag.takes_iff]
  exact exists_congr fun tag => ofChild_keep_iff

namespace Node

/-- Whether a child belongs below a node. -/
def accepts (parent child : Node) : Bool := parent.tag?.any (·.takes child)

/-- The children that belong below a node. -/
def accepted (node : Node) : List Node := node.children.filter node.accepts

theorem accepts_eq {node : Node} {tag : Tag} (h : node.tag? = some tag) : node.accepts = tag.takes := by
  funext child
  rw [accepts, h, Option.any_some]

end Node

/-! ## Drafts as mirrors -/

/-- A block with what its own node holds; texts and buttons have a text, and no other block has. -/
structure BuiltFrom (node : Node) (block : Block) : Prop where
  id : block.id = node.id
  name : block.name = node.name
  tag : node.tag? = some block.tag
  props : block.props = node.props
  text : block.text.isSome ↔ block.tag = .text ∨ block.tag = .button

/-- A block built from a node, the children of which mirror the accepted children of the node, one
by one and in their order. -/
inductive Mirrors : Node → Block → Prop
  | mk {node : Node} {block : Block} : BuiltFrom node block →
      List.Forall₂ Mirrors node.accepted block.children → Mirrors node block

theorem Mirrors.builtFrom {node : Node} {block : Block} (h : Mirrors node block) :
    BuiltFrom node block := by
  obtain ⟨h, -⟩ := h; exact h

theorem Mirrors.children {node : Node} {block : Block} (h : Mirrors node block) :
    List.Forall₂ Mirrors node.accepted block.children := by
  obtain ⟨-, h⟩ := h; exact h

namespace Node

theorem isSome_blockText? (tag : Tag) (node : Node) :
    (node.blockText? tag).isSome ↔ tag = .text ∨ tag = .button := by
  cases tag <;> simp [blockText?]

theorem draft_eq (node : Node) (tag : Tag) :
    node.draft tag =
      { value :=
          { tag, id := node.id, name := node.name, props := node.props, text := node.blockText? tag,
            children := (draftChildren tag node.children).value }
        sources := node :: (draftChildren tag node.children).sources
        diagnostics := (draftChildren tag node.children).diagnostics ++
          node.closing tag (draftChildren tag node.children).value } := by
  cases node; rfl

/-- A child that belongs there comes first in the draft of the children. -/
theorem draftChildren_takes {parent tag : Tag} {child : Node} (htag : child.tag? = some tag)
    (hacc : parent.accepts tag = true) (rest : List Node) :
    draftChildren parent (child :: rest) = (child.draft tag).cons (draftChildren parent rest) := by
  rw [draftChildren, Verdict.ofChild_keep_iff.2 ⟨htag, hacc⟩]

/-- A child that does not belong there leaves no block and no source. -/
theorem draftChildren_drops {parent : Tag} {child : Node} (h : parent.takes child ≠ true)
    (rest : List Node) :
    (draftChildren parent (child :: rest)).value = (draftChildren parent rest).value ∧
      (draftChildren parent (child :: rest)).sources = (draftChildren parent rest).sources := by
  rw [draftChildren]
  split
  · rename_i tag hkeep
    exact absurd (Verdict.exists_keep_iff.1 ⟨tag, hkeep⟩) h
  · exact ⟨rfl, rfl⟩
  · exact ⟨rfl, rfl⟩

mutual

/-- The draft of a node mirrors it. -/
theorem mirrors_draft : ∀ (node : Node) (tag : Tag), node.tag? = some tag →
    Mirrors node (node.draft tag).value
  | { id, name, kind, slots, characters, exporter, children }, tag, h => by
    refine .mk ⟨rfl, rfl, h, rfl, isSome_blockText? tag _⟩ ?_
    rw [accepted, accepts_eq h]
    exact mirrors_draftChildren children tag

theorem mirrors_draftChildren : ∀ (nodes : List Node) (parent : Tag),
    List.Forall₂ Mirrors (nodes.filter parent.takes) (draftChildren parent nodes).value
  | [], _ => .nil
  | child :: rest, parent => by
    have ih := mirrors_draftChildren rest parent
    by_cases htakes : parent.takes child = true
    · obtain ⟨tag, htag, hacc⟩ := Tag.takes_iff.1 htakes
      rw [List.filter_cons_of_pos htakes, draftChildren_takes htag hacc]
      exact .cons (mirrors_draft child tag htag) ih
    · rw [List.filter_cons_of_neg htakes, (draftChildren_drops htakes rest).1]
      exact ih

end

end Node

/-! ## Nesting -/

/-- The tags that may stand below a tag. -/
def Tag.Allows : Tag → List Tag → Prop
  | .container, tags => ∀ tag ∈ tags, tag = .row
  | .row, tags => ∀ tag ∈ tags, tag = .column
  | .column, tags => ∀ tag ∈ tags, tag ∈ [text, button, image, divider, spacer]
  | _, tags => tags = []

/-- A block and its children are nested as they should be. -/
def Block.Fits (block : Block) : Prop := block.tag.Allows (block.children.map (·.tag))

theorem Tag.allows_of_accepts {parent : Tag} {tags : List Tag}
    (h : ∀ tag ∈ tags, parent.accepts tag = true) : parent.Allows tags := by
  cases parent with
  | container | row | column =>
    intro tag htag
    have hacc := h tag htag
    cases tag <;> simp_all [accepts]
  | text | button | image | divider | spacer | unrecognized stored =>
    cases tags with
    | nil => rfl
    | cons tag rest => cases h tag List.mem_cons_self

theorem forall₂_getElem? {α β : Type} {R : α → β → Prop} : ∀ {l : List α} {m : List β} {i : Nat}
    {a : α}, List.Forall₂ R l m → l[i]? = some a → ∃ b, m[i]? = some b ∧ R a b
  | _, _, _, _, .nil, h => by cases h
  | _, _, 0, _, .cons hr _, h => by cases h; exact ⟨_, rfl, hr⟩
  | _, _, i + 1, _, .cons _ hrs, h => forall₂_getElem? (i := i) hrs h

/-- A child of a mirror belongs below it. -/
theorem Mirrors.accepts {node : Node} {block : Block} (h : Mirrors node block) :
    ∀ child ∈ block.children, block.tag.accepts child.tag = true := by
  intro child hchild
  obtain ⟨i, hi⟩ := List.mem_iff_getElem?.1 hchild
  obtain ⟨source, hsource, hmirrors⟩ := forall₂_getElem? h.children.flip hi
  have hacc := (List.mem_filter.1 (List.mem_of_getElem? hsource)).2
  rw [Node.accepts_eq h.builtFrom.tag] at hacc
  obtain ⟨inner, hinner, hacc⟩ := Tag.takes_iff.1 hacc
  rw [hmirrors.builtFrom.tag] at hinner
  cases hinner
  exact hacc

/-! ## Places -/

/-- The place of a node in a tree: at each step from the root, the position of a child. -/
abbrev TreePlace := List Nat

namespace Node

/-- The node at a place. -/
def at? : Node → TreePlace → Option Node
  | node, [] => some node
  | node, i :: place =>
    match node.children[i]? with
    | some child => child.at? place
    | none => none

/-- Whether each node on the way to a place belongs below the one before it. -/
def keeps : Node → TreePlace → Bool
  | _, [] => true
  | node, i :: place =>
    match node.children[i]? with
    | some child => node.accepts child && child.keeps place
    | none => false

/-- Where the block of a kept node stands: children that are not kept do not count. -/
def target : Node → TreePlace → TreePlace
  | _, [] => []
  | node, i :: place =>
    match node.children[i]? with
    | some child => (node.children.take i).countP node.accepts :: child.target place
    | none => []

end Node

/-- The block at a place. -/
def Block.at? : Block → TreePlace → Option Block
  | block, [] => some block
  | block, i :: place =>
    match block.children[i]? with
    | some child => child.at? place
    | none => none

/-! ## Filtered lists -/

section Filter

variable {α : Type} (p : α → Bool)

/-- Among the elements that pass a test, one stands after as many as pass it before it. -/
theorem getElem?_filter_countP : ∀ {l : List α} {i : Nat} {a : α}, l[i]? = some a → p a = true →
    (l.filter p)[(l.take i).countP p]? = some a
  | [], _, _, h, _ => by cases h
  | b :: l, 0, a, h, hp => by
    cases h
    rw [List.filter_cons_of_pos hp]; rfl
  | b :: l, i + 1, a, h, hp => by
    have ih := getElem?_filter_countP (l := l) (i := i) h hp
    by_cases hb : p b = true
    · rw [List.filter_cons_of_pos hb, List.take_succ_cons, List.countP_cons_of_pos hb]
      exact ih
    · rw [List.filter_cons_of_neg hb, List.take_succ_cons, List.countP_cons_of_neg hb]
      exact ih

theorem exists_of_getElem?_filter : ∀ {l : List α} {j : Nat} {a : α}, (l.filter p)[j]? = some a →
    ∃ i, l[i]? = some a ∧ p a = true ∧ (l.take i).countP p = j
  | [], _, _, h => by cases h
  | b :: l, j, a, h => by
    by_cases hb : p b = true
    · rw [List.filter_cons_of_pos hb] at h
      cases j with
      | zero => cases h; exact ⟨0, rfl, hb, rfl⟩
      | succ j =>
        obtain ⟨i, hi, hp, hj⟩ := exists_of_getElem?_filter (l := l) h
        refine ⟨i + 1, hi, hp, ?_⟩
        rw [List.take_succ_cons, List.countP_cons_of_pos hb, hj]
    · rw [List.filter_cons_of_neg hb] at h
      obtain ⟨i, hi, hp, hj⟩ := exists_of_getElem?_filter (l := l) h
      refine ⟨i + 1, hi, hp, ?_⟩
      rw [List.take_succ_cons, List.countP_cons_of_neg hb, hj]

/-- Elements that pass a test are told apart by how many pass it before them. -/
theorem eq_of_countP_take_eq : ∀ {l : List α} {i j : Nat} {a b : α}, l[i]? = some a →
    l[j]? = some b → p a = true → p b = true → (l.take i).countP p = (l.take j).countP p → i = j
  | [], _, _, _, _, h, _, _, _, _ => by cases h
  | c :: l, 0, 0, _, _, _, _, _, _, _ => rfl
  | c :: l, 0, j + 1, _, _, h, _, hp, _, heq => by
    cases h
    rw [List.take_succ_cons, List.countP_cons_of_pos hp] at heq
    cases heq
  | c :: l, i + 1, 0, _, _, _, h, _, hp, heq => by
    cases h
    rw [List.take_succ_cons, List.countP_cons_of_pos hp] at heq
    cases heq
  | c :: l, i + 1, j + 1, _, _, hi, hj, hpa, hpb, heq => by
    simp only [List.take_succ_cons, List.countP_cons, Nat.add_right_cancel_iff] at heq
    rw [eq_of_countP_take_eq (l := l) hi hj hpa hpb heq]

end Filter

/-! ## Kept places -/

namespace Node

theorem keeps_cons {node : Node} {i : Nat} {place : TreePlace} :
    node.keeps (i :: place) = true ↔
      ∃ child, node.children[i]? = some child ∧ node.accepts child = true ∧
        child.keeps place = true := by
  rw [keeps]
  cases node.children[i]? with
  | none => simp
  | some child => simp

theorem target_cons {node child : Node} {i : Nat} (h : node.children[i]? = some child)
    (place : TreePlace) :
    node.target (i :: place) = (node.children.take i).countP node.accepts :: child.target place := by
  rw [target, h]

/-- The block of a kept node stands at its target and mirrors it. -/
theorem exists_at?_target : ∀ (place : TreePlace) {node : Node} {block : Block}, Mirrors node block →
    node.keeps place = true → ∃ source built, node.at? place = some source ∧
      block.at? (node.target place) = some built ∧ Mirrors source built
  | [], node, block, h, _ => ⟨node, block, rfl, rfl, h⟩
  | i :: place, node, block, h, hkeeps => by
    obtain ⟨child, hchild, hacc, hkeeps⟩ := keeps_cons.1 hkeeps
    obtain ⟨inner, hinner, hmirrors⟩ :=
      forall₂_getElem? h.children (getElem?_filter_countP node.accepts hchild hacc)
    rw [target_cons hchild, at?, hchild, Block.at?, hinner]
    exact exists_at?_target place hmirrors hkeeps

/-- Every block stands where some kept node sends it. -/
theorem exists_target_eq : ∀ (place : TreePlace) {node : Node} {block built : Block},
    Mirrors node block → block.at? place = some built →
    ∃ origin, node.keeps origin = true ∧ node.target origin = place
  | [], _, _, _, _, _ => ⟨[], rfl, rfl⟩
  | j :: place, node, block, built, h, hat => by
    rw [Block.at?] at hat
    cases hinner : block.children[j]? with
    | none => rw [hinner] at hat; cases hat
    | some inner =>
      rw [hinner] at hat
      -- the child block mirrors a kept child, and that has a position among all children
      obtain ⟨child, hchild, hmirrors⟩ := forall₂_getElem? h.children.flip hinner
      obtain ⟨i, hi, hacc, rfl⟩ := exists_of_getElem?_filter node.accepts hchild
      obtain ⟨origin, hkeeps, rfl⟩ := exists_target_eq place hmirrors hat
      exact ⟨i :: origin, keeps_cons.2 ⟨child, hi, hacc, hkeeps⟩, target_cons hi origin⟩

/-- No two kept nodes are sent to one place. -/
theorem target_injective : ∀ {node : Node} {p q : TreePlace}, node.keeps p = true →
    node.keeps q = true → node.target p = node.target q → p = q
  | _, [], [], _, _, _ => rfl
  | node, [], j :: q, _, hq, h => by
    obtain ⟨child, hchild, -⟩ := keeps_cons.1 hq
    rw [target_cons hchild] at h
    cases h
  | node, i :: p, [], hp, _, h => by
    obtain ⟨child, hchild, -⟩ := keeps_cons.1 hp
    rw [target_cons hchild] at h
    cases h
  | node, i :: p, j :: q, hp, hq, h => by
    obtain ⟨a, ha, hacca, hp⟩ := keeps_cons.1 hp
    obtain ⟨b, hb, haccb, hq⟩ := keeps_cons.1 hq
    rw [target_cons ha, target_cons hb] at h
    obtain ⟨hcount, htarget⟩ := List.cons.inj h
    -- as many kept children before both of them, so they are the same child
    have hij := eq_of_countP_take_eq node.accepts ha hb hacca haccb hcount
    subst hij
    have hab : a = b := Option.some.inj (ha.symm.trans hb)
    subst hab
    rw [target_injective hp hq htarget]

/-- A kept node is sent below the target of its own parent. -/
theorem target_concat : ∀ {node : Node} {place : TreePlace} {i : Nat},
    node.keeps (place ++ [i]) = true → node.keeps place = true ∧
      ∃ j, node.target (place ++ [i]) = node.target place ++ [j]
  | node, [], i, h => by
    obtain ⟨child, hchild, -⟩ := keeps_cons.1 h
    exact ⟨rfl, _, target_cons hchild []⟩
  | node, k :: place, i, h => by
    obtain ⟨child, hchild, hacc, hkeeps⟩ := keeps_cons.1 h
    obtain ⟨hparent, j, hj⟩ := target_concat hkeeps
    refine ⟨keeps_cons.2 ⟨child, hchild, hacc, hparent⟩, j, ?_⟩
    rw [List.cons_append, target_cons hchild, target_cons hchild, hj]; rfl

end Node

/-! ## Kept nodes in pre-order -/

namespace Node

mutual

/-- The kept nodes of a tree, each before those below it. -/
def kept : Node → List Node
  | node@{ children, .. } => node :: keptAmong node.tag? children
termination_by structural node => node

/-- The kept nodes among the children of a node. -/
def keptAmong (parent : Option Tag) : List Node → List Node
  | [] => []
  | child :: rest =>
    if parent.any (·.takes child) then kept child ++ keptAmong parent rest
    else keptAmong parent rest
termination_by structural nodes => nodes

end

theorem keptAmong_eq (parent : Option Tag) (nodes : List Node) :
    keptAmong parent nodes = (nodes.filter fun child => parent.any (·.takes child)).flatMap kept := by
  induction nodes with
  | nil => rfl
  | cons child rest ih =>
    rw [keptAmong]
    split
    · rename_i h; rw [List.filter_cons, if_pos h, List.flatMap_cons, ih]
    · rename_i h; rw [List.filter_cons, if_neg h, ih]

theorem kept_eq (node : Node) : node.kept = node :: node.accepted.flatMap kept := by
  obtain ⟨id, name, kind, slots, characters, exporter, children⟩ := node
  rw [kept, keptAmong_eq]; rfl

mutual

/-- The sources of a draft are the kept nodes, in their order. -/
theorem sources_draft : ∀ (node : Node) (tag : Tag), node.tag? = some tag →
    (node.draft tag).sources = node.kept
  | { id, name, kind, slots, characters, exporter, children }, tag, h => by
    rw [draft, kept, sources_draftChildren children tag, h]

theorem sources_draftChildren : ∀ (nodes : List Node) (parent : Tag),
    (draftChildren parent nodes).sources = keptAmong (some parent) nodes
  | [], _ => rfl
  | child :: rest, parent => by
    have ih := sources_draftChildren rest parent
    rw [keptAmong, Option.any_some]
    by_cases htakes : parent.takes child = true
    · obtain ⟨tag, htag, hacc⟩ := Tag.takes_iff.1 htakes
      rw [if_pos htakes, draftChildren_takes htag hacc, Draft.cons, sources_draft child tag htag, ih]
    · rw [if_neg htakes, (draftChildren_drops htakes rest).2, ih]

end

end Node

mutual

/-- The blocks of a mirror in pre-order mirror the kept nodes one by one. -/
theorem Mirrors.preorder : ∀ {block : Block} {node : Node}, Mirrors node block →
    List.Forall₂ Mirrors node.kept block.preorder
  | { children, .. }, node, h => by
    rw [Node.kept_eq, Block.preorder]
    exact .cons h (Mirrors.preorderList h.children)

theorem Mirrors.preorderList : ∀ {blocks : List Block} {nodes : List Node},
    List.Forall₂ Mirrors nodes blocks →
    List.Forall₂ Mirrors (nodes.flatMap Node.kept) (Block.preorderList blocks)
  | [], _, h => by
    rw [List.forall₂_nil_right_iff] at h
    subst h; exact .nil
  | block :: blocks, _, h => by
    obtain ⟨node, nodes, hhead, htail, rfl⟩ := List.forall₂_cons_right_iff.1 h
    rw [List.flatMap_cons, Block.preorderList]
    exact List.rel_append hhead.preorder (Mirrors.preorderList htail)

end

/-- Every block of a mirror fits its children. -/
theorem Mirrors.fits {node : Node} {block : Block} (h : Mirrors node block) :
    ∀ inner ∈ block.preorder, inner.Fits := by
  intro inner hinner
  obtain ⟨i, hi⟩ := List.mem_iff_getElem?.1 hinner
  obtain ⟨source, -, hmirrors⟩ := forall₂_getElem? h.preorder.flip hi
  apply Tag.allows_of_accepts
  intro tag htag
  obtain ⟨child, hchild, rfl⟩ := List.mem_map.1 htag
  exact hmirrors.accepts child hchild

/-! ## Drafts of trees -/

/-- The block of a tree: nested as it should be, with the accepted children at every level in the
order of the tree, and with one block for each kept node, below the block of its own parent. -/
structure KeepsExactly (root : Node) (block : Block) : Prop where
  nesting : ∀ inner ∈ block.preorder, inner.Fits
  mirrors : Mirrors root block
  kept : ∀ place, root.keeps place = true → ∃ source built, root.at? place = some source ∧
    block.at? (root.target place) = some built ∧ Mirrors source built
  origin : ∀ place built, block.at? place = some built →
    ∃! origin, root.keeps origin = true ∧ root.target origin = place
  parent : ∀ place i, root.keeps (place ++ [i]) = true →
    root.keeps place = true ∧ ∃ j, root.target (place ++ [i]) = root.target place ++ [j]

theorem Mirrors.keepsExactly {root : Node} {block : Block} (h : Mirrors root block) :
    KeepsExactly root block := by
  refine ⟨h.fits, h, fun place hkeeps => Node.exists_at?_target place h hkeeps, ?_,
    fun place i hkeeps => Node.target_concat hkeeps⟩
  intro place built hat
  obtain ⟨origin, hkeeps, htarget⟩ := Node.exists_target_eq place h hat
  refine ⟨origin, ⟨hkeeps, htarget⟩, ?_⟩
  rintro other ⟨hother, hplace⟩
  exact Node.target_injective hother hkeeps (hplace.trans htarget.symm)

/-- The draft of a tagged tree keeps exactly the nodes that belong, and compiling refuses exactly
the trees whose root is no container. -/
theorem draft_keepsExactly (root : Node) :
    (∀ tag, root.tag? = some tag → ∃ draft, root.draft? = some draft ∧
      KeepsExactly root draft.value) ∧
    ∀ settings, (∃ id, Edition.compile settings root = .error (.notAContainer id)) ↔
      root.tag? ≠ some .container := by
  constructor
  · intro tag htag
    refine ⟨root.draft tag, ?_, (Node.mirrors_draft root tag htag).keepsExactly⟩
    rw [Node.draft?, htag, Option.map_some]
  · intro settings
    unfold Edition.compile
    by_cases h : root.tag? = some .container
    · rw [if_pos h]
      exact ⟨nofun, fun hne => absurd h hne⟩
    · rw [if_neg h]
      exact ⟨fun _ => h, fun _ => ⟨root.id, rfl⟩⟩

/-- A node with a tag and children and nothing else. -/
def Node.tagged (tag : Tag) (children : List Node) : Node :=
  { id := "node", name := "Node", kind := .group, characters := none, exporter := none, children
    slots := fun slot => if slot = Slot.tag then some tag.toText else none }

/-- Of a container with an image, a row and a column, the row is kept, and of it only the column
with its spacer. -/
def Node.misplaced : Node :=
  .tagged .container [.tagged .image [], .tagged .row [.tagged .text [], .tagged .column
    [.tagged .row [.tagged .column []], .tagged .spacer [.tagged .text []]]], .tagged .column []]

theorem draft_keepsExactly_misplaced :
    Node.misplaced.tag? = some .container ∧ ∃ draft, Node.misplaced.draft? = some draft ∧
      KeepsExactly Node.misplaced draft.value :=
  ⟨by decide, (draft_keepsExactly Node.misplaced).1 .container (by decide)⟩

example : (Node.misplaced.draft .container).value.preorder.map (·.tag) =
    [.container, .row, .column, .spacer] := by decide

end Newsletter
