/-
Findings of editions. A finding belongs to a place in the tree: to that of the child it is about, or,
if it is about a row as a whole, to the place behind the last child of the row. Main statement: the
findings of a tree are exactly those that belong to its kept nodes, in the order of their places;
they are added behind what was found before, and compiling adds those about failed exports, in the
order of the images.
-/
import Newsletter.Proofs.Edition.Images
import Mathlib.Data.List.Sort

namespace Newsletter

/-! ## Collecting findings -/

namespace Node

mutual

/-- The block of a node that is kept with a tag, and the findings made so far followed by those made
on the way. -/
def draftOnto (tag : Tag) (found : List Diagnostic) : Node → Block × List Diagnostic
  | node@{ id, name, children, .. } =>
    let (inner, found) := draftChildrenOnto tag found children
    ({ tag, id, name, props := node.props, text := node.blockText? tag, children := inner },
      found ++ node.closing tag inner)
termination_by structural node => node

/-- The blocks of those children that a node with the tag `parent` accepts. -/
def draftChildrenOnto (parent : Tag) (found : List Diagnostic) :
    List Node → List Block × List Diagnostic
  | [] => ([], found)
  | child :: rest =>
    match Verdict.ofChild parent child with
    | .keep tag =>
      let (block, found) := draftOnto tag found child
      let (blocks, found) := draftChildrenOnto parent found rest
      (block :: blocks, found)
    | .reject d => draftChildrenOnto parent (found ++ [d]) rest
    | .ignore => draftChildrenOnto parent found rest
termination_by structural children => children

end

/-- The block of a tree with a tagged root, and the findings made so far followed by those made on
the way. -/
def draftOnto? (found : List Diagnostic) (node : Node) : Option Block × List Diagnostic :=
  match node.tag? with
  | none => (none, found)
  | some tag =>
    let (block, found) := node.draftOnto tag found
    (some block, found)

mutual

/-- What was found before stays as it is, and makes no difference to a draft. -/
theorem draftOnto_eq : ∀ (node : Node) (tag : Tag) (found : List Diagnostic),
    node.draftOnto tag found = ((node.draft tag).value, found ++ (node.draft tag).diagnostics)
  | { id, name, kind, slots, characters, exporter, children }, tag, found => by
    rw [draftOnto, draft, draftChildrenOnto_eq children tag found]
    dsimp only
    rw [List.append_assoc]

theorem draftChildrenOnto_eq : ∀ (nodes : List Node) (parent : Tag) (found : List Diagnostic),
    draftChildrenOnto parent found nodes =
      ((draftChildren parent nodes).value, found ++ (draftChildren parent nodes).diagnostics)
  | [], _, found => by
    rw [draftChildrenOnto, draftChildren, Draft.nothing, List.append_nil]
  | child :: rest, parent, found => by
    rw [draftChildrenOnto, draftChildren]
    cases Verdict.ofChild parent child with
    | keep tag =>
      dsimp only
      rw [draftOnto_eq child tag found, draftChildrenOnto_eq rest parent, List.append_assoc]
      rfl
    | reject d =>
      dsimp only
      rw [draftChildrenOnto_eq rest parent, List.append_assoc]
      rfl
    | ignore => exact draftChildrenOnto_eq rest parent found

end

/-! ## Findings and their places -/

/-- What there is to say about a node with a tag at a position among its children, or behind the
last of them about the node itself. -/
inductive Says (node : Node) : Nat → Diagnostic → Prop
  | notARow {i : Nat} {child : Node} {stored : String} : node.tag? = some .container →
      node.children[i]? = some child → child.slots.text? "nl:type" = some stored →
      child.tag? ≠ some .row →
      Says node i
        { kind := .unsupportedChild, nodeId := some child.id,
          message := "Unsupported child type in container: " ++ stored ++ "." }
  | notAColumn {i : Nat} {child : Node} {stored : String} : node.tag? = some .row →
      node.children[i]? = some child → child.slots.text? "nl:type" = some stored →
      child.tag? ≠ some .column →
      Says node i
        { kind := .unsupportedChild, nodeId := some child.id,
          message := "Unsupported child type in section: " ++ stored ++ "." }
  | notALeaf {i : Nat} {child : Node} {stored : String} : node.tag? = some .column →
      node.children[i]? = some child → child.slots.text? "nl:type" = some stored →
      child.tag? ∉ [some .text, some .button, some .image, some .divider, some .spacer] →
      Says node i
        { kind := .unsupportedChild, nodeId := some child.id,
          message := "Unsupported tagged type ignored: " ++ stored ++ "." }
  | untagged {i : Nat} {child : Node} : node.tag? = some .column →
      node.children[i]? = some child → child.slots.text? "nl:type" = none →
      Says node i
        { kind := .untaggedChild, nodeId := some child.id,
          message := "Untagged child ignored in column: " ++ child.name ++ "." }
  | noColumns : node.tag? = some .row → (∀ child ∈ node.children, child.tag? ≠ some .column) →
      Says node node.children.length
        { kind := .missingColumns, nodeId := some node.id,
          message := "Section \"" ++ node.name ++ "\" has no columns." }

/-- A finding about a kept node or one of its children, and its place. -/
def Remarked (root : Node) (place : TreePlace) (d : Diagnostic) : Prop :=
  ∃ above i node, place = above ++ [i] ∧ root.keeps above = true ∧ root.at? above = some node ∧
    node.Says i d

/-- All findings about a tree, one for each place that has one, in the order of the places. -/
def FindsExactly (root : Node) (findings : List Diagnostic) : Prop :=
  ∃ remarks : List (TreePlace × Diagnostic), findings = remarks.map Prod.snd ∧
    remarks.Pairwise (fun a b => a.1 < b.1) ∧
    ∀ place d, (place, d) ∈ remarks ↔ root.Remarked place d

theorem at?_cons {node child : Node} {i : Nat} (h : node.children[i]? = some child)
    (place : TreePlace) : node.at? (i :: place) = child.at? place := by
  rw [at?, h]

/-- A finding is about the root and its children, or it belongs to a kept child. -/
theorem remarked_cons {root : Node} {i : Nat} {place : TreePlace} {d : Diagnostic} :
    root.Remarked (i :: place) d ↔ place = [] ∧ root.Says i d ∨
      ∃ child, root.children[i]? = some child ∧ root.accepts child = true ∧
        child.Remarked place d := by
  constructor
  · rintro ⟨above, j, node, hplace, hkeeps, hat, hremark⟩
    cases above with
    | nil =>
      cases hplace
      cases hat
      exact .inl ⟨rfl, hremark⟩
    | cons k above =>
      cases hplace
      obtain ⟨child, hchild, hacc, hkeeps⟩ := keeps_cons.1 hkeeps
      rw [at?_cons hchild] at hat
      exact .inr ⟨child, hchild, hacc, above, j, node, rfl, hkeeps, hat, hremark⟩
  · rintro (⟨rfl, hremark⟩ | ⟨child, hchild, hacc, above, j, node, rfl, hkeeps, hat, hremark⟩)
    · exact ⟨[], i, root, rfl, rfl, rfl, hremark⟩
    · refine ⟨i :: above, j, node, rfl, keeps_cons.2 ⟨child, hchild, hacc, hkeeps⟩, ?_, hremark⟩
      rw [at?_cons hchild, hat]

theorem not_remarked_nil {root : Node} {d : Diagnostic} : ¬root.Remarked [] d := by
  rintro ⟨above, i, node, hplace, -⟩
  simp at hplace

/-! ## What a draft reports -/

/-- A row is built without columns if none of its children is one. -/
theorem draftChildren_row_eq_nil {nodes : List Node} : (draftChildren .row nodes).value = [] ↔
    ∀ child ∈ nodes, child.tag? ≠ some .column := by
  have hmirrors := mirrors_draftChildren nodes .row
  have hempty : (draftChildren .row nodes).value = [] ↔ nodes.filter (Tag.takes .row) = [] := by
    rw [← List.length_eq_zero_iff, ← hmirrors.length_eq, List.length_eq_zero_iff]
  rw [hempty, List.filter_eq_nil_iff]
  refine forall₂_congr fun child _ => not_congr ?_
  rw [Tag.takes_iff]
  constructor
  · rintro ⟨inner, htag, hacc⟩
    cases inner <;> first | exact htag | cases hacc
  · exact fun htag => ⟨.column, htag, rfl⟩

theorem tag?_eq_none_iff {node : Node} : node.tag? = none ↔ node.slots.text? "nl:type" = none :=
  Option.map_eq_none_iff

theorem tag?_eq_some_iff {node : Node} {tag : Tag} :
    node.tag? = some tag ↔ ∃ stored, node.slots.text? "nl:type" = some stored ∧
      Tag.ofText stored = tag :=
  Option.map_eq_some_iff

theorem isLeaf_eq_false_iff {tag : Tag} : tag.isLeaf = false ↔
    some tag ∉ [some .text, some .button, some .image, some .divider, some .spacer] := by
  cases tag <;> simp [Tag.isLeaf]

/-- A container or a row rejects the tagged children that it does not expect. -/
theorem nested_reject_iff {parent expected : Tag} {child : Node} {d : Diagnostic} :
    Verdict.nested parent expected child = .reject d ↔
      ∃ stored, child.slots.text? "nl:type" = some stored ∧ child.tag? ≠ some expected ∧
        d = { kind := .unsupportedChild, nodeId := some child.id,
              message := "Unsupported child type in " ++ parent.toText ++ ": " ++ stored ++ "." } := by
  unfold Verdict.nested
  cases htag : child.tag? with
  | none => simp [tag?_eq_none_iff.1 htag]
  | some tag =>
    obtain ⟨stored, hstored, rfl⟩ := tag?_eq_some_iff.1 htag
    dsimp only
    rw [hstored, Diagnostic.unsupportedIn, Tag.toText_ofText]
    split
    · rename_i heq
      simp [heq]
    · rename_i hne
      simp [hne, eq_comm (a := d)]

/-- A column rejects what is no leaf. -/
theorem inColumn_reject_iff {child : Node} {d : Diagnostic} :
    Verdict.inColumn child = .reject d ↔
      (∃ stored, child.slots.text? "nl:type" = some stored ∧
        child.tag? ∉ [some .text, some .button, some .image, some .divider, some .spacer] ∧
        d = { kind := .unsupportedChild, nodeId := some child.id,
              message := "Unsupported tagged type ignored: " ++ stored ++ "." }) ∨
      child.slots.text? "nl:type" = none ∧
        d = { kind := .untaggedChild, nodeId := some child.id,
              message := "Untagged child ignored in column: " ++ child.name ++ "." } := by
  unfold Verdict.inColumn
  cases htag : child.tag? with
  | none => simp [tag?_eq_none_iff.1 htag, Diagnostic.untagged, eq_comm]
  | some tag =>
    obtain ⟨stored, hstored, rfl⟩ := tag?_eq_some_iff.1 htag
    dsimp only
    rw [hstored, ← isLeaf_eq_false_iff, Diagnostic.unsupportedInColumn, Tag.toText_ofText]
    cases (Tag.ofText stored).isLeaf <;> simp [eq_comm]

/-- What there is to say about a child is the reason for which it is rejected, and what there is to
say about a node itself closes its draft. -/
theorem says_iff {node : Node} {tag : Tag} (h : node.tag? = some tag) {i : Nat} {d : Diagnostic} :
    node.Says i d ↔
      (∃ child, node.children[i]? = some child ∧ Verdict.ofChild tag child = .reject d) ∨
      i = node.children.length ∧ d ∈ node.closing tag (draftChildren tag node.children).value := by
  constructor
  · intro hremark
    cases hremark with
    | notARow hnode hchild hstored hne | notAColumn hnode hchild hstored hne =>
      rw [h] at hnode
      cases hnode
      exact .inl ⟨_, hchild, nested_reject_iff.2 ⟨_, hstored, hne, rfl⟩⟩
    | notALeaf hnode hchild hstored hleaf =>
      rw [h] at hnode
      cases hnode
      exact .inl ⟨_, hchild, inColumn_reject_iff.2 (.inl ⟨_, hstored, hleaf, rfl⟩)⟩
    | untagged hnode hchild hnone =>
      rw [h] at hnode
      cases hnode
      exact .inl ⟨_, hchild, inColumn_reject_iff.2 (.inr ⟨hnone, rfl⟩)⟩
    | noColumns hnode hnone =>
      rw [h] at hnode
      cases hnode
      refine .inr ⟨rfl, ?_⟩
      rw [closing, if_pos ⟨rfl, draftChildren_row_eq_nil.2 hnone⟩]
      exact List.mem_singleton_self _
  · rintro (⟨child, hchild, hreject⟩ | ⟨rfl, hd⟩)
    · cases tag with
      | container =>
        obtain ⟨stored, hstored, hne, rfl⟩ := nested_reject_iff.1 hreject
        exact .notARow h hchild hstored hne
      | row =>
        obtain ⟨stored, hstored, hne, rfl⟩ := nested_reject_iff.1 hreject
        exact .notAColumn h hchild hstored hne
      | column =>
        rcases inColumn_reject_iff.1 hreject with ⟨stored, hstored, hleaf, rfl⟩ | ⟨hnone, rfl⟩
        · exact .notALeaf h hchild hstored hleaf
        · exact .untagged h hchild hnone
      | text | button | image | divider | spacer | unrecognized stored => cases hreject
    · unfold closing at hd
      split at hd
      · rename_i hrow
        obtain ⟨rfl, hnone⟩ := hrow
        rw [List.mem_singleton.1 hd]
        exact .noColumns h (draftChildren_row_eq_nil.1 hnone)
      · cases hd

/-! ## Places of what a draft reports -/

mutual

/-- The findings of a draft, each with its place. -/
def remarks (tag : Tag) : Node → List (TreePlace × Diagnostic)
  | node@{ children, .. } =>
    remarksAmong tag 0 children ++
      (node.closing tag (draftChildren tag children).value).map fun d => ([children.length], d)
termination_by structural node => node

/-- The findings about children, the first of which stands at the position `start`. -/
def remarksAmong (parent : Tag) (start : Nat) : List Node → List (TreePlace × Diagnostic)
  | [] => []
  | child :: rest =>
    match Verdict.ofChild parent child with
    | .keep tag =>
      (remarks tag child).map (fun remark => (start :: remark.1, remark.2)) ++
        remarksAmong parent (start + 1) rest
    | .reject d => ([start], d) :: remarksAmong parent (start + 1) rest
    | .ignore => remarksAmong parent (start + 1) rest
termination_by structural children => children

end

mutual

theorem map_snd_remarks : ∀ (node : Node) (tag : Tag),
    (node.remarks tag).map Prod.snd = (node.draft tag).diagnostics
  | { id, name, kind, slots, characters, exporter, children }, tag => by
    rw [remarks, draft, List.map_append, map_snd_remarksAmong children tag 0, List.map_map]
    exact congrArg _ (List.map_id _)

theorem map_snd_remarksAmong : ∀ (nodes : List Node) (parent : Tag) (start : Nat),
    (remarksAmong parent start nodes).map Prod.snd = (draftChildren parent nodes).diagnostics
  | [], _, _ => rfl
  | child :: rest, parent, start => by
    have ih := map_snd_remarksAmong rest parent (start + 1)
    rw [remarksAmong, draftChildren]
    cases Verdict.ofChild parent child with
    | keep tag =>
      dsimp only
      rw [List.map_append, List.map_map, ih, Draft.cons, ← map_snd_remarks child tag]
      rfl
    | reject d => exact congrArg (d :: ·) ih
    | ignore => exact ih

end

mutual

/-- A draft reports what there is to say about the kept nodes, and at its place. -/
theorem mem_remarks : ∀ {node : Node} {tag : Tag}, node.tag? = some tag →
    ∀ {place : TreePlace} {d : Diagnostic}, (place, d) ∈ node.remarks tag ↔ node.Remarked place d
  | { id, name, kind, slots, characters, exporter, children }, tag, h, place, d => by
    rw [remarks, List.mem_append, mem_remarksAmong, List.mem_map]
    cases place with
    | nil => simp [not_remarked_nil]
    | cons i place =>
      rw [remarked_cons, says_iff h, accepts_eq h]
      simp only [Nat.zero_add, List.cons.injEq]
      constructor
      · rintro (⟨j, below, child, ⟨rfl, rfl⟩, hchild, ⟨htakes, hbelow⟩ | ⟨rfl, hreject⟩⟩ |
          ⟨e, he, heq⟩)
        · exact .inr ⟨child, hchild, htakes, hbelow⟩
        · exact .inl ⟨rfl, .inl ⟨child, hchild, hreject⟩⟩
        · cases heq
          exact .inl ⟨rfl, .inr ⟨rfl, he⟩⟩
      · rintro (⟨rfl, ⟨child, hchild, hreject⟩ | ⟨rfl, hd⟩⟩ | ⟨child, hchild, htakes, hbelow⟩)
        · exact .inl ⟨i, [], child, ⟨rfl, rfl⟩, hchild, .inr ⟨rfl, hreject⟩⟩
        · exact .inr ⟨d, hd, rfl⟩
        · exact .inl ⟨i, place, child, ⟨rfl, rfl⟩, hchild, .inl ⟨htakes, hbelow⟩⟩

theorem mem_remarksAmong : ∀ {nodes : List Node} {parent : Tag} {start : Nat} {place : TreePlace}
    {d : Diagnostic}, (place, d) ∈ remarksAmong parent start nodes ↔
      ∃ i below child, place = (start + i) :: below ∧ nodes[i]? = some child ∧
        (parent.takes child = true ∧ child.Remarked below d ∨
          below = [] ∧ Verdict.ofChild parent child = .reject d)
  | [], _, _, _, _ => by simp [remarksAmong]
  | child :: rest, parent, start, place, d => by
    -- what is said about the others, counted from the first child
    have ih : (place, d) ∈ remarksAmong parent (start + 1) rest ↔
        ∃ i below other, place = (start + (i + 1)) :: below ∧ rest[i]? = some other ∧
          (parent.takes other = true ∧ other.Remarked below d ∨
            below = [] ∧ Verdict.ofChild parent other = .reject d) := by
      rw [mem_remarksAmong]
      simp only [Nat.add_assoc, Nat.add_comm 1]
    have hfirst : (place, d) ∈ remarksAmong parent start (child :: rest) ↔
        (∃ below, place = start :: below ∧ (parent.takes child = true ∧ child.Remarked below d ∨
            below = [] ∧ Verdict.ofChild parent child = .reject d)) ∨
          (place, d) ∈ remarksAmong parent (start + 1) rest := by
      rw [remarksAmong]
      cases hverdict : Verdict.ofChild parent child with
      | keep tag =>
        have htakes := Verdict.exists_keep_iff.1 ⟨tag, hverdict⟩
        have htag := (Verdict.ofChild_keep_iff.1 hverdict).1
        simp only [List.mem_append, List.mem_map, Prod.exists, Prod.mk.injEq, mem_remarks htag]
        grind
      | reject e =>
        have htakes : ¬parent.takes child = true := by
          rw [← Verdict.exists_keep_iff, hverdict]
          exact nofun
        simp only [List.mem_cons, Prod.mk.injEq, Verdict.reject.injEq]
        grind
      | ignore =>
        have htakes : ¬parent.takes child = true := by
          rw [← Verdict.exists_keep_iff, hverdict]
          exact nofun
        simp [htakes]
    rw [hfirst, ih]
    constructor
    · rintro (⟨below, rfl, h⟩ | ⟨i, below, other, rfl, hother, h⟩)
      · exact ⟨0, below, child, rfl, rfl, h⟩
      · exact ⟨i + 1, below, other, rfl, hother, h⟩
    · rintro ⟨i, below, other, rfl, hother, h⟩
      cases i with
      | zero => cases hother; exact .inl ⟨below, rfl, h⟩
      | succ i => exact .inr ⟨i, below, other, rfl, hother, h⟩

end

theorem pairwise_map_cons (i : Nat) {remarks : List (TreePlace × Diagnostic)}
    (h : remarks.Pairwise fun a b => a.1 < b.1) :
    (remarks.map fun remark => (i :: remark.1, remark.2)).Pairwise fun a b => a.1 < b.1 := by
  rw [List.pairwise_map]
  exact h.imp fun hlt => List.cons_lt_cons_iff.2 (.inr ⟨rfl, hlt⟩)

mutual

/-- The places of the findings of a draft ascend. -/
theorem pairwise_remarks : ∀ (node : Node) (tag : Tag),
    (node.remarks tag).Pairwise fun a b => a.1 < b.1
  | { id, name, kind, slots, characters, exporter, children }, tag => by
    rw [remarks, List.pairwise_append]
    refine ⟨pairwise_remarksAmong children tag 0, ?_, ?_⟩
    · -- at most one finding closes a draft
      unfold closing
      split
      · exact List.pairwise_singleton _ _
      · exact List.Pairwise.nil
    · rintro ⟨place, d⟩ hinner last hlast
      obtain ⟨i, below, child, rfl, hchild, -⟩ := mem_remarksAmong.1 hinner
      obtain ⟨e, -, rfl⟩ := List.mem_map.1 hlast
      have hlt : i < children.length := (List.getElem?_eq_some_iff.1 hchild).1
      exact List.cons_lt_cons_iff.2 (.inl (by omega))

theorem pairwise_remarksAmong : ∀ (nodes : List Node) (parent : Tag) (start : Nat),
    (remarksAmong parent start nodes).Pairwise fun a b => a.1 < b.1
  | [], _, _ => List.Pairwise.nil
  | child :: rest, parent, start => by
    have ih := pairwise_remarksAmong rest parent (start + 1)
    -- the places of the others begin with a greater position
    have hlater : ∀ (below : TreePlace), ∀ remark ∈ remarksAmong parent (start + 1) rest,
        start :: below < remark.1 := by
      rintro below ⟨place, d⟩ hremark
      obtain ⟨i, other, found, rfl, -⟩ := mem_remarksAmong.1 hremark
      exact List.cons_lt_cons_iff.2 (.inl (by omega))
    rw [remarksAmong]
    cases Verdict.ofChild parent child with
    | keep tag =>
      refine List.pairwise_append.2 ⟨pairwise_map_cons start (pairwise_remarks child tag), ih, ?_⟩
      intro first hfirst later hrest
      obtain ⟨remark, -, rfl⟩ := List.mem_map.1 hfirst
      exact hlater _ later hrest
    | reject d => exact List.pairwise_cons.2 ⟨hlater [], ih⟩
    | ignore => exact ih

end

/-- A draft finds what there is to find. -/
theorem findsExactly_draft {node : Node} {tag : Tag} (h : node.tag? = some tag) :
    node.FindsExactly (node.draft tag).diagnostics :=
  ⟨node.remarks tag, (node.map_snd_remarks tag).symm, node.pairwise_remarks tag,
    fun _ _ => mem_remarks h⟩

/-- No two lists of findings are those of one tree. -/
theorem FindsExactly.unique {root : Node} {findings others : List Diagnostic}
    (h : root.FindsExactly findings) (h' : root.FindsExactly others) : others = findings := by
  obtain ⟨remarks, rfl, hascend, hmem⟩ := h
  obtain ⟨remarks', rfl, hascend', hmem'⟩ := h'
  have hsame : remarks' = remarks := by
    refine hascend'.eq_of_mem_iff hascend fun ⟨place, d⟩ => ?_
    rw [hmem, hmem']
  rw [hsame]

/-- There is nothing to find in a tree without a tag at its root. -/
theorem findsExactly_untagged {node : Node} (h : node.tag? = none) : node.FindsExactly [] := by
  refine ⟨[], rfl, List.Pairwise.nil, fun place d => ⟨nofun, ?_⟩⟩
  have hremark : ∀ i, ¬node.Says i d := by
    rintro i (⟨htag, -⟩ | ⟨htag, -⟩ | ⟨htag, -⟩ | ⟨htag, -⟩ | ⟨htag, -⟩) <;>
      rw [h] at htag <;> cases htag
  intro hremarked
  cases place with
  | nil => exact absurd hremarked not_remarked_nil
  | cons i place =>
    rcases remarked_cons.1 hremarked with ⟨-, hsaid⟩ | ⟨child, -, hacc, -⟩
    · exact absurd hsaid (hremark i)
    · rw [accepts, h] at hacc
      cases hacc

end Node

/-! ## Findings of editions -/

/-- The image that a node exports at a scale, if it does. -/
def Node.pngAt? (scale : Scale) (node : Node) : Option Bytes :=
  node.exporter.bind fun run => (run { format := .png, scale }).toOption

namespace Edition

/-- The findings of an edition: those of the draft, then the images without an export. -/
theorem diagnostics_of_compile {settings : Settings} {root : Node}
    (h : root.tag? = some .container) : ∃ edition, compile settings root = .ok edition ∧
      edition.diagnostics = (root.draft .container).diagnostics ++
        ((Node.images root.kept).filter fun node => (node.pngAt? settings.exportScale).isNone).map
          fun node =>
            { kind := .exportFailed, nodeId := some node.id,
              message := "Could not export image for node " ++ node.name ++ "." } := by
  obtain ⟨steps, hflat, hown⟩ := extraction_exportsOwn settings h
  refine ⟨_, if_pos h, ?_⟩
  dsimp only
  rw [hflat.diagnostics, hown.diagnostics, filter_notExported]
  rfl

/-- Every tree has one list of findings: those that belong to it, in the order of their places. A
draft adds them behind what was found before, and compiling a container adds the kept images that
were not exported, in their order, and nothing else; the warnings are the messages of all these. -/
theorem findings_exact (root : Node) : ∃! findings, root.FindsExactly findings ∧
    (∀ found, root.draftOnto? found = (root.draft?.map (·.value), found ++ findings)) ∧
    ∀ settings, root.tag? = some .container → ∃ edition, compile settings root = .ok edition ∧
      edition.diagnostics = findings ++
        ((Node.images root.kept).filter fun node => (node.pngAt? settings.exportScale).isNone).map
          (fun node =>
            { kind := .exportFailed, nodeId := some node.id,
              message := "Could not export image for node " ++ node.name ++ "." }) ∧
      edition.warnings = edition.diagnostics.map (·.message) := by
  cases htag : root.tag? with
  | none =>
    refine ⟨[], ⟨Node.findsExactly_untagged htag, fun found => ?_, fun settings => nofun⟩,
      fun others h => (Node.findsExactly_untagged htag).unique h.1⟩
    rw [Node.draftOnto?, Node.draft?, htag, List.append_nil]
    rfl
  | some tag =>
    refine ⟨(root.draft tag).diagnostics, ⟨Node.findsExactly_draft htag, fun found => ?_,
      fun settings hcontainer => ?_⟩, fun others h => (Node.findsExactly_draft htag).unique h.1⟩
    · rw [Node.draftOnto?, Node.draft?, htag]
      dsimp only
      rw [Node.draftOnto_eq]
      rfl
    · cases hcontainer
      obtain ⟨edition, hcompile, hdiagnostics⟩ := diagnostics_of_compile htag
      exact ⟨edition, hcompile, hdiagnostics, rfl⟩

/-- A container with a row that lacks columns, and a row with a column that holds an image without an
export and two nodes that do not belong there. -/
def untidy : Node :=
  .tagged .container [.tagged .row [.tagged .spacer []], .tagged .column [],
    .tagged .row [.tagged .column [{ Node.tagged .text [] with slots := fun _ => none },
      .tagged .image [], .tagged .row []]]]

theorem findings_exact_untidy : untidy.tag? = some .container ∧ ∃ findings edition,
    untidy.FindsExactly findings ∧ compile .standard untidy = .ok edition ∧
      edition.diagnostics = findings ++
        [{ kind := .exportFailed, nodeId := some "node",
           message := "Could not export image for node Node." }] := by
  obtain ⟨findings, ⟨hexact, -, hcompiled⟩, -⟩ := findings_exact untidy
  obtain ⟨edition, hcompile, hdiagnostics, -⟩ := hcompiled .standard (by decide)
  exact ⟨by decide, findings, edition, hexact, hcompile, hdiagnostics⟩

example : (untidy.draft .container).diagnostics.map (·.kind) =
    [.unsupportedChild, .missingColumns, .unsupportedChild, .untaggedChild, .unsupportedChild] := by
  decide

end Edition

end Newsletter
