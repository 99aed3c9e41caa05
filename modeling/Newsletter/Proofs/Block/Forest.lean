/-
The element forest of a block: what a reader of its text has to find. `Depicts` says it clause by
clause, with the attributes of `Attribute.Shown`, without the functions that write markup, and no
block has two forests. Main statement: reading the text of any block, however it is nested and
whatever its properties and texts hold, gives its forest.
-/
import Newsletter.Block.Markup
import Newsletter.Proofs.Markup.Attributes
import Newsletter.Proofs.Markup.RoundTrip

namespace Newsletter

/-! ## Attributes -/

namespace Attribute

theorem isName_sources (tag : Tag) : ∀ name ∈ (sources tag).map Prod.fst, Markup.IsName name := by
  cases tag <;> simp only [sources, List.map_cons, List.map_nil] <;> decide

theorem attributesOk_ofProps (tag : Tag) (props : Props) : Markup.AttributesOk (ofProps tag props) := by
  have h := shown_ofProps tag props
  exact ⟨fun a ha => isName_sources tag a.1 (h.order.subset (List.mem_map_of_mem ha)), h.nodup⟩

end Attribute

/-! ## Forests -/

namespace Block

open Attribute

mutual

/-- The forest of a block. A container is a document with a body, rows and columns hold the forests
of their children, and a block that is not recognized hides all below it. -/
inductive Depicts : Block → List Markup → Prop
  | container {block attributes inner} : block.tag = .container →
      Shown .container block.props attributes → DepictsList block.children inner →
      Depicts block [.element "mjml" [] [.element "mj-body" attributes inner]]
  | row {block attributes inner} : block.tag = .row → Shown .row block.props attributes →
      DepictsList block.children inner → Depicts block [.element "mj-section" attributes inner]
  | column {block attributes inner} : block.tag = .column →
      Shown .column block.props attributes → DepictsList block.children inner →
      Depicts block [.element "mj-column" attributes inner]
  | text {block attributes content} : block.tag = .text → Shown .text block.props attributes →
      block.text = some content → content ≠ "" →
      Depicts block [.element "mj-text" attributes [.text content]]
  | noText {block attributes} : block.tag = .text → Shown .text block.props attributes →
      block.text = none ∨ block.text = some "" → Depicts block [.element "mj-text" attributes []]
  | button {block attributes content} : block.tag = .button →
      Shown .button block.props attributes → block.text = some content → content ≠ "" →
      Depicts block [.element "mj-button" attributes [.text content]]
  | noLabel {block attributes} : block.tag = .button → Shown .button block.props attributes →
      block.text = none ∨ block.text = some "" →
      Depicts block [.element "mj-button" attributes [.text "Button"]]
  | image {block attributes} : block.tag = .image → Shown .image block.props attributes →
      Depicts block [.void "mj-image" attributes]
  | divider {block attributes} : block.tag = .divider → Shown .divider block.props attributes →
      Depicts block [.void "mj-divider" attributes]
  | spacer {block attributes} : block.tag = .spacer → Shown .spacer block.props attributes →
      Depicts block [.void "mj-spacer" attributes]
  | unrecognized {block stored} : block.tag = .unrecognized stored → Depicts block []

/-- The forests of blocks one after the other. -/
inductive DepictsList : List Block → List Markup → Prop
  | nil : DepictsList [] []
  | cons {block blocks first others} : Depicts block first → DepictsList blocks others →
      DepictsList (block :: blocks) (first ++ others)

end

theorem buttonText_some {content : String} (h : content ≠ "") : buttonText (some content) = content := by
  simp [buttonText, Option.filter, h]

theorem ofText_of_ne {content : String} (h : content ≠ "") : Markup.ofText content = [.text content] := by
  rw [Markup.ofText, if_neg h]

theorem depicts_assemble {block : Block} {inner : List Markup}
    (h : DepictsList block.children inner) :
    Depicts block (assemble block.tag block.props block.text inner) := by
  have hshown := shown_ofProps block.tag block.props
  cases htag : block.tag with
  | container => rw [htag] at hshown; exact .container htag hshown h
  | row => rw [htag] at hshown; exact .row htag hshown h
  | column => rw [htag] at hshown; exact .column htag hshown h
  | text =>
    rw [htag] at hshown
    cases htext : block.text with
    | none => exact .noText htag hshown (.inl htext)
    | some content =>
      by_cases hc : content = ""
      · subst hc; exact .noText htag hshown (.inr htext)
      · have := Depicts.text htag hshown htext hc
        rwa [← ofText_of_ne hc] at this
  | button =>
    rw [htag] at hshown
    cases htext : block.text with
    | none => exact .noLabel htag hshown (.inl htext)
    | some content =>
      by_cases hc : content = ""
      · subst hc; exact .noLabel htag hshown (.inr htext)
      · have := Depicts.button htag hshown htext hc
        rw [← ofText_of_ne hc, ← buttonText_some hc] at this
        exact this
  | image => rw [htag] at hshown; exact .image htag hshown
  | divider => rw [htag] at hshown; exact .divider htag hshown
  | spacer => rw [htag] at hshown; exact .spacer htag hshown
  | unrecognized stored => exact .unrecognized htag

mutual

/-- What a block writes is its forest. -/
theorem depicts_markup : ∀ block : Block, Depicts block block.markup
  | { children, .. } => depicts_assemble (depictsList_markupList children)

theorem depictsList_markupList : ∀ blocks : List Block, DepictsList blocks (markupList blocks)
  | [] => .nil
  | block :: blocks => .cons (depicts_markup block) (depictsList_markupList blocks)

end

/-- A forest of a block is made of forests of its children. -/
theorem Depicts.exists_inner {block : Block} {forest : List Markup} (h : Depicts block forest) :
    ∃ inner, DepictsList block.children inner ∧
      forest = assemble block.tag block.props block.text inner := by
  -- leaves do not look at their children, so any forest of those will do
  have hinner := depictsList_markupList block.children
  have hshown := shown_ofProps block.tag block.props
  cases h with
  | container htag hattr hlist | row htag hattr hlist | column htag hattr hlist =>
    rw [htag] at hshown ⊢
    rw [hattr.unique hshown]
    exact ⟨_, hlist, rfl⟩
  | text htag hattr htext hc =>
    rw [htag] at hshown ⊢
    rw [hattr.unique hshown, htext, ← ofText_of_ne hc]
    exact ⟨_, hinner, rfl⟩
  | noText htag hattr htext =>
    rw [htag] at hshown ⊢
    rw [hattr.unique hshown]
    obtain htext | htext := htext <;> rw [htext] <;> exact ⟨_, hinner, rfl⟩
  | button htag hattr htext hc =>
    rw [htag] at hshown ⊢
    rw [hattr.unique hshown, htext, ← ofText_of_ne hc]
    refine ⟨_, hinner, ?_⟩
    simp only [assemble, buttonText_some hc, elementName]
  | noLabel htag hattr htext =>
    rw [htag] at hshown ⊢
    rw [hattr.unique hshown]
    obtain htext | htext := htext <;> rw [htext] <;> exact ⟨_, hinner, rfl⟩
  | image htag hattr | divider htag hattr | spacer htag hattr =>
    rw [htag] at hshown ⊢
    rw [hattr.unique hshown]
    exact ⟨_, hinner, rfl⟩
  | unrecognized htag =>
    rw [htag]
    exact ⟨_, hinner, rfl⟩

mutual

/-- A block has no forest but the one it writes. -/
theorem Depicts.eq_markup : ∀ {block : Block} {forest : List Markup}, Depicts block forest →
    forest = block.markup
  | { children, .. }, _, h => by
    obtain ⟨inner, hinner, rfl⟩ := h.exists_inner
    rw [DepictsList.eq_markupList hinner, markup]

theorem DepictsList.eq_markupList : ∀ {blocks : List Block} {forest : List Markup},
    DepictsList blocks forest → forest = markupList blocks
  | [], _, h => by cases h; rfl
  | block :: blocks, _, h => by
    cases h with
    | cons hfirst hothers =>
      rw [Depicts.eq_markup hfirst, DepictsList.eq_markupList hothers, markupList]

end

/-! ## Reading a block's text -/

open Markup (WritableList isText)

/-- Elements only, all of which can be written. -/
def Elements (forest : List Markup) : Prop :=
  WritableList forest ∧ ∀ piece ∈ forest, piece.isText = false

theorem Elements.append {first others : List Markup} (hf : Elements first) (ho : Elements others) :
    Elements (first ++ others) := by
  induction first with
  | nil => exact ho
  | cons piece pieces ih =>
    obtain ⟨⟨hpiece, -, hpieces⟩, htext⟩ := hf
    have htail := ih ⟨hpieces, fun p hp => htext p (List.mem_cons_of_mem _ hp)⟩
    have hnone := htext piece List.mem_cons_self
    refine ⟨⟨hpiece, fun h => absurd h (by rw [hnone]; decide), htail.1⟩, ?_⟩
    intro p hp
    rcases List.mem_cons.1 hp with rfl | hp
    · exact hnone
    · exact htail.2 p hp

theorem elements_element {name : String} (hname : Markup.IsName name)
    {attributes : List (String × String)} (hok : Markup.AttributesOk attributes)
    {children : List Markup} (h : WritableList children) :
    Elements [.element name attributes children] := by
  refine ⟨⟨⟨hname, hok, h⟩, fun ht => absurd ht (by simp [isText]), trivial⟩, ?_⟩
  intro p hp
  rw [List.mem_singleton.1 hp]; rfl

theorem elements_void {name : String} (hname : Markup.IsName name)
    {attributes : List (String × String)} (hok : Markup.AttributesOk attributes) :
    Elements [.void name attributes] := by
  refine ⟨⟨⟨hname, hok⟩, fun ht => absurd ht (by simp [isText]), trivial⟩, ?_⟩
  intro p hp
  rw [List.mem_singleton.1 hp]; rfl

theorem writableList_ofText (content : String) : WritableList (Markup.ofText content) := by
  unfold Markup.ofText
  split
  · trivial
  · rename_i h
    exact ⟨h, fun _ next hnext => absurd hnext (by simp), trivial⟩

theorem elements_assemble (tag : Tag) (props : Props) (text : Option String) {inner : List Markup}
    (h : Elements inner) : Elements (assemble tag props text inner) := by
  have hok := attributesOk_ofProps tag props
  cases tag with
  | container =>
    exact elements_element (by decide) ⟨by simp, by simp⟩ (elements_element (by decide) hok h.1).1
  | row | column => exact elements_element (by decide) hok h.1
  | text | button => exact elements_element (by decide) hok (writableList_ofText _)
  | image | divider | spacer => exact elements_void (by decide) hok
  | unrecognized stored => exact ⟨trivial, by simp [assemble]⟩

mutual

theorem elements_markup : ∀ block : Block, Elements block.markup
  | { tag, props, text, children, .. } =>
    elements_assemble tag props text (elements_markupList children)

theorem elements_markupList : ∀ blocks : List Block, Elements (markupList blocks)
  | [] => ⟨trivial, by simp [markupList]⟩
  | block :: blocks => (elements_markup block).append (elements_markupList blocks)

end

theorem read?_render (block : Block) : Markup.read? block.render = some block.markup :=
  Markup.read?_renderList (elements_markup block).1

/-- The text of a block is markup from its first to its last character, and reading it gives the
block's forest, of which there is exactly one. -/
theorem exists_forest_read_render (block : Block) :
    ∃ forest, Markup.read? block.render = some forest ∧ Depicts block forest ∧
      ∀ other, Depicts block other → other = forest :=
  ⟨block.markup, read?_render block, depicts_markup block, fun _ h => h.eq_markup⟩

end Block

end Newsletter
