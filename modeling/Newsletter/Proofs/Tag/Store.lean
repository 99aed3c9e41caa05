/-
Tags, properties and versions in the slots of a node, among other writes to the same slots. Main
statement: whatever was written, each of the three is read from the last text put in its own slot;
and what a tagging stored is what is read, until one of the three slots is written again.
-/
import Newsletter.Proofs.Json.Properties
import Newsletter.Tag.Slots

namespace Newsletter

open Json

/-! ## Reading slots -/

namespace Slots

variable {slots : Slots}

theorem text?_of_ne {name text : String} (h : slots name = some text) (htext : text ≠ "") :
    slots.text? name = some text := by
  rw [text?, h, Option.filter_some, if_pos (by simpa using htext)]

/-- An empty text stands for no object anyway, so it does not matter that it counts as absent. -/
theorem props_eq (slots : Slots) :
    slots.props = ((slots Slot.props).bind Props.decoder.read?).getD Props.empty := by
  unfold props text?
  cases slots Slot.props with
  | none => rfl
  | some text =>
    by_cases htext : text = ""
    · subst htext
      rfl
    · rw [Option.filter_some, if_pos (by simpa using htext)]

/-- The properties in a text are the members of the object that the text stands for, and none if it
stands for no object. -/
theorem props_of_text {text : String} (h : slots Slot.props = some text) :
    (∀ members, Decoder.value.read? text = some (.object members) →
      slots.props.entries = members) ∧
    ((∀ members, Decoder.value.read? text ≠ some (.object members)) →
      slots.props = Props.empty) := by
  rw [props_eq, h, Option.bind_some]
  constructor
  · intro members hread
    have hreadable := Value.readable_iff.2 ⟨text, hread⟩
    have hprops : Props.decoder.read? text = some ⟨members, hreadable.sorted⟩ :=
      Props.read?_eq_some_iff.2 hread
    rw [hprops, Option.getD_some]
  · intro hread
    have hprops : Props.decoder.read? text = none :=
      Option.eq_none_iff_forall_ne_some.2 fun found hfound =>
        hread found.entries (Props.read?_eq_some_iff.1 hfound)
    rw [hprops, Option.getD_none]

/-- A tag with its properties and the version stand in their slots. -/
structure Holds (slots : Slots) (tag : Tag) (props : Props) : Prop where
  tag : slots Slot.tag = some tag.toText
  props : slots Slot.props = some props.compact
  version : slots Slot.version = some schemaVersion

namespace Holds

variable {tag : Tag} {stored : Props}

theorem tag?_eq (h : slots.Holds tag stored) :
    slots.tag? = if tag.toText = "" then none else some (Tag.ofText tag.toText) := by
  by_cases htext : tag.toText = ""
  · rw [if_pos htext, tag?, text?, h.tag, htext]
    rfl
  · rw [if_neg htext, tag?, text?_of_ne h.tag htext, Option.map_some]

/-- The properties are read as they were stored, unless they have too many levels to be read. -/
theorem props_eq (h : slots.Holds tag stored) :
    slots.props = if stored.toTree.levels ≤ maxLevels then stored else Props.empty := by
  rw [Slots.props_eq, h.props, Option.bind_some, Props.read?_compact]
  split <;> rfl

theorem version?_eq (h : slots.Holds tag stored) : slots.version? = some schemaVersion :=
  text?_of_ne h.version (by decide)

end Holds

end Slots

/-! ## Writes -/

/-- A write to the slots of a node: of a text to one slot, or of a tag with its properties. -/
inductive SlotWrite where
  | raw (slot text : String)
  | tagging (tag : Tag) (props : Props)

namespace SlotWrite

/-- The slots after a write. -/
def apply (slots : Dict String) : SlotWrite → Dict String
  | .raw slot text => slots.insert slot text
  | .tagging tag props => slots.setTag tag props

/-- The slots after some writes. -/
def run (slots : Dict String) (writes : List SlotWrite) : Dict String := writes.foldl apply slots

/-- The text that a write puts in a slot, if it puts one there. -/
def put? (slot : String) : SlotWrite → Option String
  | .raw other text => if slot = other then some text else none
  | .tagging tag props =>
    if slot = Slot.version then some "0.1"
    else if slot = Slot.props then some props.compact
    else if slot = Slot.tag then some tag.toText
    else none

/-- The last text that writes put in a slot, or else the one it held before. -/
def lastText? (slot : String) (slots : Dict String) (writes : List SlotWrite) : Option String :=
  (writes.reverse.findSome? (put? slot)).or (slots.get? slot)

theorem get?_apply (slots : Dict String) (write : SlotWrite) (slot : String) :
    (write.apply slots).get? slot = (write.put? slot).or (slots.get? slot) := by
  cases write with
  | raw other text =>
    rw [apply, Dict.get?_insert, put?]
    split <;> rfl
  | tagging tag props =>
    simp only [apply, Dict.setTag, Dict.get?_insert, put?]
    split
    · rfl
    · split
      · rfl
      · split <;> rfl

/-- By induction on the writes, with the slots they start from general. -/
theorem get?_run (slot : String) : ∀ (slots : Dict String) (writes : List SlotWrite),
    (run slots writes).get? slot = lastText? slot slots writes
  | _, [] => rfl
  | slots, write :: writes => by
    have hrest := get?_run slot (write.apply slots) writes
    rw [lastText?, get?_apply] at hrest
    rw [run, List.foldl_cons, ← run, hrest, lastText?, List.reverse_cons, List.findSome?_append,
      List.findSome?_singleton, Option.or_assoc]

/-- A write that no later one follows in a slot is the last one there. -/
theorem lastText?_append {slot : String} {text : String} {write : SlotWrite}
    {earlier later : List SlotWrite} (slots : Dict String) (hput : write.put? slot = some text)
    (hlater : ∀ after ∈ later, after.put? slot = none) :
    lastText? slot slots (earlier ++ write :: later) = some text := by
  have hnone : later.reverse.findSome? (put? slot) = none :=
    List.findSome?_eq_none_iff.2 fun after hafter => hlater after (List.mem_reverse.1 hafter)
  rw [lastText?, List.reverse_append, List.reverse_cons, List.append_assoc, List.findSome?_append,
    hnone, Option.none_or, List.findSome?_append, List.findSome?_singleton, hput, Option.some_or,
    Option.some_or]

/-- A slot in which nothing is put keeps its text. -/
theorem lastText?_of_untouched {slot : String} {writes : List SlotWrite} (slots : Dict String)
    (h : ∀ write ∈ writes, write.put? slot = none) :
    lastText? slot slots writes = slots.get? slot := by
  have hnone : writes.reverse.findSome? (put? slot) = none :=
    List.findSome?_eq_none_iff.2 fun write hwrite => h write (List.mem_reverse.1 hwrite)
  rw [lastText?, hnone, Option.none_or]

/-! ## Reading after writes -/

/-- What is read after some writes. -/
structure Remembers (slots : Dict String) (writes : List SlotWrite) : Prop where
  found : ∀ slot, (run slots writes).get? slot = lastText? slot slots writes
  /-- Taggings leave all slots but their own three alone. -/
  others : ∀ slot, slot ≠ Slot.tag → slot ≠ Slot.props → slot ≠ Slot.version →
    (∀ text, .raw slot text ∉ writes) → (run slots writes).get? slot = slots.get? slot
  /-- No other slot and no earlier text matters to the tag. -/
  tag : ∀ before alike, lastText? Slot.tag before alike = lastText? Slot.tag slots writes →
    Slots.tag? (run before alike).get? = Slots.tag? (run slots writes).get?
  props : ∀ before alike, lastText? Slot.props before alike = lastText? Slot.props slots writes →
    Slots.props (run before alike).get? = Slots.props (run slots writes).get?
  version : ∀ before alike,
    lastText? Slot.version before alike = lastText? Slot.version slots writes →
      Slots.version? (run before alike).get? = Slots.version? (run slots writes).get?
  /-- A tagging is read back as long as nothing is put in its slots. -/
  tagging : ∀ earlier text stored later,
    writes = earlier ++ .tagging (Tag.ofText text) stored :: later →
    (∀ write ∈ later, ∀ slot ∈ [Slot.tag, Slot.props, Slot.version], write.put? slot = none) →
      Slots.tag? (run slots writes).get? = (if text = "" then none else some (Tag.ofText text)) ∧
      Slots.props (run slots writes).get? =
        (if stored.toTree.levels ≤ maxLevels then stored else Props.empty) ∧
      Slots.version? (run slots writes).get? = some "0.1"
  object : ∀ text members, lastText? Slot.props slots writes = some text →
    Decoder.value.read? text = some (.object members) →
      (Slots.props (run slots writes).get?).entries = members
  noObject : ∀ text, lastText? Slot.props slots writes = some text →
    (∀ members, Decoder.value.read? text ≠ some (.object members)) →
      Slots.props (run slots writes).get? = Props.empty
  noProps : lastText? Slot.props slots writes = none →
    Slots.props (run slots writes).get? = Props.empty

/-- A tagging that is not written over is what the slots hold. -/
theorem holds_run (slots : Dict String) (tag : Tag) (stored : Props)
    (earlier later : List SlotWrite) (hlater : ∀ write ∈ later,
      ∀ slot ∈ [Slot.tag, Slot.props, Slot.version], write.put? slot = none) :
    Slots.Holds (run slots (earlier ++ .tagging tag stored :: later)).get? tag stored := by
  have hkept : ∀ slot ∈ [Slot.tag, Slot.props, Slot.version], ∀ write ∈ later,
      write.put? slot = none :=
    fun slot hslot write hwrite => hlater write hwrite slot hslot
  constructor
  · rw [get?_run]
    exact lastText?_append slots rfl (hkept _ (by simp))
  · rw [get?_run]
    exact lastText?_append slots rfl (hkept _ (by simp))
  · rw [get?_run]
    exact lastText?_append slots rfl (hkept _ (by simp))

theorem holds_setTag (slots : Dict String) (tag : Tag) (stored : Props) :
    Slots.Holds (slots.setTag tag stored).get? tag stored :=
  holds_run slots tag stored [] [] nofun

/-- Whatever was written to whatever slots, the last text in a slot is all that counts, and a
tagging is read back until its slots are written again. -/
theorem remembers_run (slots : Dict String) (writes : List SlotWrite) : Remembers slots writes := by
  constructor
  case found => exact fun slot => get?_run slot slots writes
  case others =>
    intro slot htag hprops hversion hraw
    rw [get?_run]
    refine lastText?_of_untouched slots fun write hwrite => ?_
    cases write with
    | raw other text =>
      rw [put?, if_neg]
      rintro rfl
      exact hraw text hwrite
    | tagging tag props => rw [put?, if_neg hversion, if_neg hprops, if_neg htag]
  case tag =>
    intro before alike h
    rw [Slots.tag?, Slots.tag?, Slots.text?, Slots.text?, get?_run, get?_run, h]
  case props =>
    intro before alike h
    rw [Slots.props_eq, Slots.props_eq, get?_run, get?_run, h]
  case version =>
    intro before alike h
    rw [Slots.version?, Slots.version?, Slots.text?, Slots.text?, get?_run, get?_run, h]
  case tagging =>
    rintro earlier text stored later rfl hlater
    have hholds := holds_run slots (Tag.ofText text) stored earlier later hlater
    have htag := hholds.tag?_eq
    rw [Tag.toText_ofText] at htag
    exact ⟨htag, hholds.props_eq, hholds.version?_eq⟩
  case object =>
    intro text members htext
    rw [← get?_run] at htext
    exact (Slots.props_of_text htext).1 members
  case noObject =>
    intro text htext
    rw [← get?_run] at htext
    exact (Slots.props_of_text htext).2
  case noProps =>
    intro hnone
    rw [Slots.props_eq, get?_run, hnone]
    rfl

/-- Some properties. -/
def heroProps : Props := .ofMembers [("columns", .number (.ofNat 2)), ("align", .string "left")]

/-- Properties that are not JSON, a tagging, and a text in a slot of another name. -/
def repairs : List SlotWrite :=
  [.raw Slot.props "not JSON", .tagging (Tag.ofText "hero") heroProps, .raw "note" "checked"]

theorem remembers_run_repairs :
    let slots := run Dict.empty repairs
    Slots.tag? slots.get? = some (.unrecognized "hero") ∧
      Slots.props slots.get? = heroProps ∧ Slots.version? slots.get? = some "0.1" := by
  have hlater : ∀ write ∈ [SlotWrite.raw "note" "checked"],
      ∀ slot ∈ [Slot.tag, Slot.props, Slot.version], write.put? slot = none := by
    intro write hwrite
    cases List.mem_singleton.1 hwrite
    decide
  obtain ⟨htag, hprops, hversion⟩ := (remembers_run Dict.empty repairs).tagging
    [.raw Slot.props "not JSON"] "hero" heroProps [.raw "note" "checked"] rfl hlater
  rw [if_pos (by decide +kernel)] at hprops
  exact ⟨htag, hprops, hversion⟩

end SlotWrite

end Newsletter
