/-
Taggings of the selected shape. Main statement: a message that asks for a tagging is confirmed
exactly if one shape is selected, the tag is a text that is not empty, the properties are an object
or absent, and the shape is in the document; what it asks for is then read from the first shape with
the identifier, and nothing else has changed.
-/
import Newsletter.Proofs.Design.Assembly
import Newsletter.Proofs.Design.Places
import Newsletter.Proofs.Session.Refusals
import Newsletter.Proofs.Tag.Store

namespace Newsletter

open Json

/-! ## Taggings that are read -/

namespace Tagging

theorem eq_some_of_present? {found : Option Value} {v : Value} (h : present? found = some v) :
    found = some v := by
  unfold present? at h
  split at h
  · cases h
  · cases h
  · exact h

theorem props_of_ofParts? {tag props : Option Value} {tagging : Tagging}
    (h : ofParts? tag props = some tagging) : tagging.props = present? props := by
  unfold ofParts? at h
  split at h
  · cases h
    rfl
  · cases h
    rfl
  · cases h

/-- The properties of a tagging are a part of the value that holds it. -/
theorem readable_props {payload : Value} {tagging : Tagging} (hpayload : payload.Readable)
    (h : ofValue? payload = some tagging) {v : Value} (hv : tagging.props = some v) :
    v.Readable := by
  unfold ofValue? at h
  split at h
  · rw [props_of_ofParts? h] at hv
    exact hpayload.lookup (eq_some_of_present? hv)
  · cases h
    cases hv
  · rw [props_of_ofParts? h] at hv
    cases hv
  · rename_i tag props
    rw [props_of_ofParts? h] at hv
    cases eq_some_of_present? hv
    exact hpayload.item (by simp)
  · cases h

end Tagging

namespace Request

theorem tagging_of_ofParts? {type : String} {payload : Value} {tagging : Tagging}
    (h : ofParts? type payload = some (.tagSelection tagging)) :
    tagging = (Tagging.ofValue? payload).getD Tagging.empty := by
  unfold ofParts? at h
  simp only [ite_eq_iff, Option.some.injEq, reduceCtorEq, and_false, false_or, or_false,
    tagSelection.injEq] at h
  obtain ⟨-, -, -, -, -, -, -, -, -, -, rfl⟩ := h
  rfl

/-- The properties of a tagging that a text asks for are as they can be in a text. -/
theorem readable_props {message : Value} {tagging : Tagging} (hmessage : message.Readable)
    (h : ofMessage? message = some (.tagSelection tagging)) {v : Value}
    (hv : tagging.props = some v) : v.Readable := by
  have hpayload : ∀ {type : String} {payload : Value}, payload.Readable →
      ofParts? type payload = some (.tagSelection tagging) → v.Readable := by
    intro type payload hpayload hparts
    have htagging := tagging_of_ofParts? hparts
    cases hvalue : Tagging.ofValue? payload with
    | none =>
      rw [hvalue] at htagging
      subst htagging
      cases hv
    | some found =>
      rw [hvalue] at htagging
      subst htagging
      exact Tagging.readable_props hpayload hvalue hv
  have hnull : Value.null.Readable := ⟨trivial, Nat.zero_le _⟩
  unfold ofMessage? at h
  split at h
  · rename_i members
    split at h
    · refine hpayload ?_ h
      cases hlookup : members.lookup "payload" with
      | none => exact hnull
      | some payload => exact hmessage.lookup hlookup
    · cases h
  · exact hpayload hnull h
  · exact hpayload (hmessage.item (by simp)) h
  · cases h

end Request

namespace Session

variable {σ : Type} {host : Surface σ} {tagging : Tagging}

/-! ## What is stored -/

/-- The properties of a tagging that come to the given members. -/
def Lists (tagging : Tagging) (members : List (String × Value)) : Prop :=
  tagging.props = some (.object members) ∨
    (tagging.props = none ∨ tagging.props = some .null) ∧ members = []

theorem properties_eq_ok_iff {props : Props} :
    Tagging.properties tagging = .ok props ↔
      ∃ members, Lists tagging members ∧ props = Props.ofMembers members := by
  have hempty : Props.empty = Props.ofMembers [] := rfl
  unfold Tagging.properties Lists
  cases tagging.props with
  | none => simp [hempty, eq_comm]
  | some v =>
    cases v with
    | null | object => simp [hempty, eq_comm]
    | bool | number | string | array => simp

theorem taggingFor_eq_ok_iff {state : σ} {id name : String} {props : Props} :
    taggingFor host tagging state = .ok (id, name, props) ↔
      host.selection state = [id] ∧ (tagging.tag = some name ∧ name ≠ "") ∧
        Tagging.properties tagging = .ok props := by
  have htag : tagging.tag.filter (· ≠ "") = some name ↔ tagging.tag = some name ∧ name ≠ "" := by
    rw [Option.filter_eq_some_iff, decide_eq_true_eq]
  rw [← htag, ← selected_eq_ok_iff]
  unfold taggingFor
  cases selected host state with
  | error refusal => simp [bind, Except.bind]
  | ok one =>
    cases tagging.tag.filter (· ≠ "") with
    | none => simp [bind, Except.bind]
    | some text =>
      cases Tagging.properties tagging with
      | error refusal => simp [bind, Except.bind]
      | ok found => simp [bind, Except.bind, pure, Except.pure]

/-- A tagging that a document meets: it is complete, and the one selected shape is there. -/
structure Meets (doc : Document) (tagging : Tagging) (id name : String)
    (members : List (String × Value)) : Prop where
  selection : doc.selection = [id]
  tag : tagging.tag = some name
  nonempty : name ≠ ""
  props : Lists tagging members
  present : ∃ shape ∈ doc.shapes, shape.id = id

variable {doc : Document}

theorem tagSelection_of_meets {id name : String} {members : List (String × Value)}
    (h : Meets doc tagging id name members) :
    ∃ later, doc.update? id (·.setTag (Tag.ofText name) (.ofMembers members)) = some later ∧
      tagSelection Document.surface tagging doc =
        (.ok (.info ("Tagged selection as " ++ name ++ ".")), later) := by
  have hfor : taggingFor Document.surface tagging doc = .ok (id, name, .ofMembers members) :=
    taggingFor_eq_ok_iff.2
      ⟨h.selection, ⟨h.tag, h.nonempty⟩, properties_eq_ok_iff.2 ⟨members, h.props, rfl⟩⟩
  obtain ⟨target, htarget⟩ := Option.isSome_iff_exists.1 (Document.isSome_find?.2 h.present)
  obtain ⟨later, hlater, -⟩ :=
    Document.exists_update? (·.setTag (Tag.ofText name) (.ofMembers members)) htarget
  have hset : Document.surface.setTag? id (Tag.ofText name) (.ofMembers members) doc = some later :=
    hlater
  refine ⟨later, hlater, ?_⟩
  unfold tagSelection
  simp only [hfor, hset]

/-- Only what is met is confirmed. -/
theorem meets_of_tagSelection {response : Response} {later : Document}
    (h : tagSelection Document.surface tagging doc = (.ok response, later)) :
    ∃ id name members, Meets doc tagging id name members := by
  unfold tagSelection at h
  split at h
  · cases h
  · rename_i id name props hfor
    obtain ⟨hselection, ⟨htag, hname⟩, hproperties⟩ := taggingFor_eq_ok_iff.1 hfor
    obtain ⟨members, hprops, rfl⟩ := properties_eq_ok_iff.1 hproperties
    split at h
    · cases h
    · rename_i tagged hset
      obtain ⟨-, -, place, target, hfirst, -⟩ := Document.exists_first_update? hset
      exact ⟨id, name, members, hselection, htag, hname, hprops, target,
        Shape.mem_preorderList_of_atIn? hfirst.found, hfirst.id_eq⟩

/-! ## What has changed -/

/-- A shape with another tag and other properties: both are read from it as they were given, and all
else that it holds is the same. -/
structure TaggedAs (name : String) (members : List (String × Value)) (shape tagged : Shape) :
    Prop where
  tag : tagged.tag? = some (Tag.ofText name)
  text : (Tag.ofText name).toText = name
  props : (Slots.props tagged.slots.get?).entries = members
  version : Slots.version? tagged.slots.get? = some "0.1"
  slots : ∀ slot, slot ≠ Slot.tag → slot ≠ Slot.props → slot ≠ Slot.version →
    tagged.slots.get? slot = shape.slots.get? slot
  fields : tagged = { shape with slots := tagged.slots }

/-- A document in which the first shape with an identifier is tagged, and no other shape has
changed. -/
structure Retagged (id name : String) (members : List (String × Value)) (doc later : Document) :
    Prop where
  selection : later.selection = doc.selection
  lastNumber : later.lastNumber = doc.lastNumber
  first : ∃ place shape tagged, Shape.First doc.at? id place shape ∧
    later.at? place = some tagged ∧ TaggedAs name members shape tagged ∧
      ∀ other ≠ place, (later.at? other).map Shape.bare = (doc.at? other).map Shape.bare

theorem taggedAs_setTag {name : String} (hname : name ≠ "") {members : List (String × Value)}
    (hreadable : (Value.object members).Readable) (shape : Shape) :
    TaggedAs name members shape (shape.setTag (Tag.ofText name) (.ofMembers members)) := by
  have hentries : (Props.ofMembers members).entries = members :=
    Props.entries_ofMembers hreadable.sorted
  have hlevels : (Props.ofMembers members).toTree.levels ≤ maxLevels := by
    rw [Props.toTree, Props.toValue, hentries]
    exact hreadable.levels
  have hholds := SlotWrite.holds_setTag shape.slots (Tag.ofText name) (.ofMembers members)
  constructor
  case tag =>
    have htag := hholds.tag?_eq
    rw [Tag.toText_ofText, if_neg hname] at htag
    exact htag
  case text => exact Tag.toText_ofText name
  case props =>
    have hprops := hholds.props_eq
    rw [if_pos hlevels] at hprops
    exact (congrArg Props.entries hprops).trans hentries
  case version => exact hholds.version?_eq
  case slots =>
    intro slot htag hprops hversion
    have hwrite := SlotWrite.get?_apply shape.slots
      (.tagging (Tag.ofText name) (.ofMembers members)) slot
    rw [SlotWrite.put?, if_neg hversion, if_neg hprops, if_neg htag, Option.none_or] at hwrite
    exact hwrite
  case fields => rfl

theorem retagged_of_update? {id name : String} (hname : name ≠ "")
    {members : List (String × Value)} (hreadable : (Value.object members).Readable)
    {later : Document}
    (h : doc.update? id (·.setTag (Tag.ofText name) (.ofMembers members)) = some later) :
    Retagged id name members doc later := by
  obtain ⟨hselection, hnumber, place, target, hfirst, hreplaced⟩ :=
    Document.exists_first_update? h
  have hat := hreplaced.inside []
  rw [List.append_nil] at hat
  exact ⟨hselection, hnumber, place, target, _, hfirst, hat, taggedAs_setTag hname hreadable target,
    fun other hother => hreplaced.of_children (Shape.atIn?_append hfirst.found) rfl hother⟩

/-- The properties that a tagging comes to are as they can be in a text. -/
theorem Lists.readable {members : List (String × Value)} (h : Lists tagging members)
    (hreadable : ∀ v, tagging.props = some v → v.Readable) : (Value.object members).Readable := by
  rcases h with hobject | ⟨-, rfl⟩
  · exact hreadable _ hobject
  · exact ⟨⟨Ascending.nil, trivial⟩, by decide⟩

/-- A message that asks for a tagging gets one answer: a confirmation if the document meets the
tagging, and then the first shape with the selected identifier, and no other, is tagged as asked. -/
theorem receive_tagSelection (settings : Settings) (doc : Document) {text : String}
    {message : Value} (hread : Decoder.value.read? text = some message)
    (hrequest : Request.ofMessage? message = some (.tagSelection tagging)) :
    ∃ response later, receive Document.surface settings message doc = ([response], later) ∧
      ((∃ info, response = .info info) ↔
        ∃ id name members, Meets doc tagging id name members) ∧
      ∀ id name members, Meets doc tagging id name members →
        Retagged id name members doc later := by
  refine ⟨(handle Document.surface settings (.tagSelection tagging) doc).1,
    (handle Document.surface settings (.tagSelection tagging) doc).2, ?_, ⟨?_, ?_⟩, ?_⟩
  · unfold receive
    rw [hrequest]
  · rintro ⟨info, hinfo⟩
    exact meets_of_tagSelection (outcome_of_info (Prod.ext hinfo rfl))
  · rintro ⟨id, name, members, hmeets⟩
    obtain ⟨later, -, htagged⟩ := tagSelection_of_meets hmeets
    have houtcome : outcome Document.surface settings (.tagSelection tagging) doc = _ := htagged
    rw [handle_ok houtcome]
    exact ⟨_, rfl⟩
  · intro id name members hmeets
    obtain ⟨later, hupdate, htagged⟩ := tagSelection_of_meets hmeets
    have houtcome : outcome Document.surface settings (.tagSelection tagging) doc = _ := htagged
    rw [handle_ok houtcome]
    have hreadable := hmeets.props.readable fun v hv =>
      Request.readable_props (Value.readable_iff.2 ⟨text, hread⟩) hrequest hv
    exact retagged_of_update? hmeets.nonempty hreadable hupdate

/-- The members of some properties. -/
def heroMembers : List (String × Value) := [("align", .string "left")]

/-- A message that asks for a tag that is not known. -/
def heroMessage : Value :=
  .object [("payload", .object [("nlType", .string "hero"), ("props", .object heroMembers)]),
    ("type", .string "TAG_SELECTION")]

/-- Two shapes with one identifier, of which the second is below the first. -/
def twins : Document :=
  { roots := [(Shape.plain "twin" "Outer" .board).addChild (.plain "twin" "Inner" .group)]
    selection := ["twin"], lastNumber := 0 }

theorem receive_tagSelection_twins :
    Decoder.value.read? heroMessage.compact = some heroMessage ∧
      ∃ tagging, Request.ofMessage? heroMessage = some (.tagSelection tagging) ∧
        Meets twins tagging "twin" "hero" heroMembers ∧
        ∃ info later, receive Document.surface .standard heroMessage twins =
            ([.info info], later) ∧ Retagged "twin" "hero" heroMembers twins later := by
  have hmembers : (Value.object heroMembers).Sorted := ⟨by decide, trivial, trivial⟩
  have hsorted : heroMessage.Sorted :=
    ⟨by decide, ⟨by decide, trivial, hmembers, trivial⟩, trivial, trivial⟩
  have hread : Decoder.value.read? heroMessage.compact = some heroMessage := by
    rw [Value.read?_compact, if_pos (by decide), Value.canonical_eq hsorted]
  have hrequest : Request.ofMessage? heroMessage =
      some (.tagSelection { tag := some "hero", props := some (.object heroMembers) }) := rfl
  have hmeets : Meets twins { tag := some "hero", props := some (.object heroMembers) } "twin"
      "hero" heroMembers :=
    ⟨rfl, rfl, by decide, .inl rfl, _, List.mem_cons_self, rfl⟩
  obtain ⟨response, later, hreceive, hinfo, htagged⟩ :=
    receive_tagSelection .standard twins hread hrequest
  obtain ⟨info, rfl⟩ := hinfo.2 ⟨_, _, _, hmeets⟩
  exact ⟨hread, _, hrequest, hmeets, info, later, hreceive, htagged _ _ _ hmeets⟩

end Session

end Newsletter
