/-
Messages that are requests. One form is documented: an object with a type and a payload. Main
statement: a message is read as documented of the object that names what stands in its arrays by
position; so it is read as documented itself, unless it is an array that begins with a known type or
its payload is an array that holds a tagging.
-/
import Newsletter.Session.Request

namespace Newsletter

open Json

/-! ## The documented form -/

namespace Tagging

/-- What is documented of the members of a payload: a text under `nlType` and anything under
`props`, each of which may be missing or null. -/
def ofMembers (members : List (String × Value)) : Tagging :=
  match members.lookup "nlType" with
  | none | some .null => { tag := none, props := present? (members.lookup "props") }
  | some (.string tag) => { tag := some tag, props := present? (members.lookup "props") }
  | some _ => empty

/-- What is documented of a payload; one that is no object counts as a missing one. -/
def ofPayload : Option Value → Tagging
  | some (.object members) => ofMembers members
  | _ => empty

end Tagging

namespace Request

/-- The requests that ask for the same whatever their payload, by their types. -/
def plain : List (String × Request) :=
  [("PING", .ping), ("INSERT_CONTAINER", .insert .container), ("INSERT_ROW", .insert .row),
    ("INSERT_COLUMN", .insert .column), ("INSERT_TEXT", .insert .text),
    ("INSERT_BUTTON", .insert .button), ("INSERT_IMAGE", .insert .image),
    ("INSERT_DIVIDER", .insert .divider), ("INSERT_SPACER", .insert .spacer),
    ("EXPORT_MJML", .exportMarkup)]

/-- The known types. -/
def types : List String := "TAG_SELECTION" :: plain.map (·.1)

/-- The request of a type. -/
def ofType? (type : String) (tagging : Tagging) : Option Request :=
  if type = "TAG_SELECTION" then some (.tagSelection tagging) else plain.lookup type

/-- The request that is documented for a message: that of an object with a known type. -/
def documented? : Value → Option Request
  | .object members =>
    match members.lookup "type" with
    | some (.string type) => ofType? type (Tagging.ofPayload (members.lookup "payload"))
    | _ => none
  | _ => none

theorem lookup_cons_eq_ite {α : Type} (key other : String) (a : α) (entries : List (String × α)) :
    ((other, a) :: entries).lookup key = if key = other then some a else entries.lookup key := by
  rw [List.lookup_cons]
  split
  · rename_i h; rw [if_pos (by simpa using h)]
  · rename_i h; rw [if_neg (by simpa using h)]

theorem ofType?_eq_none_iff {type : String} {tagging : Tagging} :
    ofType? type tagging = none ↔ type ∉ types := by
  unfold ofType? types
  rw [List.mem_cons, not_or]
  split
  · rename_i h; simp [h]
  · rename_i h
    rw [List.lookup_eq_none_iff, List.mem_map]
    constructor
    · rintro hnone
      refine ⟨h, fun ⟨entry, hentry, htype⟩ => ?_⟩
      simpa [htype] using hnone entry hentry
    · rintro ⟨-, hnone⟩ entry hentry
      exact bne_iff_ne.2 fun htype => hnone ⟨entry, hentry, htype.symm⟩

/-- Types are told apart by a table, apart from the one that has a use for the payload. -/
theorem ofParts?_eq (type : String) (payload : Value) :
    ofParts? type payload = ofType? type ((Tagging.ofValue? payload).getD Tagging.empty) := by
  unfold ofParts? ofType? plain
  simp only [lookup_cons_eq_ite, List.lookup_nil]
  by_cases h : type = "TAG_SELECTION"
  · subst h
    rfl
  · simp only [if_neg h]

end Request

/-! ## Arrays -/

/-- The object that gives names to the items of an array, if there are enough names. -/
def Json.Value.named (names : List String) : Value → Value
  | .array items => if items.length ≤ names.length then .object (names.zip items) else .array items
  | v => v

namespace Tagging

theorem getD_ofParts? (members : List (String × Value)) :
    (ofParts? (members.lookup "nlType") (members.lookup "props")).getD empty =
      ofMembers members := by
  unfold ofMembers ofParts?
  cases members.lookup "nlType" with
  | none => rfl
  | some tag => cases tag <;> rfl

/-- A payload is read as documented of the object that names its items. -/
theorem getD_ofValue? (payload : Option Value) :
    (ofValue? (payload.getD .null)).getD empty =
      ofPayload (payload.map (Value.named ["nlType", "props"])) := by
  cases payload with
  | none => rfl
  | some payload =>
    cases payload with
    | null | bool | number | string => rfl
    | object members => exact getD_ofParts? members
    | array items =>
      match items with
      | [] => rfl
      | [tag] => exact getD_ofParts? [("nlType", tag)]
      | [tag, props] => exact getD_ofParts? [("nlType", tag), ("props", props)]
      | _ :: _ :: _ :: _ => simp [ofValue?, Value.named, ofPayload]

/-- An array that holds a tagging which is not empty. -/
inductive Positional : Value → Prop
  | tag {tag : String} {rest : List Value} (short : rest.length ≤ 1) :
    Positional (.array (.string tag :: rest))
  | props {props : Value} (present : props ≠ .null) : Positional (.array [.null, props])

theorem positional_pair_iff {tag props : Value} : Positional (.array [tag, props]) ↔
    (∃ s, tag = .string s) ∨ tag = .null ∧ props ≠ .null := by
  constructor
  · rintro (_ | h)
    · exact .inl ⟨_, rfl⟩
    · exact .inr ⟨rfl, h⟩
  · rintro (⟨s, rfl⟩ | ⟨rfl, h⟩)
    · exact .tag (Nat.le_refl 1)
    · exact .props h

/-- An array is read as documented, and so as the empty tagging, unless it holds another one. -/
theorem getD_ofValue?_array_eq_iff (items : List Value) :
    (ofValue? (.array items)).getD empty = empty ↔ ¬ Positional (.array items) := by
  match items with
  | [] => exact iff_of_true rfl nofun
  | [tag] =>
    cases tag with
    | string s => exact iff_of_false nofun fun h => h (.tag (Nat.zero_le 1))
    | null | bool | number | array | object => exact iff_of_true rfl nofun
  | [tag, props] =>
    rw [positional_pair_iff]
    cases tag with
    | string s => exact iff_of_false nofun fun h => h (.inl ⟨s, rfl⟩)
    | bool | number | array | object => exact iff_of_true rfl (by simp)
    | null => cases props <;> simp [ofValue?, ofParts?, present?, empty]
  | _ :: _ :: third :: rest =>
    refine iff_of_true rfl ?_
    rintro (short | _)
    simp at short

/-- A payload is read as documented unless it holds a tagging by position. -/
theorem getD_ofValue?_eq_iff (payload : Option Value) :
    (ofValue? (payload.getD .null)).getD empty = ofPayload payload ↔
      ∀ found, payload = some found → ¬ Positional found := by
  cases payload with
  | none => exact iff_of_true rfl nofun
  | some payload =>
    have hsome : (∀ found, some payload = some found → ¬ Positional found) ↔
        ¬ Positional payload := by simp
    rw [hsome]
    cases payload with
    | null | bool | number | string => exact iff_of_true rfl nofun
    | object members => exact iff_of_true (getD_ofParts? members) nofun
    | array items => exact getD_ofValue?_array_eq_iff items

end Tagging

namespace Request

/-! ## Messages -/

/-- The members of a message with names for the items of an array under `payload`. -/
def spelledMembers (members : List (String × Value)) : List (String × Value) :=
  members.map fun (key, value) =>
    (key, if key = "payload" then value.named ["nlType", "props"] else value)

/-- The message with names for what stands in its arrays by position. -/
def spelled (message : Value) : Value :=
  match message.named ["type", "payload"] with
  | .object members => .object (spelledMembers members)
  | other => other

/-- A message that is read although it does not have the documented form, or as more than that
form says. -/
inductive Positional : Value → Prop
  /-- An array that begins with a known type. -/
  | message {type : String} {rest : List Value} (known : type ∈ types) (short : rest.length ≤ 1) :
    Positional (.array (.string type :: rest))
  /-- An object that asks for a tagging given by position. -/
  | payload {members : List (String × Value)} {payload : Value}
    (type : members.lookup "type" = some (.string "TAG_SELECTION"))
    (found : members.lookup "payload" = some payload) (positional : Tagging.Positional payload) :
    Positional (.object members)

theorem lookup_spelledMembers (members : List (String × Value)) (key : String) :
    (spelledMembers members).lookup key = (members.lookup key).map fun value =>
      if key = "payload" then value.named ["nlType", "props"] else value := by
  induction members with
  | nil => rfl
  | cons member members ih =>
    obtain ⟨other, value⟩ := member
    show ((other, _) :: spelledMembers members).lookup key = _
    rw [lookup_cons_eq_ite, lookup_cons_eq_ite, ih]
    by_cases h : key = other
    · rw [if_pos h, if_pos h, h]; rfl
    · rw [if_neg h, if_neg h]

section

variable {members : List (String × Value)} {type : String}

theorem ofMessage?_of_type (h : members.lookup "type" = some (.string type)) :
    ofMessage? (.object members) = ofType? type
      ((Tagging.ofValue? ((members.lookup "payload").getD .null)).getD Tagging.empty) := by
  rw [ofMessage?, h, ← ofParts?_eq]

theorem documented?_of_type (h : members.lookup "type" = some (.string type)) :
    documented? (.object members) =
      ofType? type (Tagging.ofPayload (members.lookup "payload")) := by
  rw [documented?, h]

/-- An object whose type is no text is no request. -/
theorem not_request_of_type (h : ¬ ∃ type, members.lookup "type" = some (.string type)) :
    ofMessage? (.object members) = none ∧ documented? (.object members) = none := by
  have hnone : ∀ type, members.lookup "type" ≠ some (.string type) :=
    fun type htype => h ⟨type, htype⟩
  rw [ofMessage?, documented?]
  constructor
  all_goals
    split
    · rename_i htype; exact absurd htype (hnone _)
    · rfl

end

theorem ofMessage?_object (members : List (String × Value)) :
    ofMessage? (.object members) = documented? (.object (spelledMembers members)) := by
  have htype : (spelledMembers members).lookup "type" = members.lookup "type" := by
    rw [lookup_spelledMembers]
    exact Option.map_id'
  have hpayload : (spelledMembers members).lookup "payload" =
      (members.lookup "payload").map (Value.named ["nlType", "props"]) := lookup_spelledMembers _ _
  by_cases h : ∃ type, members.lookup "type" = some (.string type)
  · obtain ⟨type, h⟩ := h
    rw [ofMessage?_of_type h, documented?_of_type (htype.trans h), hpayload, Tagging.getD_ofValue?]
  · rw [(not_request_of_type h).1, (not_request_of_type (htype ▸ h)).2]

/-- A message is read as documented of the object that names the items of its arrays. -/
theorem ofMessage?_eq_documented?_spelled (message : Value) :
    ofMessage? message = documented? (spelled message) := by
  cases message with
  | null | bool | number | string => rfl
  | object members => exact ofMessage?_object members
  | array items =>
    match items with
    | [] => rfl
    | [type] =>
      refine .trans ?_ (ofMessage?_object [("type", type)])
      cases type <;> rfl
    | [type, payload] =>
      refine .trans ?_ (ofMessage?_object [("type", type), ("payload", payload)])
      cases type <;> rfl
    | _ :: _ :: _ :: _ => simp [ofMessage?, spelled, Value.named, documented?]

theorem ofType?_congr {type : String} {tagging other : Tagging}
    (h : type = "TAG_SELECTION" → tagging = other) :
    ofType? type tagging = ofType? type other := by
  unfold ofType?
  split
  · rename_i htype; rw [h htype]
  · rfl

/-- An object is read as documented unless it asks for a tagging given by position. -/
theorem ofMessage?_object_eq_iff (members : List (String × Value)) :
    ofMessage? (.object members) = documented? (.object members) ↔
      ¬ Positional (.object members) := by
  by_cases h : ∃ type, members.lookup "type" = some (.string type)
  · obtain ⟨type, htype⟩ := h
    rw [ofMessage?_of_type htype, documented?_of_type htype]
    by_cases htag : type = "TAG_SELECTION"
    · subst htag
      have hsame : ∀ tagging other : Tagging,
          ofType? "TAG_SELECTION" tagging = ofType? "TAG_SELECTION" other ↔ tagging = other := by
        simp [ofType?]
      rw [hsame, Tagging.getD_ofValue?_eq_iff]
      constructor
      · rintro h (_ | ⟨-, hfound, hpositional⟩)
        exact h _ hfound hpositional
      · exact fun h found hfound hpositional => h (.payload htype hfound hpositional)
    · refine iff_of_true (ofType?_congr fun h => absurd h htag) ?_
      rintro (_ | ⟨hother, -, -⟩)
      rw [htype, Option.some.injEq, Value.string.injEq] at hother
      exact htag hother
  · obtain ⟨hread, hdocumented⟩ := not_request_of_type h
    refine iff_of_true (hread.trans hdocumented.symm) ?_
    rintro (_ | ⟨htype, -, -⟩)
    exact h ⟨_, htype⟩

/-- No array is documented; one is no request unless it begins with a known type. -/
theorem ofMessage?_array_eq_iff (items : List Value) :
    ofMessage? (.array items) = none ↔ ¬ Positional (.array items) := by
  have hread : ∀ {type : String} {payload : Value} {rest : List Value}, rest.length ≤ 1 →
      (ofParts? type payload = none ↔ ¬ Positional (.array (.string type :: rest))) := by
    intro type payload rest hshort
    rw [ofParts?_eq, ofType?_eq_none_iff]
    constructor
    · rintro hunknown ⟨hknown, -⟩
      exact hunknown hknown
    · exact fun h hknown => h (.message hknown hshort)
  match items with
  | [] => exact iff_of_true rfl nofun
  | [type] =>
    cases type with
    | string type => exact hread (Nat.zero_le 1)
    | null | bool | number | array | object => exact iff_of_true rfl nofun
  | [type, payload] =>
    cases type with
    | string type => exact hread (Nat.le_refl 1)
    | null | bool | number | array | object => exact iff_of_true rfl nofun
  | first :: _ :: _ :: _ =>
    refine iff_of_true (by cases first <;> rfl) ?_
    rintro (⟨-, hshort⟩ | _)
    simp at hshort

/-- The messages of which something is documented are objects with a known type. -/
theorem documented?_ne_none_iff {message : Value} : documented? message ≠ none ↔
    ∃ members type, message = .object members ∧
      members.lookup "type" = some (.string type) ∧ type ∈ types := by
  cases message with
  | null | bool | number | string | array =>
    refine iff_of_false (absurd rfl) ?_
    rintro ⟨members, type, hmessage, -⟩
    cases hmessage
  | object members =>
    by_cases h : ∃ type, members.lookup "type" = some (.string type)
    · obtain ⟨type, htype⟩ := h
      rw [documented?_of_type htype, Ne, ofType?_eq_none_iff, Decidable.not_not]
      constructor
      · exact fun hknown => ⟨members, type, rfl, htype, hknown⟩
      · rintro ⟨_, other, hmembers, hother, hknown⟩
        cases hmembers
        rw [htype] at hother
        cases hother
        exact hknown
    · refine iff_of_false (absurd (not_request_of_type h).2) ?_
      rintro ⟨_, type, hmembers, htype, -⟩
      cases hmembers
      exact h ⟨type, htype⟩

/-- What is read: of every message what is documented of the object that names the items of its
arrays, so of all but those that give a request or a tagging by position what is documented of the
message itself; and that is a request exactly for objects with a known type. -/
theorem ofMessage?_exactly (message : Value) :
    ofMessage? message = documented? (spelled message) ∧
      (ofMessage? message = documented? message ↔ ¬ Positional message) ∧
      (documented? message ≠ none ↔ ∃ members type, message = .object members ∧
        members.lookup "type" = some (.string type) ∧ type ∈ types) := by
  refine ⟨ofMessage?_eq_documented?_spelled message, ?_, documented?_ne_none_iff⟩
  cases message with
  | null | bool | number | string => exact iff_of_true rfl nofun
  | object members => exact ofMessage?_object_eq_iff members
  | array items => exact ofMessage?_array_eq_iff items

/-- The name of a type alone is a request when it stands in an array. -/
theorem array_read : ofMessage? (.array [.string "PING"]) = some .ping ∧
    documented? (.array [.string "PING"]) = none :=
  ⟨rfl, rfl⟩

end Request

end Newsletter
