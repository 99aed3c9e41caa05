/-
The attributes of elements. `Shown` says which of them an element carries: its own table of names and
properties, what counts as a width, and the texts that values have, without the functions that write
attributes. Main statement: an element has exactly one such list of attributes, the one it is
written with.
-/
import Newsletter.Markup.Attribute
import Newsletter.Proofs.Json.Compact
import Mathlib.Data.List.Nodup
import Mathlib.Data.List.Perm.Subperm

namespace Newsletter

open Json

/-! ## Members under keys -/

theorem lookup_eq_some_iff_mem {α : Type} {l : List (String × α)} (hl : (l.map Prod.fst).Nodup)
    {key : String} {a : α} : l.lookup key = some a ↔ (key, a) ∈ l := by
  constructor
  · intro h
    obtain ⟨before, after, hsplit, -⟩ := List.lookup_eq_some_iff.1 h
    rw [hsplit]
    exact List.mem_append_right _ List.mem_cons_self
  · intro h
    induction l with
    | nil => cases h
    | cons member rest ih =>
      obtain ⟨other, b⟩ := member
      obtain ⟨hother, hrest⟩ := List.nodup_cons.1 hl
      rw [List.lookup_cons]
      rcases List.mem_cons.1 h with heq | hmem
      · cases heq
        rw [beq_self_eq_true]
      · have hne : key ≠ other := by
          rintro rfl
          exact hother (List.mem_map.2 ⟨_, hmem, rfl⟩)
        rw [beq_false_of_ne hne]
        exact ih hrest hmem

theorem Props.nodup_keys (props : Props) : (props.entries.map Prod.fst).Nodup :=
  List.pairwise_map.2 (props.sorted.1.imp String.ne_of_lt)

namespace Attribute

/-! ## Texts of values -/

/-- The text of a value in an attribute. Null and the empty text have none; numbers are in full from
`0.000001` up to twenty-one digits before the point; arrays and objects are JSON texts. -/
inductive HasText : Value → String → Prop
  | true : HasText (.bool true) "true"
  | false : HasText (.bool false) "false"
  | integer (n : Integer) : HasText (.number (.integer n)) (toString n.value)
  | zero {x : Double} (h : x.mantissa = 0) : HasText (.number (.float x)) "0"
  | float {x : Double} {text : String} (h : x.mantissa ≠ 0)
    (htext : x.WrittenAs .up (-6) 21 "" text) : HasText (.number (.float x)) text
  | string {text : String} (h : text ≠ "") : HasText (.string text) text
  | array {items : List Value} {text : String} (h : Value.CompactText (.array items) text) :
    HasText (.array items) text
  | object {members : List (String × Value)} {text : String}
    (h : Value.CompactText (.object members) text) : HasText (.object members) text

theorem isZero_eq_true_iff {x : Double} : x.isZero = true ↔ x.mantissa = 0 := by
  unfold Binary.isZero
  exact beq_iff_eq

theorem numberText_zero {x : Double} (h : x.mantissa = 0) : numberText (.float x) = "0" := by
  have hnumeral : layout.numeral x =
      { negative := false, whole := 0, fraction := [], exponent := none } :=
    if_pos (isZero_eq_true_iff.2 h)
  show String.ofList (layout.numeral x).chars = "0"
  rw [hnumeral, Numeral.ofList_chars]
  rfl

theorem numberText_float {x : Double} (h : x.mantissa ≠ 0) {text : String} :
    x.WrittenAs .up (-6) 21 "" text ↔ text = numberText (.float x) :=
  layout.writtenAs_iff precision_double.1 precision_double.2 h

/-- The text of a value is the one that it gives an attribute, if it gives one. -/
theorem hasText_iff {value : Value} {text : String} :
    HasText value text ↔ valueText? value = some text := by
  constructor
  · intro h
    cases h with
    | true | false => rfl
    | integer n => exact congrArg some (Number.ofList_integerNumeral n.value)
    | zero h => exact congrArg some (numberText_zero h)
    | float h htext => exact congrArg some ((numberText_float h).1 htext).symm
    | string h => exact if_neg h
    | array h | object h => exact congrArg some (Value.compactText_iff.1 h).symm
  · intro h
    cases value with
    | null => cases h
    | bool b =>
      cases h
      cases b
      · exact .false
      · exact .true
    | number n =>
      cases h
      cases n with
      | integer n =>
        rw [show numberText (.integer n) = toString n.value from Number.ofList_integerNumeral n.value]
        exact .integer n
      | float x =>
        by_cases hx : x.mantissa = 0
        · rw [numberText_zero hx]
          exact .zero hx
        · exact .float hx ((numberText_float hx).2 rfl)
    | string text =>
      rw [valueText?] at h
      split at h
      · cases h
      · rename_i hne
        cases h
        exact .string hne
    | array items =>
      cases h
      exact .array (Value.compactText_compact _)
    | object members =>
      cases h
      exact .object (Value.compactText_compact _)

/-! ## Tables -/

/-- Null, false, zero and the empty text. -/
inductive Falsy : Value → Prop
  | null : Falsy .null
  | false : Falsy (.bool false)
  | integer {n : Integer} (h : n.value = 0) : Falsy (.number (.integer n))
  | float {x : Double} (h : x.mantissa = 0) : Falsy (.number (.float x))
  | empty : Falsy (.string "")

theorem falsy_iff {value : Value} : Falsy value ↔ isTruthy value = false := by
  constructor
  · rintro (_ | _ | h | h | _)
    · rfl
    · rfl
    · simpa [isTruthy, Number.isZero] using h
    · simpa [isTruthy, Number.isZero] using isZero_eq_true_iff.2 h
    · rfl
  · intro h
    cases value with
    | null => exact .null
    | bool b => cases h; exact .false
    | number n =>
      cases n with
      | integer n => exact .integer (by simpa [isTruthy, Number.isZero] using h)
      | float x => exact .float (isZero_eq_true_iff.1 (by simpa [isTruthy, Number.isZero] using h))
    | string text =>
      have hempty : text = "" := by simpa [isTruthy] using h
      rw [hempty]
      exact .empty
    | array items | object members => cases h

/-- The properties hold a value under a key. -/
def Holds (key : String) (props : Props) (value : Value) : Prop := (key, value) ∈ props.entries

theorem holds_iff {key : String} {props : Props} {value : Value} :
    Holds key props value ↔ props.get? key = some value :=
  (lookup_eq_some_iff_mem props.nodup_keys).symm

/-- The width of a container is its own one, unless that is missing or falsy, and then the general
one. -/
inductive ContainerWidth (props : Props) (value : Value) : Prop
  | own (h : Holds "mjBodyWidth" props value) (htruthy : ¬Falsy value)
  | general (h : ∀ own, Holds "mjBodyWidth" props own → Falsy own)
    (hwidth : Holds "width" props value)

theorem containerWidth_iff {props : Props} {value : Value} :
    ContainerWidth props value ↔ bodyWidth props = some value := by
  have hcases : ContainerWidth props value ↔
      props.get? "mjBodyWidth" = some value ∧ ¬Falsy value ∨
        (∀ own, props.get? "mjBodyWidth" = some own → Falsy own) ∧
          props.get? "width" = some value := by
    simp only [← holds_iff]
    constructor
    · rintro (⟨h, htruthy⟩ | ⟨h, hwidth⟩)
      · exact .inl ⟨h, htruthy⟩
      · exact .inr ⟨h, hwidth⟩
    · rintro (⟨h, htruthy⟩ | ⟨h, hwidth⟩)
      · exact .own h htruthy
      · exact .general h hwidth
  rw [hcases, bodyWidth]
  cases props.get? "mjBodyWidth" with
  | none => simp
  | some own =>
    simp only [Option.some.injEq, forall_eq']
    by_cases hfalsy : Falsy own
    · rw [Option.filter_some, if_neg (by rw [falsy_iff.1 hfalsy]; decide), Option.none_or]
      constructor
      · rintro (⟨rfl, htruthy⟩ | ⟨-, hwidth⟩)
        · exact absurd hfalsy htruthy
        · exact hwidth
      · exact fun hwidth => .inr ⟨hfalsy, hwidth⟩
    · have htruthy : isTruthy own = true := by
        rw [falsy_iff, Bool.not_eq_false] at hfalsy
        exact hfalsy
      rw [Option.filter_some, if_pos htruthy, Option.some_or, Option.some.injEq]
      constructor
      · rintro (⟨hown, -⟩ | ⟨h, -⟩)
        · exact hown
        · exact absurd h hfalsy
      · rintro rfl
        exact .inl ⟨rfl, hfalsy⟩

/-- The attributes that an element may carry, in order, each with the property that it shows. -/
def sources : Tag → List (String × (Props → Value → Prop))
  | .container => [("background-color", Holds "backgroundColor"), ("width", ContainerWidth)]
  | .row => [("padding", Holds "padding"), ("background-color", Holds "backgroundColor")]
  | .column => [("width", Holds "width")]
  | .text => [("font-size", Holds "fontSize"), ("align", Holds "align"), ("padding", Holds "padding")]
  | .button =>
    [("href", Holds "href"), ("align", Holds "align"), ("padding", Holds "padding"),
      ("background-color", Holds "backgroundColor"), ("color", Holds "color"),
      ("border-radius", Holds "borderRadius")]
  | .image =>
    [("src", Holds "src"), ("alt", Holds "alt"), ("href", Holds "href"), ("padding", Holds "padding")]
  | .divider =>
    [("border-width", Holds "borderWidth"), ("border-color", Holds "borderColor"),
      ("padding", Holds "padding")]
  | .spacer => [("height", Holds "height")]
  | .unrecognized _ => []

/-- The attributes of an element: those of the table of its tag whose property has a text, in the
order of the table, none of them twice. -/
structure Shown (tag : Tag) (props : Props) (attributes : List (String × String)) : Prop where
  order : (attributes.map Prod.fst).Sublist ((sources tag).map Prod.fst)
  nodup : (attributes.map Prod.fst).Nodup
  exact : ∀ name text, (name, text) ∈ attributes ↔ ∃ source value,
    (name, source) ∈ sources tag ∧ source props value ∧ HasText value text

theorem nodup_sources (tag : Tag) : ((sources tag).map Prod.fst).Nodup := by
  cases tag <;> simp [sources]

/-! ## Attributes as they are written -/

/-- The properties that the writer looks up for each attribute. -/
def lookups : Tag → List (String × (Props → Option Value))
  | .container =>
    [("background-color", fun props => props.get? "backgroundColor"), ("width", bodyWidth)]
  | tag => (table tag).map fun (name, key) => (name, fun props => props.get? key)

theorem sources_eq (tag : Tag) : sources tag =
    (lookups tag).map fun (name, lookup) => (name, fun props value => lookup props = some value) := by
  have hkey : ∀ key, Holds key = fun props value => props.get? key = some value := by
    intro key
    funext props value
    exact propext holds_iff
  have hwidth : ContainerWidth = fun props value => bodyWidth props = some value := by
    funext props value
    exact propext containerWidth_iff
  cases tag <;> simp only [sources, lookups, table, hkey, hwidth] <;> rfl

theorem ofProps_eq (tag : Tag) (props : Props) :
    ofProps tag props = (lookups tag).flatMap fun (name, lookup) => ofValue name (lookup props) := by
  cases tag <;> simp [ofProps, lookups, table]

theorem mem_ofValue {name : String} {value : Option Value} {a : String × String} :
    a ∈ ofValue name value ↔ a.1 = name ∧ value.bind valueText? = some a.2 := by
  obtain ⟨n, t⟩ := a
  unfold ofValue
  cases h : value.bind valueText? with
  | none => simp
  | some text => simp [eq_comm]

theorem map_fst_ofValue (name : String) (value : Option Value) :
    ((ofValue name value).map Prod.fst).Sublist [name] := by
  unfold ofValue
  cases value.bind valueText? with
  | none => exact List.nil_sublist _
  | some text => exact List.Sublist.refl _

theorem map_fst_flatMap_ofValue (props : Props) (list : List (String × (Props → Option Value))) :
    ((list.flatMap fun (name, lookup) => ofValue name (lookup props)).map Prod.fst).Sublist
      (list.map Prod.fst) := by
  induction list with
  | nil => exact List.Sublist.refl _
  | cons s rest ih =>
    rw [List.flatMap_cons, List.map_append, List.map_cons]
    exact (map_fst_ofValue s.1 (s.2 props)).append ih

/-- An element is written with the attributes that it is to show. -/
theorem shown_ofProps (tag : Tag) (props : Props) : Shown tag props (ofProps tag props) := by
  have hnames : (sources tag).map Prod.fst = (lookups tag).map Prod.fst := by
    rw [sources_eq, List.map_map]
    rfl
  have horder : ((ofProps tag props).map Prod.fst).Sublist ((sources tag).map Prod.fst) := by
    rw [hnames, ofProps_eq]
    exact map_fst_flatMap_ofValue props (lookups tag)
  refine ⟨horder, horder.nodup (nodup_sources tag), fun name text => ?_⟩
  rw [ofProps_eq, List.mem_flatMap, sources_eq]
  constructor
  · rintro ⟨⟨n, lookup⟩, hlookup, ha⟩
    obtain ⟨rfl, ht⟩ := mem_ofValue.1 ha
    obtain ⟨value, hvalue, htext⟩ := Option.bind_eq_some_iff.1 ht
    exact ⟨_, value, List.mem_map_of_mem hlookup, hvalue, hasText_iff.2 htext⟩
  · rintro ⟨source, value, hsource, hvalue, htext⟩
    obtain ⟨⟨n, lookup⟩, hlookup, heq⟩ := List.mem_map.1 hsource
    cases heq
    exact ⟨_, hlookup, mem_ofValue.2
      ⟨rfl, Option.bind_eq_some_iff.2 ⟨value, hvalue, hasText_iff.1 htext⟩⟩⟩

/-- An element has one list of attributes. -/
theorem Shown.unique {tag : Tag} {props : Props} {as bs : List (String × String)}
    (ha : Shown tag props as) (hb : Shown tag props bs) : as = bs := by
  have hmem : ∀ a, a ∈ as ↔ a ∈ bs := fun a => (ha.exact a.1 a.2).trans (hb.exact a.1 a.2).symm
  have hnames : as.map Prod.fst = bs.map Prod.fst := by
    -- both are parts of the table, and they have the same members
    rw [← List.Nodup.perm_iff_eq_of_sublist (nodup_sources tag) ha.order hb.order,
      List.perm_ext_iff_of_nodup ha.nodup hb.nodup]
    intro name
    simp only [List.mem_map, hmem]
  apply List.ext_getElem (by simpa using congrArg List.length hnames)
  intro i hi hj
  have hfst : (as[i]).1 = (bs[i]).1 := by
    have := congrArg (·[i]?) hnames
    simpa [hi, hj] using this
  exact List.inj_on_of_nodup_map hb.nodup ((hmem _).1 (List.getElem_mem hi)) (List.getElem_mem hj) hfst

/-- An element carries exactly the attributes that it is to show. -/
theorem shown_iff {tag : Tag} {props : Props} {attributes : List (String × String)} :
    Shown tag props attributes ↔ attributes = ofProps tag props :=
  ⟨fun h => h.unique (shown_ofProps tag props), fun h => h ▸ shown_ofProps tag props⟩

end Attribute

end Newsletter
