/-
Properties as text. Main statements: a text is read as properties exactly if it stands for an object,
and then as the members of that object; and properties are read back from the text they are written
as, unless they have more arrays and objects inside one another than a reader opens.
-/
import Newsletter.Json.Props
import Newsletter.Proofs.Json.Values

namespace Newsletter

open Json

namespace Props

/-- Members that are in order are taken as they are. -/
theorem entries_ofMembers {members : List (String × Value)} (h : (Value.object members).Sorted) :
    (ofMembers members).entries = members :=
  Value.canonicalMembers_eq h.1 h.2

/-- What is read as properties is what stands for an object. -/
theorem decoder_eq_some_iff {levels : ℕ} {tree : Tree} {props : Props} :
    decoder levels tree = some props ↔ Value.ofTree? levels tree = some props.toValue := by
  unfold decoder Value.ofTree? toValue
  cases Value.ofTreeUnsorted? levels tree with
  | none => simp
  | some v =>
    cases v with
    | object members =>
      simp only [Option.map_some, Value.canonical, Option.some.injEq, Value.object.injEq]
      exact ⟨fun h => congrArg entries h, fun h => ext h⟩
    | null | bool | number | string | array => simp [Value.canonical]

theorem read?_eq_some_iff {text : String} {props : Props} :
    decoder.read? text = some props ↔ Decoder.value.read? text = some props.toValue := by
  unfold Decoder.read?
  simp only [Option.bind_eq_some_iff, decoder_eq_some_iff]
  exact Iff.rfl

/-- The tree of properties is read as them, if so many levels may be open. -/
theorem decoder_toTree (props : Props) (levels : ℕ) : decoder levels props.toTree =
    if props.toTree.levels ≤ levels then some props else none := by
  have hvalue : Value.ofTreeUnsorted? levels props.toTree =
      if props.toTree.levels ≤ levels then some props.toValue else none :=
    Value.ofTreeUnsorted?_toTree props.toValue levels
  have hmembers : ofMembers props.entries = props := ext (entries_ofMembers props.sorted)
  unfold decoder
  rw [hvalue]
  by_cases hlevels : props.toTree.levels ≤ levels
  · rw [if_pos hlevels, if_pos hlevels]
    exact congrArg some hmembers
  · rw [if_neg hlevels, if_neg hlevels]

/-- Properties are read back from their text, unless a reader opens fewer levels than they have. -/
theorem read?_compact (props : Props) : decoder.read? props.compact =
    if props.toTree.levels ≤ maxLevels then some props else none := by
  rw [Decoder.read?, compact, Tree.read?_compact, Option.bind_some, decoder_toTree]

end Props

end Newsletter
