/-
Responses as they are sent. Main statement: a response is given back from its members in any order.
A payload that stands in front of its type has to be kept as a value until the type is known; every
payload that is sent is a value, so the order makes no difference.
-/
import Mathlib.Data.List.Permutation
import Newsletter.Proofs.Block.Stored
import Newsletter.Session.Response

namespace Newsletter

open Json

/-! ## Assets -/

theorem Asset.restores_toTree (a : Asset) : decoder.Restores a.toTree a := by
  refine Decoder.record_perm (.refl _) (show _ = ["name", "bytes", "mimeType"] from rfl) (by decide)
    fun found hlookup levels => ?_
  have hname := Fields.required_text ((hlookup "name").trans rfl) levels
  have hbytes := (Decoder.restores_list fun b _ => Decoder.restores_byte b).required
    ((hlookup "bytes").trans rfl) levels
  have hmediaType := Fields.required_text ((hlookup "mimeType").trans rfl) levels
  simp only [Option.bind_eq_bind, Option.bind_some, Option.bind_ite_none, hname, hbytes, hmediaType,
    Tree.levelsFields_cons, Tree.levelsFields_nil, Tree.levels_text, Nat.zero_max, Nat.max_zero]
  rfl

theorem Asset.isValue_toTree (a : Asset) : a.toTree.IsValue := by
  have hbytes : (Tree.array (a.bytes.map fun b => .nat b.toNat)).IsValue := by
    refine Tree.isValue_array fun tree htree => ?_
    obtain ⟨b, -, rfl⟩ := List.mem_map.1 htree
    exact Tree.isValue_nat (b.toNat_lt.trans (by decide))
  refine Tree.isValue_record ?_
  simp [Tree.isValue_text, hbytes]

/-! ## Exported newsletters -/

theorem ExportPayload.restores_toTree {payload : ExportPayload} (h : payload.block.TagsRead) :
    decoder.Restores payload.toTree payload := by
  refine Decoder.record_perm (.refl _) (show _ = ["ast", "assets", "warnings"] from rfl) (by decide)
    fun found hlookup levels => ?_
  have hblock := (Block.restores_toTree h).required ((hlookup "ast").trans rfl) levels
  have hassets := (Decoder.restores_list fun a _ => Asset.restores_toTree a).required
    ((hlookup "assets").trans rfl) levels
  have hwarnings := (Decoder.restores_list fun s _ => Decoder.restores_string s).required
    ((hlookup "warnings").trans rfl) levels
  simp only [Option.bind_eq_bind, Option.bind_ite_none, hblock, hassets, hwarnings,
    Tree.levelsFields_cons, Tree.levelsFields_nil, Nat.max_zero, Nat.max_le, ite_and]
  rfl

theorem ExportPayload.isValue_toTree (payload : ExportPayload) : payload.toTree.IsValue := by
  have hassets : (Tree.array (payload.assets.map Asset.toTree)).IsValue := by
    refine Tree.isValue_array fun tree htree => ?_
    obtain ⟨a, -, rfl⟩ := List.mem_map.1 htree
    exact a.isValue_toTree
  have hwarnings : (Tree.array (payload.warnings.map .text)).IsValue := by
    refine Tree.isValue_array fun tree htree => ?_
    obtain ⟨s, -, rfl⟩ := List.mem_map.1 htree
    exact Tree.isValue_text s
  refine Tree.isValue_record ?_
  simp [payload.block.isValue_toTree, hassets, hwarnings]

/-! ## Responses -/

namespace Response

theorem restores_message (message : String) :
    messageDecoder.Restores (messageTree message) message := by
  intro levels
  cases levels <;> rfl

theorem isValue_message (message : String) : (messageTree message).IsValue :=
  Tree.isValue_record (by simp [Tree.isValue_text])

/-- All tags of what a response holds are read from texts. -/
def TagsRead : Response → Prop
  | .exportResult payload => payload.block.TagsRead
  | .info _ | .error _ | .pong => True

/-- A payload that is read as it is and can be kept is read behind its type and in front of it. -/
theorem restores_envelope {kind : Kind} {payload : Tree} {response : Response}
    (hvalue : payload.IsValue)
    (hpayload : ∀ levels, payload? kind levels (some payload) =
      if payload.levels ≤ levels then some response else none) {found : Fields}
    (h : found.Perm [("type", .text kind.toText), ("payload", payload)]) :
    decoder.Restores (.record found) response := by
  obtain ⟨hfound, hlookup⟩ :=
    Fields.ofTree?_perm h (show _ = ["type", "payload"] from rfl) (by decide)
  have hkind : Kind.ofText? kind.toText = some kind := by cases kind <;> decide
  have hlevels : (Tree.record found).levels = payload.levels + 1 := by
    rw [Tree.levels_record, Tree.levelsFields_perm h]
    simp
  intro levels
  rw [hlevels]
  cases levels with
  | zero => exact (if_neg (Nat.not_succ_le_zero _)).symm
  | succ levels =>
    have htype : found.required levels "type" (Decoder.word Kind.ofText?) = some kind := by
      rw [Fields.required_eq ((hlookup "type").trans rfl)]
      exact hkind
    obtain ⟨members, hmembers⟩ : ∃ members, Tree.record found = .object members := ⟨_, rfl⟩
    -- keeping a payload that stands in front takes as many levels as reading it
    have hkept : isKept levels members = true ∨
        isKept levels members = decide (payload.levels ≤ levels) := by
      rcases List.perm_pair.1 h with rfl | rfl
      · cases hmembers
        exact Or.inl rfl
      · cases hmembers
        exact Or.inr (hvalue.isSome_ofTree? levels)
    have hfield : found.lookup "payload" = some payload := hlookup "payload"
    rw [hmembers] at hfound ⊢
    show ((Fields.ofTree? ["type", "payload"] (.object members)).bind fun fields => _) = _
    rw [hfound, Option.bind_some]
    simp only [htype, Option.bind_eq_bind, Option.bind_some, hfield, hpayload,
      Nat.add_le_add_iff_right]
    rcases hkept with hkept | hkept
    · rw [if_pos hkept]
    · rw [hkept]
      by_cases hfits : payload.levels ≤ levels <;> simp [hfits]

/-- The members of the object that a response is written as. -/
def members : Response → Fields
  | .info message => [("type", .text Kind.info.toText), ("payload", messageTree message)]
  | .error message => [("type", .text Kind.error.toText), ("payload", messageTree message)]
  | .pong => [("type", .text Kind.pong.toText)]
  | .exportResult payload =>
    [("type", .text Kind.exportResult.toText), ("payload", payload.toTree)]

theorem toTree_eq (response : Response) : response.toTree = .record response.members := by
  cases response <;> rfl

/-- A response is given back from its members, whatever their order. -/
theorem restores_perm {response : Response} (h : response.TagsRead) {found : Fields}
    (hfound : found.Perm response.members) : decoder.Restores (.record found) response := by
  cases response with
  | info message | error message =>
    refine restores_envelope (isValue_message message) (fun levels => ?_) hfound
    rw [payload?, Option.bind_some, restores_message]
    split <;> rfl
  | pong =>
    intro levels
    rw [List.perm_singleton.1 hfound]
    cases levels <;> rfl
  | exportResult payload =>
    refine restores_envelope payload.isValue_toTree (fun levels => ?_) hfound
    rw [payload?, Option.bind_some, ExportPayload.restores_toTree h]
    split <;> rfl

end Response

end Newsletter
