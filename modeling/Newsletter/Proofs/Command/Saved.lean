/-
Documents that are saved. Main statement: from the compact and from the indented text of a document
the same document is read, and a file with the text is opened as the same document, unless the text
has more nested levels than a reader opens; then there is no document to be had from it.
-/
import Newsletter.Proofs.Command.Conversation
import Newsletter.Proofs.Json.Restored

namespace Newsletter.Document

open Json

theorem restores_toTree {doc : Document} (h : doc.lastNumber < 0x10000000000000000) :
    decoder.Restores doc.toTree doc := by
  intro levels
  rw [decoder_toTree]
  simp only [h, and_true]

/-- What a text is worth as the saved form of a document. -/
structure Survives (doc : Document) (text : String) : Prop where
  /-- Every shape comes back with all that it had, and nothing it did not have. -/
  read : decoder.read? text = if Tree.nesting text ≤ maxLevels then some doc else none
  opened : ∀ {tree after : FileTree} {path : String},
    tree.write path (Bytes.ofText text) = .ok after →
      Command.openDocument FileTree.system path after =
        (if Tree.nesting text ≤ maxLevels then .ok doc else .error (.malformed path), after)

/-- Documents survive saving, as compact or as indented text. Their numbers are words of 64 bits. -/
theorem survives_saving {doc : Document} (h : doc.lastNumber < 0x10000000000000000) :
    ∀ text ∈ [doc.toTree.compact, Command.documentText doc], doc.Survives text := by
  intro text htext
  have hread := (restores_toTree h).texts text htext
  refine ⟨hread, fun {tree after path} hwrite => ?_⟩
  rw [Command.openDocument_of_read (FileTree.read_of_write hwrite), hread]
  split <;> rfl

/-- A document in which identifiers repeat, and empty texts stand beside missing ones. -/
def odd : Document :=
  let label : Shape := { Shape.ofText "a" "" "" with png := some "" }
  let row : Shape := (Shape.plain "a" "Row \"1\"" .group).setTag .row
    (.ofMembers [("padding", .string "0"), ("src", .array [.null, .number (.ofNat 7)])])
  { roots := [(row.addChild label).addChild (Shape.plain "" "é" .other),
      label.setSlot "" "\x7b\"a\":[]\x7d"]
    selection := ["a", "", "a"]
    lastNumber := 18446744073709551615 }

theorem survives_saving_odd : odd.lastNumber < 0x10000000000000000 ∧
    odd.toTree.compact ≠ Command.documentText odd ∧
    ∀ text ∈ [odd.toTree.compact, Command.documentText odd],
      Tree.nesting text ≤ maxLevels ∧ decoder.read? text = some odd := by
  have hlevels : odd.toTree.levels ≤ maxLevels := by decide +kernel
  refine ⟨by decide, by decide +kernel, fun text htext => ?_⟩
  have hnesting : Tree.nesting text ≤ maxLevels := by
    rcases List.mem_pair.1 htext with rfl | rfl
    · rwa [Tree.nesting_compact]
    · rwa [Command.documentText, Tree.nesting_pretty]
  refine ⟨hnesting, ?_⟩
  rw [(survives_saving (by decide) text htext).read, if_pos hnesting]

end Newsletter.Document
