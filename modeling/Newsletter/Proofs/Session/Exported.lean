/-
What an assembled document is exported as. Main statement: after any session without tagging, every
container is exported with all of its tagged shapes; nothing is an asset, and the warnings are about
rows without columns and images without an export, and about nothing else.
-/
import Newsletter.Proofs.Draft.Assembled
import Newsletter.Proofs.Edition.Stripped
import Newsletter.Proofs.Session.Moves

namespace Newsletter

/-! ## Exports of assembled containers -/

namespace Shape

/-- The kept nodes of an assembled shape offer no exports. -/
theorem Assembled.exporter {parent : Option Tag} {shape : Shape} (h : Assembled parent shape)
    (htag : shape.tag?.isSome) : ∀ node ∈ shape.toNode.kept, node.exporter = none := by
  intro node hnode
  rw [h.kept htag] at hnode
  obtain ⟨inner, hinner, rfl⟩ := List.mem_map.1 hnode
  obtain ⟨above, hassembled⟩ := h.of_mem_preorder (List.mem_of_mem_filter hinner)
  have hpng := hassembled.png
  obtain ⟨id, name, kind, characters, slots, children, png⟩ := inner
  cases hpng
  rfl

/-- The images that are kept of an assembled shape are its shapes with the tag of an image. -/
theorem Assembled.images {parent : Option Tag} {shape : Shape} (h : Assembled parent shape)
    (htag : shape.tag?.isSome) : Node.images shape.toNode.kept =
      (shape.preorder.filter (·.tag? = some .image)).map toNode := by
  rw [h.kept htag, Node.images, List.filter_map, List.filter_filter]
  refine congrArg (List.map toNode) (List.filter_congr fun inner _ => ?_)
  rw [Function.comp_apply, inner.tag?_toNode]
  cases inner.tag? with
  | none => rfl
  | some tag => exact Bool.and_true _

end Shape

namespace Session

/-- An export of a tree of shapes that lost nothing: its warnings are first about the rows without
columns, then about the images, both in pre-order. -/
structure ExportsCleanly (root : Shape) (payload : ExportPayload) : Prop where
  block : Reproduces root payload.block
  assets : payload.assets = []
  warnings : payload.warnings =
    ((root.preorder.filter Shape.lacksColumns).map fun row =>
      "Section \"" ++ row.name ++ "\" has no columns.") ++
    (root.preorder.filter (·.tag? = some .image)).map fun image =>
      "Could not export image for node " ++ image.name ++ "."

theorem exportMarkup_selected {settings : Settings} {doc : Document} {root : Shape}
    {edition : Edition} (hfind : doc.find? root.id = some root)
    (hcompile : Edition.compile settings root.toNode = .ok edition) :
    exportMarkup Document.surface settings (Document.surface.select [root.id] doc) =
      .ok (.exportResult
        { block := edition.block, assets := edition.assets, warnings := edition.warnings }) := by
  have hnode : Document.surface.node? root.id (Document.surface.select [root.id] doc) =
      some root.toNode := congrArg (Option.map Shape.toNode) hfind
  have hselected : selected Document.surface (Document.surface.select [root.id] doc) =
      .ok root.id := rfl
  unfold exportMarkup
  rw [hselected]
  simp only [bind, Except.bind, hnode, hcompile]
  rfl

/-- After any session without tagging, every container is exported cleanly once it is selected. -/
theorem exportsCleanly_after (settings : Settings) (moves : List Move) :
    ∀ root ∈ (after settings moves).shapes, root.tag? = some .container →
      ∃ payload, handle Document.surface settings .exportMarkup
          (Document.surface.select [root.id] (after settings moves)) =
            (.exportResult payload, Document.surface.select [root.id] (after settings moves)) ∧
        ExportsCleanly root payload := by
  intro root hroot htag
  have hassembled := assembled_after settings moves
  obtain ⟨above, hshape⟩ := Shape.Assembled.of_mem_preorderList hassembled.roots hroot
  have hsome : root.tag?.isSome := by rw [htag]; rfl
  have hnode : root.toNode.tag? = some .container := root.tag?_toNode.trans htag
  obtain ⟨edition, hcompile, hblock, hassets, hdiagnostics⟩ :=
    Edition.compile_unexported settings hnode (hshape.exporter hsome)
  have hexport := exportMarkup_selected (hassembled.find?_id hroot) hcompile
  refine ⟨_, handle_ok (congrArg (·, _) hexport), ?_, hassets, ?_⟩
  · show Reproduces root edition.block
    rw [hblock]
    exact hshape.reproduces hsome (Node.mirrors_draft root.toNode .container hnode)
  · show edition.warnings = _
    rw [Edition.warnings, hdiagnostics, hshape.diagnostics htag, hshape.images hsome,
      Shape.missingColumns, List.map_append, List.map_map, List.map_map, List.map_map]
    congr 1
    exact List.map_congr_left fun image _ => by
      simp only [Function.comp_apply, Diagnostic.notExported, Shape.name_toNode]

/-- A newsletter of a section with a button and an image, and a section without columns; a text is
refused below the button, and the first export for want of a container. -/
def newsletterMoves : List Move :=
  [.ping, .insert .container, .insert .row, .insert .column, .exportMarkup, .insert .button,
    .insert .text, .select ["node-3"], .insert .image, .select ["node-1"], .insert .row]

theorem exportsCleanly_after_newsletterMoves :
    ∃ root ∈ (after .standard newsletterMoves).shapes, root.tag? = some .container ∧
      ∃ payload, handle Document.surface .standard .exportMarkup
          (Document.surface.select [root.id] (after .standard newsletterMoves)) =
            (.exportResult payload,
              Document.surface.select [root.id] (after .standard newsletterMoves)) ∧
        ExportsCleanly root payload := by
  have hfirst : (after .standard newsletterMoves).shapes.any (·.tag? = some .container) = true := by
    decide +kernel
  obtain ⟨root, hroot, htag⟩ := List.any_eq_true.1 hfirst
  have htag := of_decide_eq_true htag
  exact ⟨root, hroot, htag, exportsCleanly_after .standard newsletterMoves root hroot htag⟩

end Session

end Newsletter
