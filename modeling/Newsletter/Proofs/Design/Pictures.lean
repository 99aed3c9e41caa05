/-
Images that are stored with shapes. Main statement: an image is exported as the bytes that were
stored, whatever is requested; of all texts only the Base64 form of the bytes is exported as them, and
every other text is refused and changes nothing.
-/
import Newsletter.Block.Extraction
import Newsletter.Design.Shape
import Newsletter.Proofs.Bytes.Base64

namespace Newsletter.Shape

/-- A shape with a text where its image is stored. -/
def storePng (shape : Shape) (text : String) : Shape := { shape with png := some text }

/-- What a shape exports, if it offers an export. -/
def export? (shape : Shape) (request : ExportRequest) : Option (Except ExportError Bytes) :=
  shape.toNode.exporter.map fun run => run request

theorem export?_eq (shape : Shape) (request : ExportRequest) :
    shape.export? request = shape.png.map fun text => exportImage text request := by
  obtain ⟨id, name, kind, characters, slots, children, png⟩ := shape
  cases png <;> rfl

theorem exportImage_eq_ok_iff {text : String} {request : ExportRequest} {bytes : Bytes} :
    exportImage text request = .ok bytes ↔ text = Base64.encode bytes := by
  rw [← Base64.decode?_eq_some_iff]
  unfold exportImage
  cases Base64.decode? text <;> simp

theorem exportImage_eq_error_iff {text : String} {request : ExportRequest} :
    exportImage text request = .error .malformed ↔ ∀ bytes, text ≠ Base64.encode bytes := by
  simp only [ne_eq, ← Base64.decode?_eq_some_iff]
  unfold exportImage
  cases Base64.decode? text <;> simp

/-- What is stored with a shape and what it exports on a request determine each other. -/
structure StoresImages (shape : Shape) (request : ExportRequest) : Prop where
  /-- Only what is stored makes a shape offer an export. -/
  offered : (shape.export? request).isSome ↔ shape.png.isSome
  returned : ∀ bytes, (shape.setPng bytes).export? request = some (.ok bytes)
  /-- What is stored for bytes is their Base64 form. -/
  stored : ∀ text bytes, (shape.setPng bytes).png = some text ↔ Base64.Writes text bytes
  exported : ∀ text bytes, (shape.storePng text).export? request = some (.ok bytes) ↔
    (shape.setPng bytes).png = some text
  unique : ∀ text other bytes, (shape.storePng text).export? request = some (.ok bytes) →
    (shape.storePng other).export? request = some (.ok bytes) → text = other
  refused : ∀ text, (shape.storePng text).export? request = some (.error .malformed) ↔
    ∀ bytes, (shape.setPng bytes).png ≠ some text
  /-- A block whose shape refuses stays as it is, with a finding about it. -/
  untouched : ∀ (text directory : String) (position : ℕ) (block : Block),
    (shape.storePng text).export? request = some (.error .malformed) →
    ExportJob.extractImage { request, directory } (some (shape.storePng text).toNode) position block =
      { value := block, assets := [], diagnostics := [.notExported block.id block.name],
        calls := [{ node := (shape.storePng text).toNode, request, result := .error .malformed }] }

/-- Images are stored and exported exactly. -/
theorem storesImages_exactly (shape : Shape) (request : ExportRequest) : shape.StoresImages request := by
  have hstored : ∀ text bytes, (shape.setPng bytes).png = some text ↔
      text = Base64.encode bytes := by
    intro text bytes
    rw [setPng, Option.some.injEq, eq_comm]
  have hexported : ∀ text bytes, (shape.storePng text).export? request = some (.ok bytes) ↔
      text = Base64.encode bytes := by
    intro text bytes
    rw [export?_eq, storePng, Option.map_some, Option.some.injEq, exportImage_eq_ok_iff]
  refine ⟨?_, ?_, ?_, ?_, ?_, ?_, ?_⟩
  · rw [export?_eq, Option.isSome_map]
  · intro bytes
    exact (hexported _ bytes).2 rfl
  · intro text bytes
    rw [hstored, Base64.writes_iff]
  · intro text bytes
    rw [hexported, hstored]
  · intro text other bytes htext hother
    rw [(hexported text bytes).1 htext, (hexported other bytes).1 hother]
  · intro text
    simp only [ne_eq, hstored]
    rw [export?_eq, storePng, Option.map_some, Option.some.injEq, exportImage_eq_error_iff]
  · intro text directory position block hrefused
    have hrefused : exportImage text request = .error .malformed := by
      rw [export?_eq, storePng, Option.map_some, Option.some.injEq] at hrefused
      exact hrefused
    have hask : ExportJob.ask { request, directory } (some (shape.storePng text).toNode) =
        (.error .malformed,
          [{ node := (shape.storePng text).toNode, request, result := .error .malformed }]) := by
      rw [← hrefused]
      rfl
    unfold ExportJob.extractImage
    rw [hask]

end Newsletter.Shape
