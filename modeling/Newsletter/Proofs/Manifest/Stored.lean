/-
Manifests as they are stored. Main statement: a manifest is read back field by field from the text of
its file, so it is genuine after that exactly if it was before; and the manifest of an edition is
genuine and lists the edition's images. The canonical text that is sealed is another text of the same
manifest: it is read back too, though its members are in another order.
-/
import Newsletter.Proofs.Json.Records
import Newsletter.Proofs.Json.Spelling
import Newsletter.Proofs.Package.Contents
import Newsletter.Proofs.Time.Written

namespace Newsletter

open Json

/-! ## Entries -/

namespace ManifestAsset

/-- The members of the object that an entry is written as. -/
def fields (a : ManifestAsset) : Fields :=
  [("name", .text a.name), ("mimeType", .text a.mediaType), ("size", .nat a.size),
    ("sha256", .text a.sha256)]

/-- An entry is read from its fields in any order. -/
theorem decoder_record {a : ManifestAsset} {found : Fields} (h : found.Perm a.fields) (levels : Nat) :
    decoder (levels + 1) (.record found) = some a := by
  obtain ⟨name, mediaType, size, sha256, size_lt⟩ := a
  have hnames : (fields { name, mediaType, size, sha256, size_lt }).map (·.1) =
    ["name", "mimeType", "size", "sha256"] := rfl
  obtain ⟨hfound, hlookup⟩ := Fields.ofTree?_perm h hnames (by decide)
  have hname := Fields.required_text ((hlookup "name").trans rfl) levels
  have hmediaType := Fields.required_text ((hlookup "mimeType").trans rfl) levels
  have hsha256 := Fields.required_text ((hlookup "sha256").trans rfl) levels
  have hsize : found.required levels "size" Decoder.nat64 = some size := by
    rw [Fields.required_eq ((hlookup "size").trans rfl), Decoder.nat64,
      Decoder.natBelow_nat (Nat.le_refl _), if_pos size_lt]
  unfold decoder Decoder.record
  dsimp only
  rw [hfound]
  simp only [Option.bind_eq_bind, Option.bind_some, hname, hmediaType, hsize, hsha256]
  exact dif_pos size_lt

/-- The canonical tree of an entry has the fields of the entry. -/
theorem exists_canonical (a : ManifestAsset) :
    ∃ found : Fields, a.toValue.canonical.toTree = .record found ∧ found.Perm a.fields := by
  obtain ⟨found, htree, hperm⟩ := Value.exists_perm_canonical
    [("name", .string a.name), ("mimeType", .string a.mediaType),
      ("size", .number (.ofNat a.size a.size_lt)), ("sha256", .string a.sha256)] (by simp)
  refine ⟨found, htree, ?_⟩
  unfold fields
  rw [← Tree.number_ofNat a.size a.size_lt]
  exact hperm

end ManifestAsset

/-! ## Manifests -/

namespace Manifest

/-- The members of the object that a manifest is written as, given the trees of its entries. -/
def fields (m : Manifest) (entries : List Tree) : Fields :=
  [("id", .text m.id), ("createdAt", .text m.createdAt.toText),
    ("engineVersion", .text m.engineVersion), ("schemaVersion", .text m.schemaVersion),
    ("markupFile", .text m.markupFile), ("markupSha256", .text m.markupSha256),
    ("assets", .array entries), ("warnings", .array (m.warnings.map .text)),
    ("manifestHash", .text m.hash)]

/-- A manifest is read from its fields in any order, if its entries are. -/
theorem decoder_record {m : Manifest} {entries : List Tree} {levels : Nat} {found : Fields}
    (h : found.Perm (m.fields entries))
    (hentries : entries.mapM (ManifestAsset.decoder levels) = some m.assets) :
    decoder (levels + 2) (.record found) = some m := by
  have hnames : (m.fields entries).map (·.1) = ["id", "createdAt", "engineVersion", "schemaVersion",
    "markupFile", "markupSha256", "assets", "warnings", "manifestHash"] := rfl
  obtain ⟨hfound, hlookup⟩ := Fields.ofTree?_perm h hnames (by decide)
  have hid := Fields.required_text ((hlookup "id").trans rfl) (levels + 1)
  have hcreatedAt := Fields.required_text ((hlookup "createdAt").trans rfl) (levels + 1)
  have hengine := Fields.required_text ((hlookup "engineVersion").trans rfl) (levels + 1)
  have hschema := Fields.required_text ((hlookup "schemaVersion").trans rfl) (levels + 1)
  have hfile := Fields.required_text ((hlookup "markupFile").trans rfl) (levels + 1)
  have hmarkup := Fields.required_text ((hlookup "markupSha256").trans rfl) (levels + 1)
  have hhash := Fields.required_text ((hlookup "manifestHash").trans rfl) (levels + 1)
  have hassets : found.required (levels + 1) "assets" (Decoder.list ManifestAsset.decoder) =
      some m.assets := by
    rw [Fields.required_eq ((hlookup "assets").trans rfl), Decoder.list_array, hentries]
  have hwarnings : found.required (levels + 1) "warnings" (Decoder.list Decoder.string) =
      some m.warnings := by
    have hread : ∀ s, Decoder.string levels (.text s) = some s := fun _ => rfl
    rw [Fields.required_eq ((hlookup "warnings").trans rfl), Decoder.list_array]
    exact List.mapM_map_eq_some hread m.warnings
  unfold decoder Decoder.record
  dsimp only
  rw [hfound]
  simp only [Option.bind_eq_bind, Option.bind_some, hid, hcreatedAt, Timestamp.ofText?_toText,
    hengine, hschema, hfile, hmarkup, hassets, hwarnings, hhash]
  rfl

theorem decoder_toTree (m : Manifest) (levels : Nat) : decoder (levels + 3) m.toTree = some m := by
  have hentry : ∀ a : ManifestAsset, ManifestAsset.decoder (levels + 1) a.toTree = some a :=
    fun _ => ManifestAsset.decoder_record (.refl _) levels
  exact decoder_record (.refl _) (List.mapM_map_eq_some hentry m.assets)

/-- A manifest is read back from the text of its file. -/
theorem read?_text (m : Manifest) : decoder.read? m.text = some m := by
  rw [Decoder.read?, text, Tree.read?_pretty, Option.bind_some]
  exact decoder_toTree m 124

/-! ## Canonical texts -/

theorem decoder_canonical (m : Manifest) (levels : Nat) :
    decoder (levels + 3) m.toValue.canonical.toTree = some m := by
  obtain ⟨found, htree, hperm⟩ := Value.exists_perm_canonical
    [("id", .string m.id), ("createdAt", .string m.createdAt.toText),
      ("engineVersion", .string m.engineVersion), ("schemaVersion", .string m.schemaVersion),
      ("markupFile", .string m.markupFile), ("markupSha256", .string m.markupSha256),
      ("assets", .array (m.assets.map ManifestAsset.toValue)),
      ("warnings", .array (m.warnings.map .string)), ("manifestHash", .string m.hash)] (by simp)
  have hfields : found.Perm (m.fields (m.assets.map fun a => a.toValue.canonical.toTree)) := by
    simp only [List.map_cons, Value.toTree_canonical_array, List.map_map] at hperm
    exact hperm
  have hentry : ∀ a : ManifestAsset,
      ManifestAsset.decoder (levels + 1) a.toValue.canonical.toTree = some a := by
    intro a
    obtain ⟨entry, hentry, hperm⟩ := a.exists_canonical
    rw [hentry]
    exact ManifestAsset.decoder_record hperm levels
  rw [toValue, htree]
  exact decoder_record hfields (List.mapM_map_eq_some hentry m.assets)

/-- A manifest without its hash is read back from the text that is sealed. -/
theorem read?_sealedText (m : Manifest) :
    decoder.read? m.sealedText = some { m with hash := "" } := by
  rw [Decoder.read?, sealedText, Value.canonicalText, Value.compact, Tree.read?_compact,
    Option.bind_some]
  exact decoder_canonical _ 124

/-! ## Manifests of editions -/

/-- A sealed manifest is genuine. -/
theorem verify_sealed (m : Manifest) : m.sealed.verify = true := decide_eq_true rfl

/-- A manifest that vouches for an edition: it is genuine, and still is once its file was read; and
it has the digest of the markup, and name, media type, size and digest of every image, in order. -/
structure Certifies (m : Manifest) (edition : Edition) : Prop where
  genuine : m.verify = true
  stored : ∃ found, decoder.read? m.text = some found ∧ found.verify = true
  markup : m.markupSha256 = Sha256.hexDigest (Bytes.ofText edition.markup)
  assets : (m.assets.map fun a => (a.name, a.mediaType, a.size, a.sha256)) =
    edition.assets.map fun a => (a.name, a.mediaType, a.bytes.length, Sha256.hexDigest a.bytes)

/-- The manifest of a package: its identity, the versions, the digest of the markup, an entry for
every image in order, and the wording of what was found. -/
structure Describes (m : Manifest) (p : Package) : Prop where
  identity : m.id = p.stamp.id ∧ m.createdAt = p.stamp.time
  versions : m.engineVersion = "0.1.0" ∧ m.schemaVersion = "0.1"
  markup : m.markupFile = p.settings.markupFile ∧
    m.markupSha256 = Sha256.hexDigest (Bytes.ofText p.edition.markup)
  assets : (m.assets.map fun a => (a.name, a.mediaType, a.size, a.sha256)) =
    p.edition.assets.map fun a =>
      (a.name, a.mediaType, min a.bytes.length 0xFFFFFFFFFFFFFFFF, Sha256.hexDigest a.bytes)
  warnings : m.warnings = p.edition.warnings
  genuine : m.verify = true

theorem describes_ofEdition (p : Package) :
    (ofEdition p.stamp p.settings p.edition).Describes p :=
  { identity := ⟨rfl, rfl⟩, versions := ⟨rfl, rfl⟩, markup := ⟨rfl, rfl⟩,
    assets := List.map_map, warnings := rfl, genuine := verify_sealed _ }

theorem certifies_ofEdition (stamp : Stamp) (settings : Settings) {edition : Edition}
    (h : ∀ asset ∈ edition.assets, asset.bytes.length < 0x10000000000000000) :
    (ofEdition stamp settings edition).Certifies edition := by
  have hdescribes := describes_ofEdition { settings, edition, stamp }
  refine ⟨hdescribes.genuine, ⟨_, read?_text _, hdescribes.genuine⟩, hdescribes.markup.2, ?_⟩
  refine hdescribes.assets.trans (List.map_congr_left fun asset hasset => ?_)
  -- a size that fits its word is counted exactly
  have hsize : min asset.bytes.length 0xFFFFFFFFFFFFFFFF = asset.bytes.length := by
    have := h asset hasset
    omega
  rw [hsize]

/-- What is sealed survives the file: every manifest is read back from its text, and is genuine then
exactly if it was before; and the manifest of an edition whose images can be counted in words of 64
bits certifies it. -/
theorem seal_survives :
    (∀ m : Manifest, decoder.read? m.text = some m ∧
      (decoder.read? m.text).map verify = some m.verify) ∧
    ∀ (stamp : Stamp) (settings : Settings) (edition : Edition),
      (∀ asset ∈ edition.assets, asset.bytes.length < 0x10000000000000000) →
        (ofEdition stamp settings edition).Certifies edition := by
  refine ⟨fun m => ?_, fun stamp settings edition h => certifies_ofEdition stamp settings h⟩
  have hread := read?_text m
  refine ⟨hread, ?_⟩
  rw [hread, Option.map_some]

theorem seal_survives_pictures : ∃ edition, Edition.compile .standard Edition.pictures = .ok edition ∧
    edition.assets.length = 1 ∧
    (∀ asset ∈ edition.assets, asset.bytes.length < 0x10000000000000000) ∧
    (ofEdition Package.firstStamp .standard edition).Certifies edition := by
  obtain ⟨edition, hcompile⟩ : ∃ edition, Edition.compile .standard Edition.pictures = .ok edition :=
    ⟨_, rfl⟩
  have hassets := Edition.assets_of_compile hcompile
  have hsizes : ∀ asset ∈ edition.assets, asset.bytes.length < 0x10000000000000000 := by
    rw [hassets]
    decide
  have hlength : edition.assets.length = 1 := by
    rw [hassets]
    decide
  exact ⟨edition, hcompile, hlength, hsizes, seal_survives.2 _ _ _ hsizes⟩

end Manifest

end Newsletter
