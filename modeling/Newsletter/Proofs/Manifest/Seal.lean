/-
What the hash of a manifest seals. Main statement: every manifest has one hash with which it is
genuine, and two genuine manifests with the same hash are the same, unless the texts that are sealed
are two messages with one digest.
-/
import Newsletter.Proofs.Manifest.Stored

namespace Newsletter

/-! ## Digests -/

namespace Sha256

/-- Two different messages with one digest. -/
structure Collide (first second : Bytes) : Prop where
  distinct : first ≠ second
  digest : digest first = digest second

theorem eq_or_collide {first second : Bytes} (h : hexDigest first = hexDigest second) :
    first = second ∨ Collide first second := by
  by_cases hsame : first = second
  · exact .inl hsame
  · exact .inr ⟨hsame, Bytes.hex_injective h⟩

end Sha256

namespace Manifest

/-! ## Hashes -/

/-- A manifest is genuine with its proper hash, and with no other. -/
theorem verify_hash_iff (m : Manifest) (hash : String) :
    ({ m with hash } : Manifest).verify = true ↔ hash = m.properHash := by
  unfold verify
  rw [decide_eq_true_iff]
  exact eq_comm

theorem properHash_eq (m : Manifest) : m.properHash = Sha256.hexDigest (Bytes.ofText m.sealedText) := rfl

/-- The text that is sealed leaves out nothing but the hash. -/
theorem eq_of_sealedText {m n : Manifest} (h : m.sealedText = n.sealedText) (hhash : m.hash = n.hash) :
    m = n := by
  have hread := read?_sealedText m
  rw [h, read?_sealedText, Option.some_inj] at hread
  obtain ⟨_, _, _, _, _, _, _, _, _⟩ := m
  obtain ⟨_, _, _, _, _, _, _, _, _⟩ := n
  cases hread
  cases hhash
  rfl

/-- Tampering is detected: a manifest is genuine with one hash alone, whichever it had before; and of
two genuine manifests with one hash nothing differs, unless the texts that are sealed collide. -/
theorem tampering_detected :
    (∀ m : Manifest, ∃! hash, ({ m with hash } : Manifest).verify = true) ∧
    ∀ m n : Manifest, m.verify = true → n.verify = true → m.hash = n.hash →
      m = n ∨ m.sealedText ≠ n.sealedText ∧
        Sha256.Collide (Bytes.ofText m.sealedText) (Bytes.ofText n.sealedText) := by
  constructor
  · intro m
    exact ⟨m.properHash, (m.verify_hash_iff _).2 rfl, fun hash h => (m.verify_hash_iff hash).1 h⟩
  · intro m n hm hn hhash
    have hproper : m.properHash = n.properHash :=
      (of_decide_eq_true hm).trans (hhash.trans (of_decide_eq_true hn).symm)
    rw [properHash_eq, properHash_eq] at hproper
    rcases Sha256.eq_or_collide hproper with hsame | hcollide
    · exact .inl (eq_of_sealedText (Bytes.ofText_injective hsame) hhash)
    · exact .inr ⟨fun htext => hcollide.distinct (congrArg _ htext), hcollide⟩

theorem tampering_detected_reread : ∃ m found : Manifest, m.assets.length = 1 ∧
    decoder.read? m.text = some found ∧ m.verify = true ∧ found.verify = true ∧ m.hash = found.hash ∧
    (m = found ∨ m.sealedText ≠ found.sealedText ∧
      Sha256.Collide (Bytes.ofText m.sealedText) (Bytes.ofText found.sealedText)) := by
  obtain ⟨edition, hcompile⟩ : ∃ edition, Edition.compile .standard Edition.pictures = .ok edition :=
    ⟨_, rfl⟩
  have hlength : (ofEdition Package.firstStamp .standard edition).assets.length = 1 := by
    show (edition.assets.map entry).length = 1
    rw [Edition.assets_of_compile hcompile]
    decide
  have hverify : (ofEdition Package.firstStamp .standard edition).verify = true := verify_sealed _
  exact ⟨_, _, hlength, read?_text _, hverify, hverify, rfl,
    tampering_detected.2 _ _ hverify hverify rfl⟩

end Manifest

end Newsletter
