import StorageFabric.Core.Sha256
import StorageFabric.Lib.Framing
import StorageFabric.Model.Manifest

/-!
What the digest of a manifest commits to.

The digest is taken over fields of fixed width, a tag and three numbers in front and
then the same six fields of every chunk, so that the bytes that are hashed tell the fields
apart. They leave out the identity and the generation of the manifest, and the
generation and the provenance of its chunks.
-/

namespace StorageFabric

open LittleEndian

/-! ### The bytes that are hashed -/

def ChunkDescriptor.digestInput (c : ChunkDescriptor) : Bytes :=
  encode 8 c.id.value ++ (encode 8 c.offset.toNat ++ (encode 8 c.logicalLength.toNat ++
    (encode 8 c.physicalLength.toNat ++ (c.digest.bytes ++ encode 8 c.blob.value))))

def Manifest.digestInput (m : Manifest) : Bytes :=
  encode 4 15 ++ (ascii "SFB-MANIFEST-v1" ++ (encode 8 m.object.value ++
    (encode 8 m.objectGeneration.value.toNat ++ (encode 8 m.totalLogicalLength.toNat ++
      m.chunks.flatMap ChunkDescriptor.digestInput))))

theorem ChunkDescriptor.length_digestInput (c : ChunkDescriptor) : c.digestInput.length = 72 := by
  simp [digestInput, c.digest.size]

theorem computeManifestDigest_eq (m : Manifest) :
    computeManifestDigest m = ContentDigest.of m.digestInput := by
  have hchunks : ∀ (cs : List ChunkDescriptor) (h : Sha256),
      cs.foldl (fun h c => ((((((h.update (encode 8 c.id.value)).update
        (encode 8 c.offset.toNat)).update (encode 8 c.logicalLength.toNat)).update
        (encode 8 c.physicalLength.toNat)).update c.digest.bytes).update
        (encode 8 c.blob.value))) h = h.update (cs.flatMap ChunkDescriptor.digestInput) := by
    intro cs h
    induction cs generalizing h with
    | nil => rfl
    | cons c cs ih =>
        rw [List.foldl_cons, ih, List.flatMap_cons, ChunkDescriptor.digestInput]
        simp only [Sha256.update_append]
  unfold computeManifestDigest ContentDigest.of sha256
  simp only [hchunks]
  simp only [Manifest.digestInput, Sha256.update_append]
  rfl

/-! ### What can be read off them -/

/-- The chunks differ in nothing that is hashed. -/
structure ChunkDescriptor.Same (c c' : ChunkDescriptor) : Prop where
  id : c.id = c'.id
  offset : c.offset = c'.offset
  logicalLength : c.logicalLength = c'.logicalLength
  physicalLength : c.physicalLength = c'.physicalLength
  digest : c.digest = c'.digest
  blob : c.blob = c'.blob

structure Manifest.Same (m m' : Manifest) : Prop where
  object : m.object = m'.object
  objectGeneration : m.objectGeneration = m'.objectGeneration
  totalLogicalLength : m.totalLogicalLength = m'.totalLogicalLength
  chunks : List.Forall₂ ChunkDescriptor.Same m.chunks m'.chunks

/-- The identities are 64-bit words. -/
structure Manifest.Narrow (m : Manifest) : Prop where
  object : m.object.value < 256 ^ 8
  chunks : ∀ c ∈ m.chunks, c.id.value < 256 ^ 8 ∧ c.blob.value < 256 ^ 8

theorem encode_word_inj {a b : UInt64} (h : encode 8 a.toNat = encode 8 b.toNat) : a = b :=
  UInt64.toNat_inj.mp (encode_inj a.toNat_lt b.toNat_lt h)

theorem ChunkDescriptor.same_of_digestInput {c c' : ChunkDescriptor}
    (hc : c.id.value < 256 ^ 8 ∧ c.blob.value < 256 ^ 8)
    (hc' : c'.id.value < 256 ^ 8 ∧ c'.blob.value < 256 ^ 8)
    (h : c.digestInput = c'.digestInput) : c.Same c' := by
  obtain ⟨hid, h⟩ := List.append_inj h (by simp)
  obtain ⟨hoffset, h⟩ := List.append_inj h (by simp)
  obtain ⟨hlogical, h⟩ := List.append_inj h (by simp)
  obtain ⟨hphysical, h⟩ := List.append_inj h (by simp)
  obtain ⟨hdigest, hblob⟩ := List.append_inj h (by rw [c.digest.size, c'.digest.size])
  refine ⟨StrongId.ext (encode_inj hc.1 hc'.1 hid), encode_word_inj hoffset,
    encode_word_inj hlogical, encode_word_inj hphysical, ?_,
    StrongId.ext (encode_inj hc.2 hc'.2 hblob)⟩
  cases hd : c.digest
  cases hd' : c'.digest
  simp only [hd, hd'] at hdigest
  simp only [hdigest]

/-- Nothing that is hashed is lost in the bytes. -/
theorem Manifest.same_of_digestInput {m m' : Manifest} (hm : m.Narrow) (hm' : m'.Narrow)
    (h : m.digestInput = m'.digestInput) : m.Same m' := by
  obtain ⟨-, h⟩ := List.append_inj h rfl
  obtain ⟨-, h⟩ := List.append_inj h rfl
  obtain ⟨hobject, h⟩ := List.append_inj h (by simp)
  obtain ⟨hgeneration, h⟩ := List.append_inj h (by simp)
  obtain ⟨htotal, hchunks⟩ := List.append_inj h (by simp)
  refine ⟨StrongId.ext (encode_inj hm.object hm'.object hobject), ?_, encode_word_inj htotal, ?_⟩
  · cases hg : m.objectGeneration
    cases hg' : m'.objectGeneration
    simp only [hg, hg'] at hgeneration
    rw [encode_word_inj hgeneration]
  · have hall := Framing.forall₂_of_flatMap_eq (by decide) ChunkDescriptor.length_digestInput hchunks
    have hmem := List.forall₂_iff_get.mp hall
    refine List.forall₂_iff_get.mpr ⟨hmem.1, fun i hi hi' => ?_⟩
    exact ChunkDescriptor.same_of_digestInput (hm.chunks _ (List.get_mem _ _))
      (hm'.chunks _ (List.get_mem _ _)) (hmem.2 i hi hi')

theorem Manifest.same_of_digest {m m' : Manifest} (hm : m.Narrow) (hm' : m'.Narrow)
    (h : computeManifestDigest m = computeManifestDigest m') :
    m.Same m' ∨ m.digestInput ≠ m'.digestInput ∧
      ContentDigest.of m.digestInput = ContentDigest.of m'.digestInput := by
  by_cases hinput : m.digestInput = m'.digestInput
  · exact .inl (same_of_digestInput hm hm' hinput)
  · exact .inr ⟨hinput, by rw [← computeManifestDigest_eq, h, computeManifestDigest_eq]⟩

end StorageFabric
