import Mathlib.Data.List.Sort
import StorageFabric.Lib.LittleEndian
import StorageFabric.Model.Records

/-!
Manifests: the order of their chunks, their validation and their digest.
-/

namespace StorageFabric

namespace Manifest

/-- The comparison that `sort_chunks` sorts by: offset first, then id. -/
def chunkLe (a b : ChunkDescriptor) : Prop :=
  a.offset < b.offset ∨ a.offset = b.offset ∧ a.id.value ≤ b.id.value

instance : DecidableRel chunkLe := fun a b =>
  inferInstanceAs (Decidable (a.offset < b.offset ∨ a.offset = b.offset ∧ a.id.value ≤ b.id.value))

def sortChunks (m : Manifest) : Manifest := { m with chunks := m.chunks.insertionSort chunkLe }

end Manifest

/-- The loop of `validate_manifest` over the chunks that are left, with the
chunk ids seen so far and the end of the chunk before. -/
def validateChunks (total : UInt64) (allowGaps : Bool) :
    List ChunkId → UInt64 → List ChunkDescriptor → Except Status UInt64
  | _, cursor, [] => .ok cursor
  | ids, cursor, c :: cs =>
      if c.id ∈ ids then Result.fail .duplicateIdentity "duplicate chunk id"
      else if c.id.isNil || c.blob.isNil then Result.fail .malformed "chunk has nil id or blob"
      else if c.digest.isZero then Result.fail .integrityMismatch "chunk digest is zero"
      else if c.logicalLength = 0 then Result.fail .malformed "chunk has zero logical length"
      else if c.physicalLength = 0 then Result.fail .malformed "chunk has zero physical length"
      else if total < c.offset then Result.fail .overflow "chunk offset exceeds object length"
      else if c.offset < cursor then Result.fail .malformed "chunk overlap detected"
      else if !allowGaps && decide (c.offset ≠ cursor) then
        Result.fail .malformed "chunk gap detected"
      else if total < c.offset + c.logicalLength then
        Result.fail .lengthMismatch "chunk extends beyond object length"
      else validateChunks total allowGaps (c.id :: ids) (c.offset + c.logicalLength) cs

def validateManifest (m : Manifest) (allowGaps : Bool) : Except Status Unit :=
  if m.id.isNil then Result.fail .malformed "manifest id is nil"
  else if m.object.isNil then Result.fail .malformed "manifest object id is nil"
  else if m.totalLogicalLength = 0 then Result.fail .malformed "zero-length manifest"
  else if m.manifestDigest.isZero then Result.fail .integrityMismatch "manifest digest is zero"
  else if m.sortChunks.chunks.map (fun c => (c.offset, c.id)) ≠
      m.chunks.map (fun c => (c.offset, c.id)) then
    Result.fail .malformed "manifest chunk ordering is not deterministic"
  else
    match validateChunks m.totalLogicalLength allowGaps [] 0 m.chunks with
    | .error st => .error st
    | .ok cursor =>
        if cursor ≠ m.totalLogicalLength then
          Result.fail .lengthMismatch "manifest does not cover the full object length"
        else if m.chunks.isEmpty then Result.fail .malformed "manifest has no chunks"
        else .ok ()

def Manifest.validate (m : Manifest) : Except Status Unit := validateManifest m false

/-- The semantic digest of a manifest: a tagged SHA-256 over the object, the
length and the chunks in order. -/
def computeManifestDigest (m : Manifest) : ContentDigest :=
  let pushU64 (h : Sha256) (v : Nat) := h.update (LittleEndian.encode 8 v)
  let pushU32 (h : Sha256) (v : Nat) := h.update (LittleEndian.encode 4 v)
  let tag := ascii "SFB-MANIFEST-v1"
  let h := (pushU32 {} tag.length).update tag
  let h := pushU64 h m.object.value
  let h := pushU64 h m.objectGeneration.value.toNat
  let h := pushU64 h m.totalLogicalLength.toNat
  let h := m.chunks.foldl (fun h c =>
    let h := pushU64 h c.id.value
    let h := pushU64 h c.offset.toNat
    let h := pushU64 h c.logicalLength.toNat
    let h := pushU64 h c.physicalLength.toNat
    let h := h.update c.digest.bytes
    pushU64 h c.blob.value) h
  ⟨h.finish.1, Sha256.finish_length h⟩

theorem computeManifestDigest_congr {m m' : Manifest} (hobject : m.object = m'.object)
    (hgeneration : m.objectGeneration = m'.objectGeneration)
    (hlength : m.totalLogicalLength = m'.totalLogicalLength) (hchunks : m.chunks = m'.chunks) :
    computeManifestDigest m = computeManifestDigest m' := by
  unfold computeManifestDigest
  rw [hobject, hgeneration, hlength, hchunks]

theorem validateManifest_congr {m m' : Manifest} {allowGaps : Bool}
    (hid : m.id.isNil = m'.id.isNil) (hobject : m.object = m'.object)
    (hlength : m.totalLogicalLength = m'.totalLogicalLength)
    (hdigest : m.manifestDigest = m'.manifestDigest) (hchunks : m.chunks = m'.chunks) :
    validateManifest m allowGaps = validateManifest m' allowGaps := by
  unfold validateManifest Manifest.sortChunks
  rw [hid, hobject, hlength, hdigest, hchunks]

/-- Two chunks that validation cannot tell apart. -/
structure SameChunk (c c' : ChunkDescriptor) : Prop where
  id : c.id = c'.id
  offset : c.offset = c'.offset
  logicalLength : c.logicalLength = c'.logicalLength
  physicalLength : c.physicalLength = c'.physicalLength
  digest : c.digest = c'.digest
  blob : c.blob.isNil = c'.blob.isNil

/-- What an accepted manifest is: identified, of some length and digest, in
order, and covered by its chunks. -/
theorem validateManifest_ok_iff {m : Manifest} {allowGaps : Bool} :
    validateManifest m allowGaps = .ok () ↔
      m.id.isNil = false ∧ m.object.isNil = false ∧ m.totalLogicalLength ≠ 0 ∧
      m.manifestDigest.isZero = false ∧
      m.sortChunks.chunks.map (fun c => (c.offset, c.id)) =
        m.chunks.map (fun c => (c.offset, c.id)) ∧
      validateChunks m.totalLogicalLength allowGaps [] 0 m.chunks = .ok m.totalLogicalLength ∧
      m.chunks ≠ [] := by
  unfold validateManifest
  by_cases hid : m.id.isNil = true
  · simp [hid, Result.fail]
  by_cases hobject : m.object.isNil = true
  · simp [hid, hobject, Result.fail]
  by_cases hlength : m.totalLogicalLength = 0
  · simp [hid, hobject, hlength, Result.fail]
  by_cases hdigest : m.manifestDigest.isZero = true
  · simp [hid, hobject, hlength, hdigest, Result.fail]
  by_cases hsorted : m.sortChunks.chunks.map (fun c => (c.offset, c.id)) =
      m.chunks.map (fun c => (c.offset, c.id))
  · cases hchunks : validateChunks m.totalLogicalLength allowGaps [] 0 m.chunks with
    | error s => simp [hid, hobject, hlength, hdigest, hsorted]
    | ok cursor =>
        by_cases hcursor : cursor = m.totalLogicalLength
        · by_cases hempty : m.chunks = []
          · simp [hid, hobject, hlength, hdigest, hsorted, hcursor, hempty, Result.fail]
          · simp [hid, hobject, hlength, hdigest, hsorted, hcursor, hempty]
        · simp [hid, hobject, hlength, hdigest, hsorted, hcursor, Result.fail]
  · simp [hid, hobject, hlength, hdigest, hsorted, Result.fail]

end StorageFabric
