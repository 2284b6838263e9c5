import StorageFabric.Runtime.Steps

/-!
What each operation can change.

The state falls into three views that the invariants are about: the catalog
with the placements, the manifests, and the blobs with the backends. An
operation is described once by what it does to each of them; no later proof
unfolds it.
-/

namespace StorageFabric

open StorageBackend

/-- The registries, the catalog and the placements. -/
structure CatalogView where
  tiers : Table StorageTierId StorageTier
  backendDescriptors : Table StorageBackendId BackendDescriptor
  catalog : Table ObjectId CatalogEntry
  placements : Table PlacementId PlacementRecord
  backendCounter : Nat
  tierCounter : Nat
  objectCounter : Nat
  replicaCounter : Nat
  placementCounter : Nat

structure ManifestView where
  manifests : Table ManifestId Manifest
  manifestCounter : Nat

/-- The blob maps and the backend objects. -/
structure BlobView (β : Type) where
  backends : Table StorageBackendId β
  blobByDigest : Table ContentDigest BlobId
  blobDigest : Table BlobId ContentDigest
  blobRefs : Table BlobId Nat
  blobSizes : Table BlobId UInt64
  blobCounter : Nat

namespace Fabric

variable {β : Type}

def catalogView (f : Fabric β) : CatalogView :=
  ⟨f.tiers, f.backendDescriptors, f.catalog, f.placements, f.backendCounter, f.tierCounter,
    f.objectCounter, f.replicaCounter, f.placementCounter⟩

def manifestView (f : Fabric β) : ManifestView := ⟨f.manifests, f.manifestCounter⟩

def blobView (f : Fabric β) : BlobView β :=
  ⟨f.backends, f.blobByDigest, f.blobDigest, f.blobRefs, f.blobSizes, f.blobCounter⟩

/-- The two states differ at most in authority, ledger, accounting and the
fields about recovery. -/
structure SameViews (f f' : Fabric β) : Prop where
  catalog : f'.catalogView = f.catalogView
  manifests : f'.manifestView = f.manifestView
  blobs : f'.blobView = f.blobView

theorem SameViews.refl (f : Fabric β) : SameViews f f := ⟨rfl, rfl, rfl⟩

/-! ### The chunk loop -/

section Chunks

variable [StorageBackend β]

theorem catalogView_putOn (f : Fabric β) (id : StorageBackendId) (data key : Bytes) :
    (f.putOn id data key).2.catalogView = f.catalogView := by
  unfold putOn
  cases f.backends.lookup id <;> rfl

theorem manifestView_putOn (f : Fabric β) (id : StorageBackendId) (data key : Bytes) :
    (f.putOn id data key).2.manifestView = f.manifestView := by
  unfold putOn
  cases f.backends.lookup id <;> rfl

theorem blobByDigest_putOn (f : Fabric β) (id : StorageBackendId) (data key : Bytes) :
    (f.putOn id data key).2.blobByDigest = f.blobByDigest := by
  unfold putOn
  cases f.backends.lookup id <;> rfl

/-- One turn of the chunk loop, by its three outcomes. -/
theorem chunkStep_cases (backend : StorageBackendId) (dedupe : Bool) (offset : Nat)
    (slice : Bytes) (f : Fabric β) :
    (∃ blob, dedupe = true ∧ f.blobByDigest.lookup (ContentDigest.of slice) = some blob ∧
      chunkStep backend dedupe offset slice f =
        (.ok (chunkAt offset slice blob), f.reuseBlob blob slice)) ∨
    (∃ s, (f.allocBlobId.2.putOn backend slice (blobKey ⟨f.blobCounter⟩)).1 = .error s ∧
      chunkStep backend dedupe offset slice f =
        (.error s, (f.allocBlobId.2.putOn backend slice (blobKey ⟨f.blobCounter⟩)).2)) ∨
    (∃ n, (f.allocBlobId.2.putOn backend slice (blobKey ⟨f.blobCounter⟩)).1 = .ok n ∧
      chunkStep backend dedupe offset slice f =
        (.ok (chunkAt offset slice ⟨f.blobCounter⟩),
          (f.allocBlobId.2.putOn backend slice (blobKey ⟨f.blobCounter⟩)).2.recordBlob
            ⟨f.blobCounter⟩ slice)) := by
  unfold chunkStep
  cases hhit : (if dedupe then f.blobByDigest.lookup (ContentDigest.of slice) else none) with
  | some blob =>
      left
      cases dedupe with
      | false => simp at hhit
      | true => exact ⟨blob, rfl, by simpa using hhit, rfl⟩
  | none =>
      right
      rcases hput : f.allocBlobId.2.putOn backend slice (blobKey ⟨f.blobCounter⟩) with ⟨r, f'⟩
      have hput' : f.allocBlobId.2.putOn backend slice (blobKey f.allocBlobId.1) = (r, f') := hput
      cases r with
      | error s => exact .inl ⟨s, rfl, by simp only [hput']⟩
      | ok n => exact .inr ⟨n, rfl, by simp only [hput']; rfl⟩

theorem chunkStep_ok {backend : StorageBackendId} {dedupe : Bool} {offset : Nat} {slice : Bytes}
    {f g : Fabric β} {c : ChunkDescriptor}
    (h : chunkStep backend dedupe offset slice f = (.ok c, g)) :
    (∃ blob, dedupe = true ∧ f.blobByDigest.lookup (ContentDigest.of slice) = some blob ∧
      c = chunkAt offset slice blob ∧ g = f.reuseBlob blob slice) ∨
    (∃ n, (f.allocBlobId.2.putOn backend slice (blobKey ⟨f.blobCounter⟩)).1 = .ok n ∧
      c = chunkAt offset slice ⟨f.blobCounter⟩ ∧
      g = (f.allocBlobId.2.putOn backend slice (blobKey ⟨f.blobCounter⟩)).2.recordBlob
        ⟨f.blobCounter⟩ slice) := by
  obtain ⟨blob, hdedupe, hblob, heq⟩ | ⟨s, -, heq⟩ | ⟨n, hput, heq⟩ :=
    chunkStep_cases backend dedupe offset slice f
  · rw [heq] at h
    cases h
    exact .inl ⟨blob, hdedupe, hblob, rfl, rfl⟩
  · rw [heq] at h
    cases h
  · rw [heq] at h
    cases h
    exact .inr ⟨n, hput, rfl, rfl⟩

theorem chunkStep_error {backend : StorageBackendId} {dedupe : Bool} {offset : Nat} {slice : Bytes}
    {f g : Fabric β} {s : Status} (h : chunkStep backend dedupe offset slice f = (.error s, g)) :
    (f.allocBlobId.2.putOn backend slice (blobKey ⟨f.blobCounter⟩)).1 = .error s ∧
      g = (f.allocBlobId.2.putOn backend slice (blobKey ⟨f.blobCounter⟩)).2 := by
  obtain ⟨blob, -, -, heq⟩ | ⟨s', hput, heq⟩ | ⟨n, -, heq⟩ :=
    chunkStep_cases backend dedupe offset slice f
  · rw [heq] at h
    cases h
  · rw [heq] at h
    cases h
    exact ⟨hput, rfl⟩
  · rw [heq] at h
    cases h

theorem chunkStep_reuse {f : Fabric β} {backend : StorageBackendId} {slice : Bytes} {offset : Nat}
    {blob : BlobId} (h : f.blobByDigest.lookup (ContentDigest.of slice) = some blob) :
    chunkStep backend true offset slice f =
      (.ok (chunkAt offset slice blob), f.reuseBlob blob slice) := by
  rw [chunkStep, if_pos rfl, h]

theorem catalogView_chunkStep (backend : StorageBackendId) (dedupe : Bool) (offset : Nat)
    (slice : Bytes) (f : Fabric β) :
    (chunkStep backend dedupe offset slice f).2.catalogView = f.catalogView := by
  rcases chunkStep_cases backend dedupe offset slice f with
    ⟨_, _, _, h⟩ | ⟨_, _, h⟩ | ⟨_, _, h⟩
  · rw [h]; rfl
  · rw [h]; exact catalogView_putOn _ _ _ _
  · rw [h]; exact catalogView_putOn _ _ _ _

theorem manifestView_chunkStep (backend : StorageBackendId) (dedupe : Bool) (offset : Nat)
    (slice : Bytes) (f : Fabric β) :
    (chunkStep backend dedupe offset slice f).2.manifestView = f.manifestView := by
  rcases chunkStep_cases backend dedupe offset slice f with
    ⟨_, _, _, h⟩ | ⟨_, _, h⟩ | ⟨_, _, h⟩
  · rw [h]; rfl
  · rw [h]; exact manifestView_putOn _ _ _ _
  · rw [h]; exact manifestView_putOn _ _ _ _

@[simp] theorem chunkLoop_nil (backend : StorageBackendId) (dedupe : Bool)
    (chunk turns offset : Nat) (f : Fabric β) :
    chunkLoop backend dedupe chunk turns offset [] f = (.ok [], f) := by
  cases turns <;> simp [chunkLoop]

theorem chunkLoop_error {backend : StorageBackendId} {dedupe : Bool} {chunk offset : Nat}
    {rest : Bytes} {f g : Fabric β} {s : Status} (hrest : rest ≠ [])
    (h : chunkStep backend dedupe offset (rest.take chunk) f = (.error s, g)) (turns : Nat) :
    chunkLoop backend dedupe chunk (turns + 1) offset rest f = (.error s, g) := by
  rw [chunkLoop, if_neg hrest, h]

theorem chunkLoop_ok {backend : StorageBackendId} {dedupe : Bool} {chunk offset : Nat}
    {rest : Bytes} {f g : Fabric β} {c : ChunkDescriptor} (hrest : rest ≠ [])
    (h : chunkStep backend dedupe offset (rest.take chunk) f = (.ok c, g)) (turns : Nat) :
    chunkLoop backend dedupe chunk (turns + 1) offset rest f =
      let out := chunkLoop backend dedupe chunk turns (offset + (rest.take chunk).length)
        (rest.drop chunk) g
      (out.1.map (c :: ·), out.2) := by
  rw [chunkLoop, if_neg hrest, h]
  rcases hloop : chunkLoop backend dedupe chunk turns (offset + (rest.take chunk).length)
    (rest.drop chunk) g with ⟨r, k⟩
  cases r <;> simp only [hloop, Except.map]

/-- The induction rule of the chunk loop: what every turn preserves, the loop
preserves, whether it ends well or in the middle. -/
theorem chunkLoop_invariant {I : Fabric β → Prop} {backend : StorageBackendId} {dedupe : Bool}
    (hstep : ∀ offset slice f, I f → I (chunkStep backend dedupe offset slice f).2)
    (chunk turns offset : Nat) (rest : Bytes) (f : Fabric β) (hf : I f) :
    I (chunkLoop backend dedupe chunk turns offset rest f).2 := by
  induction turns generalizing offset rest f with
  | zero => exact hf
  | succ turns ih =>
      by_cases hrest : rest = []
      · subst hrest
        simpa using hf
      · have hnext := hstep offset (rest.take chunk) f hf
        rcases hturn : chunkStep backend dedupe offset (rest.take chunk) f with ⟨r, g⟩
        rw [hturn] at hnext
        cases r with
        | error s => simpa [chunkLoop_error hrest hturn] using hnext
        | ok c =>
            rw [chunkLoop_ok hrest hturn]
            exact ih _ _ g hnext

theorem catalogView_chunkLoop (backend : StorageBackendId) (dedupe : Bool)
    (chunk turns offset : Nat) (rest : Bytes) (f : Fabric β) :
    (chunkLoop backend dedupe chunk turns offset rest f).2.catalogView = f.catalogView :=
  chunkLoop_invariant (I := fun g => g.catalogView = f.catalogView)
    (fun o s g hg => (catalogView_chunkStep backend dedupe o s g).trans hg) _ _ _ _ _ rfl

theorem manifestView_chunkLoop (backend : StorageBackendId) (dedupe : Bool)
    (chunk turns offset : Nat) (rest : Bytes) (f : Fabric β) :
    (chunkLoop backend dedupe chunk turns offset rest f).2.manifestView = f.manifestView :=
  chunkLoop_invariant (I := fun g => g.manifestView = f.manifestView)
    (fun o s g hg => (manifestView_chunkStep backend dedupe o s g).trans hg) _ _ _ _ _ rfl

/-- The ledger, the authority and the two counters of the reservation. -/
structure Book where
  reservations : ReservationLedger
  authority : AuthorityEnvelope
  reservedBytes : UInt64
  committedBytes : UInt64

def book (f : Fabric β) : Book :=
  ⟨f.reservations, f.authority, f.accounting.reservedBytes, f.accounting.committedBytes⟩

theorem book_putOn (f : Fabric β) (id : StorageBackendId) (data key : Bytes) :
    (f.putOn id data key).2.book = f.book := by
  unfold putOn
  cases f.backends.lookup id <;> rfl

theorem book_chunkLoop (backend : StorageBackendId) (dedupe : Bool) (chunk turns offset : Nat)
    (rest : Bytes) (f : Fabric β) :
    (chunkLoop backend dedupe chunk turns offset rest f).2.book = f.book := by
  refine chunkLoop_invariant (I := fun g => g.book = f.book) ?_ _ _ _ _ _ rfl
  intro offset slice g hg
  rcases chunkStep_cases backend dedupe offset slice g with ⟨_, _, _, h⟩ | ⟨_, _, h⟩ | ⟨_, _, h⟩
  · rw [h]
    exact hg
  · rw [h]
    exact (book_putOn _ _ _ _).trans hg
  · rw [h]
    exact (book_putOn _ _ _ _).trans hg

end Chunks

/-! ### Object definition -/

/-- The object is stored by `define_object`. -/
def Defines (f : Fabric β) (size : UInt64) (content : Bytes) : Prop :=
  content.length = size.toNat ∧ size ≠ 0 ∧ ⟨f.objectCounter⟩ ∉ f.catalog

instance (f : Fabric β) (size : UInt64) (content : Bytes) : Decidable (f.Defines size content) := by
  unfold Defines
  infer_instance

def withObject (f : Fabric β) (obj : ObjectDescriptor) : Fabric β :=
  ({ f with
      catalog := f.catalog.insert obj.id (newEntry obj)
      objectCounter := f.objectCounter + 1 } : Fabric β).account fun a =>
    { a with
      logicalObjects := a.logicalObjects + 1
      logicalBytes := a.logicalBytes + obj.logicalSize }

/-- `define_object` stores its object, or fails with no more than an id drawn that
is taken. -/
theorem defineObject_cases (f : Fabric β) (kind : EnumValue ObjectKind) (size : UInt64)
    (content : Bytes) (writer : AuthorityEnvelope) (durability : DurabilityRequirement)
    (priority : EnumValue RestorePriority) :
    (f.Defines size content ∧ ∃ obj,
      obj = describeObject ⟨f.objectCounter⟩ kind size content writer durability priority
        f.policyGeneration ∧
      f.defineObject kind size content writer durability priority = (.ok obj, f.withObject obj)) ∨
    (¬f.Defines size content ∧ ∃ s n,
      (n = f.objectCounter ∨ ⟨f.objectCounter⟩ ∈ f.catalog ∧ n = f.objectCounter + 1) ∧
      f.defineObject kind size content writer durability priority =
        (.error s, { f with objectCounter := n })) := by
  unfold defineObject
  by_cases hsize : content.length ≠ size.toNat
  · rw [if_pos hsize]
    exact .inr ⟨fun h => hsize h.1, _, f.objectCounter, .inl rfl, rfl⟩
  · rw [if_neg hsize]
    by_cases hzero : size = 0
    · rw [if_pos hzero]
      exact .inr ⟨fun h => h.2.1 hzero, _, f.objectCounter, .inl rfl, rfl⟩
    · rw [if_neg hzero]
      simp only [allocObjectId, describeObject]
      by_cases hid : (⟨f.objectCounter⟩ : ObjectId) ∈ f.catalog
      · simp only [hid, if_true]
        exact .inr ⟨fun h => h.2.2 hid, _, f.objectCounter + 1, .inr ⟨trivial, rfl⟩, rfl⟩
      · simp only [hid, if_false]
        exact .inl ⟨⟨not_not.mp hsize, hzero, hid⟩, _, rfl, rfl⟩

/-! ### Eviction -/

theorem evictCheck_inl {f : Fabric β} {id : PlacementId} {decision : EvictionDecision}
    (h : f.evictCheck id = .inl decision) : decision.allowed = false := by
  unfold evictCheck at h
  cases hp : f.placements.lookup id with
  | none =>
      rw [hp] at h
      cases h
      rfl
  | some p =>
      cases hentry : f.catalog.lookup p.object with
      | none =>
          simp only [hp, hentry] at h
          cases h
          rfl
      | some entry =>
          simp only [hp, hentry] at h
          split at h
          · cases h
            rfl
          · split at h
            · cases h
              rfl
            · cases h

/-- An eviction that passes its check has found a placement that is not evicted
and not a last copy, in the catalog. -/
theorem evictCheck_inr {f : Fabric β} {id : PlacementId} {e : Eviction}
    (h : f.evictCheck id = .inr e) :
    ∃ entry, f.placements.lookup id = some e.record ∧
      f.catalog.lookup e.record.object = some entry ∧
      isLastCopy e.record entry.replicaSet = false ∧
      e.record.lifecycle ≠ .known .evicted ∧ e.placement = id ∧ e.blobs = f.blobIds e.record := by
  unfold evictCheck at h
  cases hp : f.placements.lookup id with
  | none => simp [hp] at h
  | some p =>
      cases hentry : f.catalog.lookup p.object with
      | none => simp [hp, hentry] at h
      | some entry =>
          by_cases hlast : isLastCopy p entry.replicaSet = true
          · simp [hp, hentry, hlast] at h
          · by_cases hevicted : p.lifecycle = .known .evicted
            · simp [hp, hentry, hlast, hevicted] at h
            · simp only [hp, hentry, if_neg hlast, if_neg hevicted, Sum.inr.injEq] at h
              subst h
              exact ⟨entry, rfl, hentry, by simpa using hlast, hevicted, rfl, rfl⟩

/-- `can_evict` allows what the checking section of an eviction allows. -/
theorem allowed_canEvict_iff (f : Fabric β) (id : PlacementId) :
    (f.canEvict id).allowed = true ↔ ∃ e, f.evictCheck id = .inr e := by
  unfold canEvict evictCheck
  cases hp : f.placements.lookup id with
  | none => simp
  | some p =>
      cases hentry : f.catalog.lookup p.object with
      | none => by_cases hevicted : p.lifecycle = .known .evicted <;> simp [hentry, hevicted]
      | some entry =>
          by_cases hlast : isLastCopy p entry.replicaSet = true <;>
            by_cases hevicted : p.lifecycle = .known .evicted <;> simp [hentry, hlast, hevicted]

theorem blobView_evictMetadata (f : Fabric β) (e : Eviction) :
    (f.evictMetadata e).blobView =
      { f.blobView with blobRefs := (RefCount.dropAll e.blobs f.blobRefs).1 } := by
  unfold evictMetadata markEvicted
  split <;> rfl

section Backend

variable [StorageBackend β]

theorem catalogView_removeOn (f : Fabric β) (id : StorageBackendId) (key : Bytes) :
    (f.removeOn id key).catalogView = f.catalogView := by
  unfold removeOn
  cases f.backends.lookup id <;> rfl

theorem manifestView_removeOn (f : Fabric β) (id : StorageBackendId) (key : Bytes) :
    (f.removeOn id key).manifestView = f.manifestView := by
  unfold removeOn
  cases f.backends.lookup id <;> rfl

theorem blobView_removeOn (f : Fabric β) (id : StorageBackendId) (key : Bytes) :
    (f.removeOn id key).blobView =
      { f.blobView with backends := (f.removeOn id key).backends } := by
  unfold removeOn
  cases f.backends.lookup id <;> rfl

theorem catalogView_removeBlobs (id : StorageBackendId) (bs : List BlobId) (f : Fabric β) :
    (removeBlobs id bs f).catalogView = f.catalogView := by
  induction bs generalizing f with
  | nil => rfl
  | cons b bs ih => rw [removeBlobs, ih, catalogView_removeOn]

theorem manifestView_removeBlobs (id : StorageBackendId) (bs : List BlobId) (f : Fabric β) :
    (removeBlobs id bs f).manifestView = f.manifestView := by
  induction bs generalizing f with
  | nil => rfl
  | cons b bs ih => rw [removeBlobs, ih, manifestView_removeOn]

theorem blobView_removeBlobs (id : StorageBackendId) (bs : List BlobId) (f : Fabric β) :
    (removeBlobs id bs f).blobView =
      { f.blobView with backends := (removeBlobs id bs f).backends } := by
  induction bs generalizing f with
  | nil => rfl
  | cons b bs ih => rw [removeBlobs, ih, blobView_removeOn]

def evictedRecord (p : PlacementRecord) : PlacementRecord :=
  { p with lifecycle := .known .evicted, freshness := .known .stale }

theorem catalogView_evict {f : Fabric β} {id : PlacementId} {e : Eviction}
    (h : f.evictCheck id = .inr e) :
    ((f.evictRecord e).evictCommit e).2.catalogView =
      { f.catalogView with
        catalog := f.catalog.modify e.record.object (detachReplica e.record.replica)
        placements := f.placements.modify id evictedRecord } := by
  obtain ⟨entry, hp, -, -, -, hid, -⟩ := evictCheck_inr h
  have hview := catalogView_removeOn f e.record.backend (placementKey e.placement)
  obtain ⟨-, -, hcatalog, hplacements, -⟩ := CatalogView.mk.inj hview
  have hmem : e.placement ∈ (f.evictRecord e).placements := by
    rw [evictRecord, hplacements, hid]
    exact AList.mem_iff_lookup.mpr ⟨_, hp⟩
  simp only [evictCommit, catalogView_removeBlobs]
  rw [evictMetadata, markEvicted, if_pos hmem, ← hview, ← hcatalog, ← hplacements, ← hid]
  rfl

theorem manifestView_evict (f : Fabric β) (e : Eviction) :
    ((f.evictRecord e).evictCommit e).2.manifestView = f.manifestView := by
  simp only [evictCommit, manifestView_removeBlobs, evictMetadata, markEvicted]
  split <;> exact manifestView_removeOn f e.record.backend (placementKey e.placement)

/-- An eviction gives back the references it carries and touches the backend
objects; nothing else of the blob view changes. -/
theorem blobView_evict (f : Fabric β) (e : Eviction) :
    ((f.evictRecord e).evictCommit e).2.blobView =
      { f.blobView with
        backends := ((f.evictRecord e).evictCommit e).2.backends
        blobRefs := (RefCount.dropAll e.blobs f.blobRefs).1 } := by
  have hview := blobView_removeOn f e.record.backend (placementKey e.placement)
  obtain ⟨-, hdigest, hblob, hrefs, hsizes, hcounter⟩ := BlobView.mk.inj hview
  simp only [evictCommit, blobView_removeBlobs, blobView_evictMetadata, evictRecord]
  rw [hrefs, hview]
  rfl

end Backend

end Fabric

end StorageFabric
