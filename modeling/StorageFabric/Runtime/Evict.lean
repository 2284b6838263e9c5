import StorageFabric.Runtime.Access

/-!
Eviction, in its three parts: the check under the lock, the removal of the
placement's record from the backend without it, and the commit under the lock
again. What the check read is all that the later parts know (`Eviction`).
-/

namespace StorageFabric

open StorageBackend

/-- What an eviction carries out of its checking section. -/
structure Eviction where
  placement : PlacementId
  record : PlacementRecord
  blobs : List BlobId
  deriving DecidableEq

namespace Fabric

variable {β : Type}

/-- `std::to_string` of the required durability, in the refusal that names it. -/
def unsafeReason (p : PlacementRecord) (rs : ReplicaSet) : Bytes :=
  ascii "eviction rejected because removing ReplicaId " ++ p.replica.str ++
    ascii " would reduce authoritative replicas below required durability (" ++
    decimal rs.required.toNat ++ ascii ")"

/-- Whether removing this copy would leave fewer than the required ones. -/
def isLastCopy (p : PlacementRecord) (rs : ReplicaSet) : Bool :=
  decide (rs.authoritativeReplicas ≤ rs.required) && isAvailable p

def canEvict (f : Fabric β) (placement : PlacementId) : EvictionDecision :=
  match f.placements.lookup placement with
  | none => ⟨false, ascii "placement not found", .notFound⟩
  | some p =>
      if p.lifecycle = .known .evicted then
        ⟨false, ascii "placement already evicted", .invalidState⟩
      else
        match f.catalog.lookup p.object with
        | none => ⟨false, ascii "object not found", .notFound⟩
        | some entry =>
            if isLastCopy p entry.replicaSet then
              ⟨false, unsafeReason p entry.replicaSet, .evictionUnsafe⟩
            else ⟨true, ascii "eviction allowed", .ok⟩

/-- The blobs that the manifest of a placement refers to, chunk by chunk. -/
def blobIds (f : Fabric β) (p : PlacementRecord) : List BlobId :=
  match f.manifests.lookup p.manifest with
  | none => []
  | some man => man.chunks.map ChunkDescriptor.blob

/-- The checking section: the decision that refuses, or what to evict. -/
def evictCheck (f : Fabric β) (placement : PlacementId) : EvictionDecision ⊕ Eviction :=
  match f.placements.lookup placement with
  | none => .inl ⟨false, ascii "placement not found", .notFound⟩
  | some p =>
      match f.catalog.lookup p.object with
      | none => .inl ⟨false, ascii "object not found", .notFound⟩
      | some entry =>
          if isLastCopy p entry.replicaSet then
            .inl ⟨false, unsafeReason p entry.replicaSet, .evictionUnsafe⟩
          else if p.lifecycle = .known .evicted then
            .inl ⟨false, ascii "placement already evicted", .invalidState⟩
          else .inr ⟨placement, p, f.blobIds p⟩

section Backend

variable [StorageBackend β]

/-- `remove(key)` on the backend registered as `id`; the answer is ignored. -/
def removeOn (f : Fabric β) (id : StorageBackendId) (key : Bytes) : Fabric β :=
  match f.backends.lookup id with
  | none => f
  | some be => f.setBackend id (remove be key).2

/-- The removal between the two sections. -/
def evictRecord (f : Fabric β) (e : Eviction) : Fabric β :=
  f.removeOn e.record.backend (placementKey e.placement)

end Backend

def detachReplica (id : ReplicaId) (entry : CatalogEntry) : CatalogEntry :=
  let rs := entry.replicaSet
  { entry with
    replicaSet :=
      { rs with replicas := rs.replicas.eraseP fun rp => rp.id = id }.recount.refreshState }

def markEvicted (f : Fabric β) (placement : PlacementId) : Fabric β :=
  if placement ∈ f.placements then
    ({ f with
        placements := f.placements.modify placement fun p =>
          { p with lifecycle := .known .evicted, freshness := .known .stale } } : Fabric β).account
      fun a =>
        { a with
          activePlacements :=
            if 0 < a.activePlacements then a.activePlacements - 1 else a.activePlacements
          evictedBytes := a.evictedBytes + 1 }
  else f

/-- The blobs whose last reference the committing section gives back. -/
def reclaimed (f : Fabric β) (e : Eviction) : List BlobId :=
  (RefCount.dropAll e.blobs f.blobRefs).2

/-- The committing section apart from the backend: lifecycle, references,
replica set and ledger. -/
def evictMetadata (f : Fabric β) (e : Eviction) : Fabric β :=
  let f := f.markEvicted e.placement
  { f with
    blobRefs := (RefCount.dropAll e.blobs f.blobRefs).1
    catalog := f.catalog.modify e.record.object (detachReplica e.record.replica)
    reservations :=
      (f.reservations.removeCommitted e.record.backend e.record.physicalSize).2 }

variable [StorageBackend β]

def removeBlobs (id : StorageBackendId) : List BlobId → Fabric β → Fabric β
  | [], f => f
  | b :: bs, f => removeBlobs id bs (f.removeOn id (blobKey b))

def evictCommit (f : Fabric β) (e : Eviction) : EvictionDecision × Fabric β :=
  (⟨true, ascii "eviction completed", .ok⟩,
    removeBlobs e.record.backend (f.reclaimed e) (f.evictMetadata e))

def evict (f : Fabric β) (placement : PlacementId) : EvictionDecision × Fabric β :=
  match f.evictCheck placement with
  | .inl decision => (decision, f)
  | .inr e => (f.evictRecord e).evictCommit e

end Fabric

end StorageFabric
