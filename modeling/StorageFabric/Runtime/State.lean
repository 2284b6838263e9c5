import StorageFabric.Core.Capacity
import StorageFabric.Lib.RefCount
import StorageFabric.Model.Manifest
import StorageFabric.Storage.Synthetic

/-!
The state of the runtime: its registries, the catalog, the blob maps, the
ledger, the counters, and the operations that only touch one of them.

The state is generic in the backend objects it holds. A hash map is a table;
where the source iterates over one, the model takes the order of the table.
-/

namespace StorageFabric

structure PublishOptions where
  policyGeneration : PolicyGeneration := default
  /-- Optional; otherwise the runtime authority is used. -/
  authority : AuthorityEnvelope := {}
  requiredReplicas : UInt32 := 1
  dedupe : Bool := true
  eagerVerify : Bool := true
  /-- `0` means a single chunk. -/
  chunkSize : UInt64 := 0
  deriving DecidableEq

structure EvictionDecision where
  allowed : Bool := false
  reason : Bytes := []
  code : StatusCode := .ok
  deriving DecidableEq

structure CatalogEntry where
  object : ObjectDescriptor := {}
  manifest : Manifest := {}
  replicaSet : ReplicaSet := {}
  placements : List PlacementId := []
  stalePlacements : List PlacementId := []
  deriving DecidableEq

structure Fabric (β : Type) where
  authority : AuthorityEnvelope := {}
  policyGeneration : PolicyGeneration := default
  backends : Table StorageBackendId β := ∅
  tiers : Table StorageTierId StorageTier := ∅
  backendDescriptors : Table StorageBackendId BackendDescriptor := ∅
  catalog : Table ObjectId CatalogEntry := ∅
  placements : Table PlacementId PlacementRecord := ∅
  manifests : Table ManifestId Manifest := ∅
  capacityProbe : Table StorageBackendId BackendCapacity := ∅
  reservations : ReservationLedger := {}
  accounting : AccountingTotals := {}
  blobByDigest : Table ContentDigest BlobId := ∅
  blobDigest : Table BlobId ContentDigest := ∅
  blobRefs : Table BlobId Nat := ∅
  blobSizes : Table BlobId UInt64 := ∅
  backendCounter : Nat := 1
  tierCounter : Nat := 1
  objectCounter : Nat := 1
  manifestCounter : Nat := 1
  replicaCounter : Nat := 1
  placementCounter : Nat := 1
  blobCounter : Nat := 1
  recovered : Bool := false
  recoveryNote : Bytes := []
  lastSavePath : Bytes := []
  deriving DecidableEq

/-! ### Keys -/

def blobKey (id : BlobId) : Bytes := ascii "blobs/blob-" ++ id.str

def placementKey (id : PlacementId) : Bytes := ascii "placements/placement-" ++ id.str

theorem decimal_injective : Function.Injective decimal := by
  have hdigit : ∀ n, ∀ d ∈ Nat.digits 10 n, UInt8.toNat (UInt8.ofNat (48 + d)) = 48 + d := by
    intro n d hd
    have := Nat.digits_lt_base (by omega : 1 < 10) hd
    rw [UInt8.toNat_ofNat']
    omega
  have hback : ∀ n, n ≠ 0 → Nat.ofDigits 10 ((decimal n).reverse.map fun b => b.toNat - 48) = n := by
    intro n hn
    rw [decimal, if_neg hn, ← List.map_reverse, List.reverse_reverse, List.map_map]
    have hmap : (Nat.digits 10 n).map ((fun b : UInt8 => b.toNat - 48) ∘
        fun d => UInt8.ofNat (48 + d)) = Nat.digits 10 n := by
      conv_rhs => rw [← List.map_id (Nat.digits 10 n)]
      refine List.map_congr_left fun d hd => ?_
      simp only [Function.comp, hdigit n d hd, id]
      omega
    rw [hmap, Nat.ofDigits_digits]
  have hzero : Nat.ofDigits 10 ((decimal 0).reverse.map fun b => b.toNat - 48) = 0 := by
    decide
  intro m n h
  by_cases hm : m = 0
  · by_cases hn : n = 0
    · rw [hm, hn]
    · rw [← hback n hn, ← h, hm, hzero]
  · by_cases hn : n = 0
    · rw [← hback m hm, h, hn, hzero]
    · rw [← hback m hm, h, hback n hn]

theorem blobKey_injective : Function.Injective blobKey := by
  intro a b h
  exact StrongId.ext (decimal_injective (List.append_cancel_left h))

theorem placementKey_ne_blobKey (p : PlacementId) (b : BlobId) : placementKey p ≠ blobKey b := by
  intro h
  have hhead := congrArg List.head? h
  simp [placementKey, blobKey, ascii] at hhead

namespace ReplicaSet

/-- The counters that are recomputed from the replica list after every change
of it, together with the state they give. -/
def recount (rs : ReplicaSet) : ReplicaSet :=
  { rs with
    actual := UInt32.ofNat rs.replicas.length
    authoritativeReplicas := UInt32.ofNat rs.replicas.length
    distinctFailureDomains :=
      UInt32.ofNat (rs.replicas.map ReplicaInfo.failureDomain).dedup.length }

def refreshState (rs : ReplicaSet) : ReplicaSet := { rs with state := .known rs.computeState }

end ReplicaSet

namespace Fabric

variable {β : Type}

def account (f : Fabric β) (u : AccountingTotals → AccountingTotals) : Fabric β :=
  { f with accounting := u f.accounting }

/-! ### Id allocators -/

def allocBackendId (f : Fabric β) : StorageBackendId × Fabric β :=
  (⟨f.backendCounter⟩, { f with backendCounter := f.backendCounter + 1 })

def allocTierId (f : Fabric β) : StorageTierId × Fabric β :=
  (⟨f.tierCounter⟩, { f with tierCounter := f.tierCounter + 1 })

def allocObjectId (f : Fabric β) : ObjectId × Fabric β :=
  (⟨f.objectCounter⟩, { f with objectCounter := f.objectCounter + 1 })

def allocManifestId (f : Fabric β) : ManifestId × Fabric β :=
  (⟨f.manifestCounter⟩, { f with manifestCounter := f.manifestCounter + 1 })

def allocReplicaId (f : Fabric β) : ReplicaId × Fabric β :=
  (⟨f.replicaCounter⟩, { f with replicaCounter := f.replicaCounter + 1 })

def allocPlacementId (f : Fabric β) : PlacementId × Fabric β :=
  (⟨f.placementCounter⟩, { f with placementCounter := f.placementCounter + 1 })

def allocBlobId (f : Fabric β) : BlobId × Fabric β :=
  (⟨f.blobCounter⟩, { f with blobCounter := f.blobCounter + 1 })

/-! ### Authority -/

def setAuthority (f : Fabric β) (a : AuthorityEnvelope) : Fabric β := { f with authority := a }

def newCoordinatorEpoch (f : Fabric β) : Fabric β :=
  { f with authority := { f.authority with epoch := f.authority.epoch.next } }

/-! ### Backend registry -/

def getBackend (f : Fabric β) (id : StorageBackendId) : Result β :=
  match f.backends.lookup id with
  | none => Result.fail .notFound "backend not registered"
  | some be => .ok be

def setBackend (f : Fabric β) (id : StorageBackendId) (be : β) : Fabric β :=
  { f with backends := f.backends.modify id fun _ => be }

/-- What both registrations do with the tier, the descriptor, the backend
object and the capacity they have built. -/
def registerBackend (f : Fabric β) (t : StorageTier) (desc : BackendDescriptor) (be : β)
    (cap : BackendCapacity) : Fabric β :=
  { f with
    tiers := f.tiers.emplace t.id t
    backends := f.backends.emplace desc.id be
    backendDescriptors := f.backendDescriptors.emplace desc.id desc
    capacityProbe := f.capacityProbe.insert desc.id cap
    reservations := f.reservations.registerBackend desc.id cap }

/-- The backend object that is built over the root, and what it answers to
`query_capacity`, come from the file system. -/
def registerLocalBackend (f : Fabric β) (name : Bytes) (storageClass : EnumValue StorageClass)
    (be : β) (probe : Result BackendCapacity) : Result StorageBackendId × Fabric β :=
  let (tierId, f) := f.allocTierId
  let (backendId, f) := f.allocBackendId
  let t : StorageTier :=
    { id := tierId
      storageClass
      name
      failureDomain := ascii "local-multi"
      locality := ascii "local"
      durabilityClass := .localTier
      evictionCapable := true
      persistent := true
      freshness := .known .current
      health := .known .healthy
      concurrency := 8 }
  let desc : BackendDescriptor :=
    { id := backendId
      tier := tierId
      node := ⟨1⟩
      name
      generation := ⟨1⟩
      health := .known .healthy
      freshness := .known .current
      provenance := .known .measured
      capabilities := [.known .write, .known .read, .known .delete, .known .enumerate,
        .known .flush, .known .atomicRename, .known .freeSpaceQuery, .known .verify,
        .known .persistent, .known .evictable] }
  let cap : BackendCapacity :=
    match probe with
    | .ok cap => cap
    | .error _ => { unknown := true }
  (.ok backendId, f.registerBackend t desc be cap)

def registerSyntheticBackend (f : Fabric β) (name : Bytes) (profile : SyntheticProfile) (be : β) :
    Result StorageBackendId × Fabric β :=
  let (tierId, f) := f.allocTierId
  let (backendId, f) := f.allocBackendId
  let t : StorageTier :=
    { id := tierId
      storageClass := profile.storageClass
      name
      failureDomain := profile.failureDomain
      locality := profile.locality
      durabilityClass := if profile.persistent then .localTier else .ephemeral
      evictionCapable := profile.evictable
      persistent := profile.persistent
      freshness := profile.freshness
      health := profile.health
      concurrency := 4
      nominalCapacityBytes := ⟨profile.totalBytes, .known .synthetic, 0⟩
      measuredFreeBytes := ⟨profile.freeBytes, .known .synthetic, 0⟩
      readThroughputBps := ⟨profile.readBps, .known .synthetic, 0⟩
      writeThroughputBps := ⟨profile.writeBps, .known .synthetic, 0⟩
      costClass := profile.costClass }
  let desc : BackendDescriptor :=
    { id := backendId
      tier := tierId
      node := ⟨2⟩
      name
      generation := profile.generation
      health := profile.health
      freshness := profile.freshness
      provenance := .known .synthetic
      capacity := { totalBytes := profile.totalBytes, freeBytes := profile.freeBytes }
      capabilities := [.known .write, .known .read, .known .delete, .known .enumerate,
        .known .verify] ++ (if profile.persistent then [.known .persistent] else []) ++
        (if profile.evictable then [.known .evictable] else []) }
  (.ok backendId, f.registerBackend t desc be desc.capacity)

/-! ### Object definition -/

def describeObject (id : ObjectId) (kind : EnumValue ObjectKind) (logicalSize : UInt64)
    (content : Bytes) (writer : AuthorityEnvelope) (durability : DurabilityRequirement)
    (restorePriority : EnumValue RestorePriority) (policyGeneration : PolicyGeneration) :
    ObjectDescriptor where
  id
  generation := ⟨1⟩
  kind
  logicalSize
  digest := ContentDigest.of content
  owner := ⟨1⟩
  provenance :=
    { origin := .known .runner
      worker := writer.worker
      boot := writer.boot
      authorityGeneration := writer.generation
      creator := ascii "runner" }
  durability
  restorePriority
  retention := .known .lruClass
  policyGeneration

def newEntry (obj : ObjectDescriptor) : CatalogEntry where
  object := obj
  replicaSet :=
    { object := obj.id
      currentGeneration := obj.generation
      required := max obj.durability.minReplicas 1
      state := .known .underReplicated }

def defineObject (f : Fabric β) (kind : EnumValue ObjectKind) (logicalSize : UInt64)
    (content : Bytes) (writer : AuthorityEnvelope) (durability : DurabilityRequirement)
    (restorePriority : EnumValue RestorePriority) : Result ObjectDescriptor × Fabric β :=
  if content.length ≠ logicalSize.toNat then
    (Result.fail .lengthMismatch "content size does not match logical size", f)
  else if logicalSize = 0 then (Result.fail .invalidArgument "zero-length object", f)
  else
    let (id, f) := f.allocObjectId
    let obj := describeObject id kind logicalSize content writer durability restorePriority
      f.policyGeneration
    if obj.id ∈ f.catalog then (Result.fail .duplicateIdentity "duplicate object id", f)
    else
      (.ok obj,
        ({ f with catalog := f.catalog.insert obj.id (newEntry obj) } : Fabric β).account fun a =>
          { a with
            logicalObjects := a.logicalObjects + 1
            logicalBytes := a.logicalBytes + logicalSize })

/-! ### Accessors -/

def objects (f : Fabric β) : List ObjectDescriptor := f.catalog.values.map CatalogEntry.object

def placementRecords (f : Fabric β) : List PlacementRecord := f.placements.values

def replicaSets (f : Fabric β) : List ReplicaSet := f.catalog.values.map CatalogEntry.replicaSet

end Fabric

end StorageFabric
