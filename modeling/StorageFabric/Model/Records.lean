import StorageFabric.Core.Digest
import StorageFabric.Lib.OrderedTable
import StorageFabric.Model.Enums

/-!
The records of the model: authority envelopes, object descriptors, manifests,
placements, replica sets, backends and tiers, and the accounting counters.

Field defaults are the member initialisers of the source. A floating point
observation is kept as its binary64 bit pattern; nothing here computes with
it, and the planner is given its score as a parameter.
-/

namespace StorageFabric

/-! ### Authority -/

/-- Which process incarnation and generation may mutate the store. -/
structure AuthorityEnvelope where
  epoch : CoordinatorEpoch := default
  boot : WorkerBootId := default
  worker : WorkerId := default
  generation : AuthorityGeneration := default
  origin : EnumValue AuthorityOrigin := .known .unknown
  deriving DecidableEq

namespace AuthorityEnvelope

def isNil (a : AuthorityEnvelope) : Bool :=
  a.epoch.isNil && a.boot.isNil && a.worker.isNil && a.generation.isNil

/-- Lexicographic over epoch, boot and generation: negative, zero or positive. -/
def compare (a b : AuthorityEnvelope) : Int :=
  if a.epoch.value ≠ b.epoch.value then
    if a.epoch.value < b.epoch.value then -1 else 1
  else if a.boot.value ≠ b.boot.value then
    if a.boot.value < b.boot.value then -1 else 1
  else if a.generation.value ≠ b.generation.value then
    if a.generation.value < b.generation.value then -1 else 1
  else 0

def isStrictlyNewerThan (a other : AuthorityEnvelope) : Bool := 0 < compare a other

end AuthorityEnvelope

/-! ### Logical objects -/

structure DurabilityRequirement where
  minReplicas : UInt32 := 1
  deriving DecidableEq

structure LocalityPreference where
  preferred : EnumValue StorageClass := .known .unknown
  nodeHint : Bytes := []
  deriving DecidableEq

structure CreationProvenance where
  origin : EnumValue AuthorityOrigin := .known .unknown
  worker : WorkerId := default
  boot : WorkerBootId := default
  authorityGeneration : AuthorityGeneration := default
  creator : Bytes := []
  deriving DecidableEq

instance isTrans_bytes : IsTrans Bytes (· < ·) := inferInstance

/-- `std::map<std::string, std::string>`. -/
abbrev CompatibilityMetadata := OrderedTable Bytes Bytes (· < ·)

structure ObjectDescriptor where
  id : ObjectId := default
  generation : ObjectGeneration := default
  kind : EnumValue ObjectKind := .known .genericAiState
  logicalSize : UInt64 := 0
  digest : ContentDigest := default
  owner : OwnerId := default
  provenance : CreationProvenance := {}
  durability : DurabilityRequirement := {}
  restorePriority : EnumValue RestorePriority := .known .normal
  locality : LocalityPreference := {}
  retention : EnumValue RetentionPolicy := .known .lruClass
  policyGeneration : PolicyGeneration := default
  dependencies : List ObjectId := []
  compatibility : CompatibilityMetadata := OrderedTable.empty
  createdAtMs : Int64 := 0
  deriving DecidableEq

/-! ### Manifests -/

structure ChunkDescriptor where
  id : ChunkId := default
  generation : ChunkGeneration := default
  offset : UInt64 := 0
  logicalLength : UInt64 := 0
  physicalLength : UInt64 := 0
  digest : ContentDigest := default
  blob : BlobId := default
  provenance : EnumValue AuthorityOrigin := .known .unknown
  deriving DecidableEq

structure Manifest where
  id : ManifestId := default
  generation : ManifestGeneration := default
  object : ObjectId := default
  objectGeneration : ObjectGeneration := default
  totalLogicalLength : UInt64 := 0
  manifestDigest : ContentDigest := default
  chunks : List ChunkDescriptor := []
  deriving DecidableEq

/-! ### Placements -/

structure PlacementRecord where
  id : PlacementId := default
  object : ObjectId := default
  objectGeneration : ObjectGeneration := default
  replica : ReplicaId := default
  replicaGeneration : ReplicaGeneration := default
  backend : StorageBackendId := default
  tier : StorageTierId := default
  volume : VolumeId := default
  key : Bytes := []
  manifest : ManifestId := default
  logicalSize : UInt64 := 0
  physicalSize : UInt64 := 0
  digest : ContentDigest := default
  durabilityReplicas : UInt32 := 0
  locality : Bytes := []
  lifecycle : EnumValue PlacementLifecycle := .known .planned
  freshness : EnumValue Freshness := .known .unknown
  authorityGeneration : AuthorityGeneration := default
  provenance : EnumValue AuthorityOrigin := .known .unknown
  writerWorker : WorkerId := default
  writerBoot : WorkerBootId := default
  placementGeneration : PlacementGeneration := default
  createdAtMs : Int64 := 0
  availableAtMs : Int64 := 0
  deriving DecidableEq

/-- The table of the lifecycle: an undeclared value leads nowhere and nothing leads
to one. -/
def canTransition (src dst : EnumValue PlacementLifecycle) : Bool :=
  match src with
  | .known .planned =>
      dst ∈ [.known .reserved, .known .failed, .known .stale, .known .invalidated]
  | .known .reserved =>
      dst ∈ [.known .writing, .known .failed, .known .stale, .known .invalidated]
  | .known .writing =>
      dst ∈ [.known .verifying, .known .failed, .known .stale, .known .invalidated]
  | .known .verifying =>
      dst ∈ [.known .available, .known .failed, .known .stale, .known .invalidated]
  | .known .available =>
      dst ∈ [.known .degraded, .known .stale, .known .invalidated, .known .evicting]
  | .known .degraded =>
      dst ∈ [.known .available, .known .stale, .known .invalidated, .known .evicting,
        .known .failed]
  | .known .stale => dst ∈ [.known .invalidated, .known .evicting, .known .evicted]
  | .known .invalidated => dst ∈ [.known .planned, .known .evicted]
  | .known .evicting => dst ∈ [.known .evicted, .known .stale, .known .failed]
  | .known .evicted => false
  | .known .failed => dst ∈ [.known .stale, .known .invalidated]
  | .undeclared _ _ => false

/-! ### Replica sets -/

structure ReplicaInfo where
  id : ReplicaId := default
  generation : ReplicaGeneration := default
  backend : StorageBackendId := default
  node : StorageNodeId := default
  failureDomain : Bytes := []
  logicalSize : UInt64 := 0
  physicalSize : UInt64 := 0
  state : EnumValue ReplicaState := .known .underReplicated
  placementGeneration : PlacementGeneration := default
  authoritative : Bool := false
  deriving DecidableEq

structure ReplicaSet where
  object : ObjectId := default
  currentGeneration : ObjectGeneration := default
  required : UInt32 := 1
  actual : UInt32 := 0
  state : EnumValue ReplicaState := .known .underReplicated
  distinctFailureDomains : UInt32 := 0
  authoritativeReplicas : UInt32 := 0
  authorityGeneration : AuthorityGeneration := default
  replicas : List ReplicaInfo := []
  updatedAtMs : Int64 := 0
  deriving DecidableEq

namespace ReplicaSet

def meetsDurability (rs : ReplicaSet) : Bool := rs.required ≤ rs.authoritativeReplicas

def computeState (rs : ReplicaSet) : ReplicaState :=
  if rs.meetsDurability && decide (rs.required ≤ rs.distinctFailureDomains) then .healthy
  else if rs.authoritativeReplicas = 0 then .failed
  else if rs.distinctFailureDomains = 0 then .stale
  else .underReplicated

end ReplicaSet

/-! ### Tiers and backends -/

/-- The bits of an IEEE binary64 value. -/
abbrev Double := UInt64

structure TypedObservation (T : Type) where
  value : T
  origin : EnumValue MeasurementKind := .known .unknown
  observedAtMs : UInt64 := 0
  deriving DecidableEq

instance {T : Type} [Inhabited T] : Inhabited (TypedObservation T) := ⟨{ value := default }⟩

structure StorageTier where
  id : StorageTierId := default
  storageClass : EnumValue StorageClass := .known .unknown
  name : Bytes := []
  failureDomain : Bytes := []
  locality : Bytes := []
  concurrency : UInt32 := 1
  durabilityClass : TierDurabilityClass := .unknown
  evictionCapable : Bool := false
  persistent : Bool := false
  nominalCapacityBytes : TypedObservation UInt64 := default
  measuredFreeBytes : TypedObservation UInt64 := default
  writeThroughputBps : TypedObservation Double := default
  readThroughputBps : TypedObservation Double := default
  writeLatencyS : TypedObservation Double := default
  readLatencyS : TypedObservation Double := default
  costClass : Bytes := []
  freshness : EnumValue Freshness := .known .unknown
  health : EnumValue Health := .known .unknown
  deriving DecidableEq

structure BackendCapacity where
  totalBytes : UInt64 := 0
  freeBytes : UInt64 := 0
  reservedBytes : UInt64 := 0
  committedBytes : UInt64 := 0
  reclaimableBytes : UInt64 := 0
  unknown : Bool := false
  deriving DecidableEq

structure BackendDescriptor where
  id : StorageBackendId := default
  tier : StorageTierId := default
  node : StorageNodeId := default
  name : Bytes := []
  generation : BackendGeneration := default
  capacity : BackendCapacity := {}
  capabilities : List (EnumValue BackendCapability) := []
  health : EnumValue Health := .known .unknown
  freshness : EnumValue Freshness := .known .unknown
  provenance : EnumValue MeasurementKind := .known .unknown
  registeredAtMs : Int64 := 0
  deriving DecidableEq

/-! ### Accounting -/

structure AccountingTotals where
  logicalObjects : UInt64 := 0
  logicalBytes : UInt64 := 0
  physicalBlobs : UInt64 := 0
  physicalBytes : UInt64 := 0
  deduplicatedBytes : UInt64 := 0
  chunks : UInt64 := 0
  manifests : UInt64 := 0
  activePlacements : UInt64 := 0
  replicas : UInt64 := 0
  reservedBytes : UInt64 := 0
  committedBytes : UInt64 := 0
  activeWrites : UInt64 := 0
  activeReads : UInt64 := 0
  transferredBytes : UInt64 := 0
  restoredBytes : UInt64 := 0
  evictedBytes : UInt64 := 0
  integrityFailures : UInt64 := 0
  staleRejections : UInt64 := 0
  duplicateRejections : UInt64 := 0
  backendFailures : UInt64 := 0
  participantRestarts : UInt64 := 0
  deriving DecidableEq

end StorageFabric
