import StorageFabric.Core.Planner
import StorageFabric.Runtime.State

/-!
Planning and transactional publication.

`publishTo` is cut at the points where its kind of work changes: the refusals
before anything is touched, the reservation, the loop that stores the chunks,
the verification, the manifest, and the commit that makes the placement
visible. The reservation guard lives from the reservation to the end, so its
destructor runs on every exit after that.
-/

namespace StorageFabric

open StorageBackend

namespace Fabric

variable {β : Type}

/-! ### Planning -/

/-- `at` on a map, which throws for a key that is not there. -/
def mapAt {K V : Type} [DecidableEq K] (t : Table K V) (k : K) : Result V :=
  match t.lookup k with
  | none => Result.fail .internal "unordered_map::at"
  | some v => .ok v

/-- The candidate that a registered backend makes. -/
def tierCandidate (f : Fabric β) (id : StorageBackendId) : Result TierCandidate := do
  let desc ← mapAt f.backendDescriptors id
  let t ← mapAt f.tiers desc.tier
  let probe ← mapAt f.capacityProbe id
  return {
    backend := id
    tier := desc.tier
    storageClass := t.storageClass
    freeBytes := probe.freeBytes
    totalBytes := probe.totalBytes
    capacityUnknown := probe.unknown
    readLatencyS := t.readLatencyS.value
    writeLatencyS := t.writeLatencyS.value
    readBps := t.readThroughputBps.value
    writeBps := t.writeThroughputBps.value
    health := desc.health
    evictionCapable := t.evictionCapable
    persistent := t.persistent
    failureDomain := t.failureDomain
    costClass := t.costClass
    locality := t.locality
    currentPressure := probe.committedBytes
    provenance := desc.provenance }

/-- One backend without a descriptor, a tier or a probe, and there is no request. -/
def makePlanRequest (f : Fabric β) (obj : ObjectDescriptor) (requiredReplicas : UInt32) :
    Result PlanRequest := do
  let candidates ← f.backends.keys.mapM f.tierCandidate
  return {
    object := obj.id
    objectGeneration := obj.generation
    kind := obj.kind
    logicalSize := obj.logicalSize
    requiredReplicas := max requiredReplicas (max obj.durability.minReplicas 1)
    restorePriority := obj.restorePriority
    localityPreference := obj.locality.preferred
    policyGeneration := obj.policyGeneration
    candidates }

/-! ### Reservation -/

def publishAuthority (f : Fabric β) (opts : PublishOptions) : AuthorityEnvelope :=
  if opts.authority.isNil then f.authority else opts.authority

def reserveFor (f : Fabric β) (obj : ObjectDescriptor) (backend : StorageBackendId)
    (opts : PublishOptions) : Result Reservation × ReservationLedger :=
  let auth := f.publishAuthority opts
  f.reservations.reserve backend obj.logicalSize ⟨auth.generation.value⟩ auth.worker
    (ascii "publish " ++ obj.id.str)

/-! ### The chunk loop -/

section Chunks

variable [StorageBackend β]

/-- `be->put(slice, key)` on the backend registered as `id`. -/
def putOn (f : Fabric β) (id : StorageBackendId) (data key : Bytes) : Result UInt64 × Fabric β :=
  match f.backends.lookup id with
  | none => (Result.fail .notFound "backend not registered", f)
  | some be => ((put be data key).1, f.setBackend id (put be data key).2)

/-- The descriptor of the chunk at `offset` with the given contents, in `blob`. -/
def chunkAt (offset : Nat) (slice : Bytes) (blob : BlobId) : ChunkDescriptor where
  id := ⟨offset + 1⟩
  generation := ⟨1⟩
  offset := UInt64.ofNat offset
  logicalLength := UInt64.ofNat slice.length
  physicalLength := UInt64.ofNat slice.length
  digest := ContentDigest.of slice
  blob
  provenance := .known .worker

/-- A chunk found in the dedup index: one more reference to its blob. -/
def reuseBlob (f : Fabric β) (blob : BlobId) (slice : Bytes) : Fabric β :=
  ({ f with blobRefs := RefCount.retain blob f.blobRefs } : Fabric β).account fun a =>
    { a with
      deduplicatedBytes := a.deduplicatedBytes + UInt64.ofNat slice.length
      chunks := a.chunks + 1 }

/-- A chunk that was stored: its blob enters the blob maps. -/
def recordBlob (f : Fabric β) (blob : BlobId) (slice : Bytes) : Fabric β :=
  ({ f with
      blobDigest := f.blobDigest.insert blob (ContentDigest.of slice)
      blobSizes := f.blobSizes.insert blob (UInt64.ofNat slice.length)
      blobRefs := f.blobRefs.insert blob 1
      blobByDigest := f.blobByDigest.insert (ContentDigest.of slice) blob } : Fabric β).account
    fun a =>
      { a with
        physicalBlobs := a.physicalBlobs + 1
        physicalBytes := a.physicalBytes + UInt64.ofNat slice.length
        chunks := a.chunks + 1 }

def chunkStep (backend : StorageBackendId) (dedupe : Bool) (offset : Nat) (slice : Bytes)
    (f : Fabric β) : Result ChunkDescriptor × Fabric β :=
  match if dedupe then f.blobByDigest.lookup (ContentDigest.of slice) else none with
  | some blob => (.ok (chunkAt offset slice blob), f.reuseBlob blob slice)
  | none =>
      let (blob, f) := f.allocBlobId
      match f.putOn backend slice (blobKey blob) with
      | (.error s, f) => (.error s, f)
      | (.ok _, f) => (.ok (chunkAt offset slice blob), f.recordBlob blob slice)

/-- The loop over what is left of the content, `rest` starting at `offset`;
`chunk` is the chunk length. After `turns` turns it stops wherever it is; a
positive chunk length never needs more turns than there are bytes. -/
def chunkLoop (backend : StorageBackendId) (dedupe : Bool) (chunk : Nat) :
    Nat → Nat → Bytes → Fabric β → Result (List ChunkDescriptor) × Fabric β
  | 0, _, _, f => (.ok [], f)
  | turns + 1, offset, rest, f =>
      if rest = [] then (.ok [], f)
      else
        match chunkStep backend dedupe offset (rest.take chunk) f with
        | (.error s, f) => (.error s, f)
        | (.ok c, f) =>
            match chunkLoop backend dedupe chunk turns (offset + (rest.take chunk).length)
              (rest.drop chunk) f with
            | (.error s, f) => (.error s, f)
            | (.ok cs, f) => (.ok (c :: cs), f)

/-- The eager verification: every chunk is read back and its digest compared. -/
def verifyChunks (f : Fabric β) (backend : StorageBackendId) : List ChunkDescriptor → Result Unit
  | [] => .ok ()
  | c :: cs =>
      match f.getBackend backend with
      | .error s => .error s
      | .ok be =>
          match StorageBackend.read be (blobKey c.blob) with
          | .error _ => Result.fail .integrityMismatch "verify read failed"
          | .ok data =>
              if ContentDigest.of data ≠ c.digest then
                Result.fail .digestMismatch "chunk digest mismatch after write"
              else f.verifyChunks backend cs

end Chunks

/-! ### Publication -/

def buildManifest (id : ManifestId) (obj : ObjectDescriptor) (chunks : List ChunkDescriptor) :
    Manifest :=
  let man : Manifest :=
    { id
      generation := ⟨1⟩
      object := obj.id
      objectGeneration := obj.generation
      totalLogicalLength := obj.logicalSize
      chunks }
  { man.sortChunks with manifestDigest := computeManifestDigest man.sortChunks }

def publishDurability (obj : ObjectDescriptor) (opts : PublishOptions) : UInt32 :=
  max opts.requiredReplicas (max obj.durability.minReplicas 1)

def buildPlacement (id : PlacementId) (replica : ReplicaId) (obj : ObjectDescriptor)
    (desc : BackendDescriptor) (t : StorageTier) (backend : StorageBackendId)
    (manifest : ManifestId) (auth : AuthorityEnvelope) (opts : PublishOptions) :
    PlacementRecord where
  id
  object := obj.id
  objectGeneration := obj.generation
  replica
  replicaGeneration := ⟨1⟩
  backend
  tier := desc.tier
  volume := ⟨1⟩
  key := placementKey id
  manifest
  logicalSize := obj.logicalSize
  physicalSize := obj.logicalSize
  digest := obj.digest
  durabilityReplicas := publishDurability obj opts
  locality := t.locality
  lifecycle := .known .available
  freshness := .known .current
  authorityGeneration := auth.generation
  provenance := .known .worker
  writerWorker := auth.worker
  writerBoot := auth.boot
  placementGeneration := ⟨1⟩

def replicaOf (p : PlacementRecord) (desc : BackendDescriptor) (t : StorageTier) : ReplicaInfo where
  id := p.replica
  generation := p.replicaGeneration
  backend := p.backend
  node := desc.node
  failureDomain := t.failureDomain
  logicalSize := p.logicalSize
  physicalSize := p.physicalSize
  state := .known .healthy
  placementGeneration := p.placementGeneration
  authoritative := true

/-- The catalog entry after the placement `p` of the manifest `man` joined it. -/
def attachPlacement (man : Manifest) (p : PlacementRecord) (r : ReplicaInfo)
    (auth : AuthorityEnvelope) (entry : CatalogEntry) : CatalogEntry :=
  let rs := entry.replicaSet
  let replicas := if rs.replicas.any fun rp => rp.id = p.replica then rs.replicas
    else rs.replicas ++ [r]
  let rs := { rs with replicas }.recount
  let rs := { rs with required := max rs.required p.durabilityReplicas }.refreshState
  { entry with
    placements := entry.placements ++ [p.id]
    manifest := man
    replicaSet := { rs with authorityGeneration := auth.generation, updatedAtMs := 0 } }

/-- The last part of `publish_to`: the placement record, the commit of the
reservation and the catalog entry. -/
def commitPlacement (f : Fabric β) (guard : ReservationGuard) (obj : ObjectDescriptor)
    (backend : StorageBackendId) (auth : AuthorityEnvelope) (opts : PublishOptions)
    (man : Manifest) : Result PlacementRecord × ReservationGuard × Fabric β :=
  let (id, f) := f.allocPlacementId
  let (replica, f) := f.allocReplicaId
  match f.backendDescriptors.lookup backend with
  | none => (Result.fail .internal "unordered_map::at", guard, f)
  | some desc =>
      match f.tiers.lookup desc.tier with
      | none => (Result.fail .internal "unordered_map::at", guard, f)
      | some t =>
          let p := buildPlacement id replica obj desc t backend man.id auth opts
          if id ∈ f.placements then
            (Result.fail .duplicateIdentity "duplicate placement id", guard, f)
          else
            let (committed, guard, ledger) := guard.commit f.reservations id
            let f := { f with reservations := ledger }
            if !committed.isOk then
              (Result.failure .negativeAccounting
                (ascii "reservation commit failed: " ++ committed.message), guard, f)
            else
              let f := f.account fun a =>
                { a with
                  committedBytes := a.committedBytes + 1
                  reservedBytes := a.reservedBytes - 1 }
              match f.catalog.lookup obj.id with
              | none => (Result.fail .notFound "object not in catalog", guard, f)
              | some _ =>
                  (.ok p, guard,
                    ({ f with
                        catalog := f.catalog.modify obj.id
                          (attachPlacement man p (replicaOf p desc t) auth)
                        placements := f.placements.insert id p } : Fabric β).account fun a =>
                      { a with
                        replicas := a.replicas + 1
                        activePlacements := a.activePlacements + 1 })

def addManifest (f : Fabric β) (man : Manifest) : Fabric β :=
  ({ f with manifests := f.manifests.insert man.id man } : Fabric β).account fun a =>
    { a with manifests := a.manifests + 1 }

/-- The chunk length of a publication: one chunk for everything unless the
options say otherwise. -/
def chunkLength (obj : ObjectDescriptor) (opts : PublishOptions) : Nat :=
  (if opts.chunkSize = 0 then obj.logicalSize else opts.chunkSize).toNat

/-- `publish_to` from the reservation on, with the guard as it is left. -/
def publishReserved [StorageBackend β] (f : Fabric β) (guard : ReservationGuard)
    (obj : ObjectDescriptor) (content : Bytes) (backend : StorageBackendId)
    (auth : AuthorityEnvelope) (opts : PublishOptions) :
    Result PlacementRecord × ReservationGuard × Fabric β :=
  let (manifestId, f) := f.allocManifestId
  match chunkLoop backend opts.dedupe (chunkLength obj opts) content.length 0 content f with
  | (.error s, f) => (.error s, guard, f)
  | (.ok chunks, f) =>
      match if opts.eagerVerify then f.verifyChunks backend chunks else .ok () with
      | .error s => (.error s, guard, f)
      | .ok () =>
          let man := buildManifest manifestId obj chunks
          match man.validate with
          | .error s => (.error s, guard, f)
          | .ok () =>
              if man.id ∈ f.manifests then
                (Result.fail .duplicateIdentity "duplicate manifest id", guard, f)
              else
                (f.addManifest man).commitPlacement guard obj backend auth opts man

def staleMessage (auth live : AuthorityEnvelope) : Bytes :=
  ascii "stale authority (epoch=" ++ auth.epoch.str ++ ascii " boot=" ++ auth.boot.str ++
    ascii " gen=" ++ auth.generation.str ++ ascii ") is not authoritative over epoch=" ++
    live.epoch.str ++ ascii " boot=" ++ live.boot.str

/-- A mutation under an authority strictly older than the live one. -/
def isFenced (f : Fabric β) (opts : PublishOptions) : Bool :=
  !opts.authority.isNil && decide (AuthorityEnvelope.compare opts.authority f.authority < 0)

def publishTo [StorageBackend β] (f : Fabric β) (obj : ObjectDescriptor) (content : Bytes)
    (backend : StorageBackendId) (opts : PublishOptions) : Result PlacementRecord × Fabric β :=
  let auth := f.publishAuthority opts
  if content.length ≠ obj.logicalSize.toNat then
    (Result.fail .lengthMismatch "content size mismatch", f)
  else if auth.isNil then (Result.fail .invalidArgument "no authority set", f)
  else if f.isFenced opts then
    (Result.failure .staleAuthority (staleMessage auth f.authority),
      f.account fun a => { a with staleRejections := a.staleRejections + 1 })
  else
    match f.getBackend backend with
    | .error s => (.error s, f)
    | .ok _ =>
        match f.reserveFor obj backend opts with
        | (.error s, ledger) => (.error s, { f with reservations := ledger })
        | (.ok res, ledger) =>
            let f := ({ f with reservations := ledger } : Fabric β).account fun a =>
              { a with reservedBytes := a.reservedBytes + 1 }
            let (r, guard, f) := f.publishReserved { res } obj content backend auth opts
            (r, { f with reservations := guard.destroy f.reservations })

def publish [StorageBackend β] (score : PlanRequest → TierCandidate → ℚ) (f : Fabric β)
    (obj : ObjectDescriptor) (content : Bytes) (opts : PublishOptions) :
    Result PlacementRecord × Fabric β :=
  match f.makePlanRequest obj opts.requiredReplicas with
  | .error s => (.error s, f)
  | .ok req =>
      let sp := plan (score req) req
      match sp.feasible, sp.selected with
      | true, some best => f.publishTo obj content best.backend opts
      | _, _ =>
          (Result.failure .insufficientCapacity
            (sp.notes.head?.getD (ascii "no feasible placement")), f)

end Fabric

end StorageFabric
