import StorageFabric.Runtime.Evict

/-!
The operations of the library as the labels of a transition system.

Four operations publish: `publish_to` itself, `publish`, which plans a backend
first, and replication and movement, which publish what they read. `Call` is
the call of `publish_to` that such an operation makes, and `Op.call` finds it,
so that what a publication does is only ever said once.
-/

namespace StorageFabric

/-- The arguments of a call of `publish_to`. -/
structure Call where
  obj : ObjectDescriptor
  content : Bytes
  backend : StorageBackendId
  opts : PublishOptions

inductive Op (β : Type)
  | registerLocalBackend (name : Bytes) (storageClass : EnumValue StorageClass) (be : β)
      (probe : Result BackendCapacity)
  | registerSyntheticBackend (name : Bytes) (profile : SyntheticProfile) (be : β)
  | defineObject (kind : EnumValue ObjectKind) (logicalSize : UInt64) (content : Bytes)
      (writer : AuthorityEnvelope) (durability : DurabilityRequirement)
      (restorePriority : EnumValue RestorePriority)
  | publishTo (obj : ObjectDescriptor) (content : Bytes) (backend : StorageBackendId)
      (opts : PublishOptions)
  | publish (score : PlanRequest → TierCandidate → ℚ) (obj : ObjectDescriptor) (content : Bytes)
      (opts : PublishOptions)
  | replicate (source : PlacementRecord) (target : StorageBackendId) (opts : PublishOptions)
  | move (source : PlacementRecord) (target : StorageBackendId) (opts : PublishOptions)
  | evict (placement : PlacementId)
  | read (object : ObjectId) (placement : Option PlacementId)
  | verify (placement : PlacementId)
  | setAuthority (authority : AuthorityEnvelope)
  | newCoordinatorEpoch

namespace Op

variable {β : Type}

def registers : Op β → Option β
  | .registerLocalBackend _ _ be _ => some be
  | .registerSyntheticBackend _ _ be => some be
  | _ => none

/-- The placement that a movement demotes when it succeeds. -/
def moves : Op β → Option PlacementId
  | .move source _ _ => some source.id
  | _ => none

def eager : Op β → Bool
  | .publishTo _ _ _ opts => opts.eagerVerify
  | .publish _ _ _ opts => opts.eagerVerify
  | .replicate _ _ opts => opts.eagerVerify
  | .move _ _ opts => opts.eagerVerify
  | _ => true

end Op

namespace Fabric

variable {β : Type} [StorageBackend β]

def publishCall (f : Fabric β) (c : Call) : Result PlacementRecord × Fabric β :=
  f.publishTo c.obj c.content c.backend c.opts

def exec (f : Fabric β) : Op β → Fabric β
  | .registerLocalBackend name storageClass be probe =>
      (f.registerLocalBackend name storageClass be probe).2
  | .registerSyntheticBackend name profile be => (f.registerSyntheticBackend name profile be).2
  | .defineObject kind size content writer durability priority =>
      (f.defineObject kind size content writer durability priority).2
  | .publishTo obj content backend opts => (f.publishTo obj content backend opts).2
  | .publish score obj content opts => (f.publish score obj content opts).2
  | .replicate source target opts => (f.replicate source target opts).2
  | .move source target opts => (f.move source target opts).2
  | .evict placement => (f.evict placement).2
  | .read object placement => (f.read object placement).2
  | .verify placement => (f.verify placement).2
  | .setAuthority authority => f.setAuthority authority
  | .newCoordinatorEpoch => f.newCoordinatorEpoch

/-- The call of `publish_to` that a replication makes, and the state it makes
it in; none when the replication stops before. -/
def replicateCall (f : Fabric β) (source : PlacementRecord) (target : StorageBackendId)
    (opts : PublishOptions) : Option (Call × Fabric β) :=
  match f.catalog.lookup source.object with
  | none => none
  | some entry =>
      match f.read source.object (some source.id) with
      | (.error _, _) => none
      | (.ok data, f) => some (⟨entry.object, data, target, replicateOptions source opts⟩, f)

/-- The call of `publish_to` that a planned publication makes. -/
def planCall (score : PlanRequest → TierCandidate → ℚ) (f : Fabric β) (obj : ObjectDescriptor)
    (content : Bytes) (opts : PublishOptions) : Option Call :=
  match f.makePlanRequest obj opts.requiredReplicas with
  | .error _ => none
  | .ok req =>
      let sp := plan (score req) req
      match sp.feasible, sp.selected with
      | true, some best => some ⟨obj, content, best.backend, opts⟩
      | _, _ => none

/-- The call of `publish_to` that an operation makes and the state it makes it
in, which differs from the given one by the accounting of the read. -/
def call (f : Fabric β) : Op β → Option (Call × Fabric β)
  | .publishTo obj content backend opts => some (⟨obj, content, backend, opts⟩, f)
  | .publish score obj content opts => (f.planCall score obj content opts).map fun c => (c, f)
  | .replicate source target opts => f.replicateCall source target opts
  | .move source target opts => f.replicateCall source target opts
  | _ => none

def created (f : Fabric β) (op : Op β) : Option PlacementRecord :=
  match f.call op with
  | none => none
  | some (c, f) => (f.publishCall c).1.toOption

/-- Whether the operation is a movement that succeeds and whose source is, in
the state before it, a placement of the given kind. -/
def demotes (kind : PlacementRecord → Bool) (f : Fabric β) (op : Op β) : Bool :=
  match op.moves with
  | none => false
  | some id => (f.created op).isSome && (f.placements.lookup id).any kind

end Fabric

/-! ### A small store

One in-memory backend, one authority and one object of one byte. Runs that
exhibit a behaviour start here. -/

namespace Small

def object : ObjectDescriptor :=
  Fabric.describeObject ⟨1⟩ (.known .genericAiState) 1 [7] {} {} (.known .normal) default

def opening : List (Op SyntheticBackend) :=
  [.registerSyntheticBackend (ascii "small") {} {},
    .setAuthority { epoch := ⟨1⟩ },
    .defineObject (.known .genericAiState) 1 [7] {} {} (.known .normal)]

/-- A publication of the object on the backend, without reading it back. -/
def publication : Op SyntheticBackend := .publishTo object [7] ⟨1⟩ { eagerVerify := false }

def verified : Op SyntheticBackend := .publishTo object [7] ⟨1⟩ {}

end Small

end StorageFabric
