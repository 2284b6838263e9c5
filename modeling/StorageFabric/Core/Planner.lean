import Mathlib.Data.List.Sort
import StorageFabric.Model.Records

/-!
The placement planner: hard constraints, ranking, selection and replica
targets.

The score of a candidate is a sum of floating point factors, each clamped to
an interval. The planner only ever compares two scores, so it is given the
score as a function into a linear order; of the named factors that make it up
the model has all but their values.
-/

namespace StorageFabric

structure TierCandidate where
  backend : StorageBackendId := default
  tier : StorageTierId := default
  storageClass : EnumValue StorageClass := .known .unknown
  freeBytes : UInt64 := 0
  totalBytes : UInt64 := 0
  capacityUnknown : Bool := true
  readLatencyS : Double := 0x7FF8000000000000
  writeLatencyS : Double := 0x7FF8000000000000
  readBps : Double := 0x7FF8000000000000
  writeBps : Double := 0x7FF8000000000000
  health : EnumValue Health := .known .unknown
  evictionCapable : Bool := false
  persistent : Bool := false
  failureDomain : Bytes := []
  costClass : Bytes := []
  locality : Bytes := []
  currentPressure : UInt64 := 0
  provenance : EnumValue MeasurementKind := .known .unknown
  deriving DecidableEq

inductive PlannerConstraint
  | none
  | durabilityUnavailable
  | insufficientCapacity
  | backendUnavailable
  | objectTooLarge
  | unsupportedObjectClass
  | failureDomainDiversityImpossible
  deriving DecidableEq

def PlannerConstraint.toString : PlannerConstraint → Bytes
  | .none => ascii "NONE"
  | .durabilityUnavailable => ascii "DURABILITY_UNAVAILABLE"
  | .insufficientCapacity => ascii "INSUFFICIENT_CAPACITY"
  | .backendUnavailable => ascii "BACKEND_UNAVAILABLE"
  | .objectTooLarge => ascii "OBJECT_TOO_LARGE"
  | .unsupportedObjectClass => ascii "UNSUPPORTED_OBJECT_CLASS"
  | .failureDomainDiversityImpossible => ascii "FAILURE_DOMAIN_DIVERSITY_IMPOSSIBLE"

inductive PlanConstraintKind
  | hard
  | soft
  deriving DecidableEq

/-- `PlanFactorOrigin` has the enumerators of `MeasurementKind`, from which it is cast. -/
abbrev PlanFactorOrigin := EnumValue MeasurementKind

/-- A named factor, but for its value. -/
structure PlanFactor where
  name : Bytes
  weight : Double
  kind : PlanConstraintKind := .soft
  origin : PlanFactorOrigin
  evidence : Bytes
  deriving DecidableEq

structure PlacementCandidate (S : Type) where
  backend : StorageBackendId
  tier : StorageTierId
  score : S
  viable : Bool
  constraint : PlannerConstraint
  factors : List PlanFactor
  hardViolations : List Bytes
  deriving DecidableEq

structure ReplicaPlan where
  backend : StorageBackendId
  tier : StorageTierId
  failureDomain : Bytes
  deriving DecidableEq

structure StoragePlan (S : Type) where
  object : ObjectId
  objectGeneration : ObjectGeneration
  feasible : Bool
  ranked : List (PlacementCandidate S)
  selected : Option (PlacementCandidate S)
  replicaTargets : List ReplicaPlan
  notes : List Bytes
  policyGeneration : PolicyGeneration
  deriving DecidableEq

structure PlanRequest where
  object : ObjectId := default
  objectGeneration : ObjectGeneration := default
  kind : EnumValue ObjectKind := .known .genericAiState
  logicalSize : UInt64 := 0
  requiredReplicas : UInt32 := 1
  restorePriority : EnumValue RestorePriority := .known .normal
  localityPreference : EnumValue StorageClass := .known .unknown
  localityHint : Bytes := []
  policyGeneration : PolicyGeneration := default
  candidates : List TierCandidate := []
  /-- `0` means no limit. -/
  maxObjectBytes : UInt64 := 0
  deriving DecidableEq

namespace Planner

def isAvailable (c : TierCandidate) : Bool :=
  c.health = .known .healthy || c.health = .known .degraded

def capacityOk (c : TierCandidate) (size : UInt64) : Bool :=
  c.capacityUnknown || decide (size ≤ c.freeBytes)

/-- The first hard constraint that `c` violates; `none` for a viable candidate. -/
def violated (req : PlanRequest) (c : TierCandidate) : PlannerConstraint :=
  if !isAvailable c then .backendUnavailable
  else if req.maxObjectBytes ≠ 0 ∧ req.maxObjectBytes < req.logicalSize then .objectTooLarge
  else if !capacityOk c req.logicalSize then .insufficientCapacity
  else if 1 < req.requiredReplicas ∧ !c.persistent then .durabilityUnavailable
  else .none

def healthName : EnumValue Health → Bytes
  | .known .healthy => ascii "HEALTHY"
  | .known .degraded => ascii "DEGRADED"
  | .known .unhealthy => ascii "UNHEALTHY"
  | .known .unavailable => ascii "UNAVAILABLE"
  | .known .unknown => ascii "UNKNOWN"
  | .undeclared _ _ => ascii "Unknown"

/-- The texts of the violated constraints. Only the first one is ever noted, and the
note on a degraded backend is overwritten by them. -/
def hardViolations (req : PlanRequest) (c : TierCandidate) : List Bytes :=
  match violated req c with
  | .backendUnavailable => [ascii "backend unavailable (" ++ healthName c.health ++ ascii ")"]
  | .objectTooLarge => [ascii "object exceeds backend max object size"]
  | .insufficientCapacity => [ascii "insufficient capacity"]
  | .durabilityUnavailable => [ascii "tier not persistent for multi-replica durability"]
  | _ => []

/-- The factors of the score, with their weights of 0.25, 0.25, 0.20, 0.15 and 0.15. -/
def factors (c : TierCandidate) : List PlanFactor :=
  [{ name := ascii "locality", weight := 0x3FD0000000000000, origin := c.provenance
     evidence := ascii "storage class matches locality preference" },
    { name := ascii "read_latency", weight := 0x3FD0000000000000, origin := c.provenance
      evidence := ascii "measured/synthetic read latency" },
    { name := ascii "write_bandwidth", weight := 0x3FC999999999999A, origin := c.provenance
      evidence := ascii "write throughput" },
    { name := ascii "cost", weight := 0x3FC3333333333333, origin := .known .derived
      evidence := ascii "cost class" },
    { name := ascii "headroom", weight := 0x3FC3333333333333, origin := c.provenance
      evidence := ascii "free capacity ratio" }]

variable {S : Type} [LinearOrder S]

def evaluate (score : TierCandidate → S) (req : PlanRequest) (c : TierCandidate) :
    PlacementCandidate S where
  backend := c.backend
  tier := c.tier
  score := score c
  viable := violated req c = .none
  constraint := violated req c
  factors := factors c
  hardViolations := hardViolations req c

/-- The comparison of `stable_sort`: whether `b` is not strictly before `a`. -/
def rankLe (a b : PlacementCandidate S) : Prop :=
  if a.viable ≠ b.viable then a.viable = true
  else if a.score ≠ b.score then b.score < a.score
  else a.backend.value ≤ b.backend.value

instance : DecidableRel (rankLe (S := S)) := fun a b => by
  unfold rankLe
  infer_instance

/-- The loop that picks replica targets, one failure domain at a time. -/
def replicaTargets (required : UInt32) :
    List Bytes → List ReplicaPlan → List TierCandidate → List ReplicaPlan
  | _, targets, [] => targets
  | domains, targets, c :: cs =>
      if c.health ≠ .known .healthy ∧ c.health ≠ .known .degraded then
        replicaTargets required domains targets cs
      else
        let fresh := decide (c.failureDomain ∉ domains)
        let domains := if fresh then c.failureDomain :: domains else domains
        let targets := if fresh then targets ++ [⟨c.backend, c.tier, c.failureDomain⟩] else targets
        if required.toNat ≤ targets.length then targets
        else replicaTargets required domains targets cs

end Planner

open Planner in
def plan {S : Type} [LinearOrder S] (score : TierCandidate → S) (req : PlanRequest) :
    StoragePlan S :=
  let refusal :=
    if req.kind = .known .genericAiState ∧ req.logicalSize = 0 then
      [ascii "refusing to plan unsupported zero-size generic object"] else []
  let ranked := (req.candidates.map (evaluate score req)).insertionSort rankLe
  let feasible := req.candidates.any fun c => violated req c = .none
  let targets :=
    if feasible ∧ 1 < req.requiredReplicas then
      replicaTargets req.requiredReplicas [] [] req.candidates else []
  { object := req.object
    objectGeneration := req.objectGeneration
    feasible
    ranked
    selected := if feasible then ranked.head? else none
    replicaTargets := targets
    notes := refusal ++
      (match feasible, ranked with
        | false, best :: _ => [ascii "no viable candidate; best is '" ++
            best.constraint.toString ++ ascii "'"]
        | _, _ => []) ++
      (if feasible ∧ 1 < req.requiredReplicas ∧ targets.length < req.requiredReplicas.toNat then
        [ascii "cannot satisfy required failure-domain diversity; target count=" ++
          decimal targets.length] else [])
    policyGeneration := req.policyGeneration }

end StorageFabric
