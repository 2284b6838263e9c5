import Mathlib.Data.List.Nodup
import StorageFabric.Core.Base

/-!
The enumerations of the model.

Every C++ enumeration here has `std::uint8_t` underneath, and some decoders
cast a byte to the enumeration without a range check. A field of enumeration
type can therefore hold a byte that is no enumerator: `EnumValue E` is either
a declared enumerator or such a byte.
-/

namespace StorageFabric

/-- The enumerators of `E` in the order of their values. -/
class Enumerators (E : Type) where
  list : List E
  nodup : list.Nodup
  complete : ∀ e, e ∈ list
  few : list.length ≤ 256

abbrev Enumerators.all (E : Type) [Enumerators E] : List E := list

inductive EnumValue (E : Type) [Enumerators E]
  | known (e : E)
  | undeclared (b : UInt8) (h : (Enumerators.all E).length ≤ b.toNat)
  deriving DecidableEq

namespace EnumValue

variable {E : Type} [Enumerators E]

/-- The value is one of the declared enumerators. -/
def Declared : EnumValue E → Prop
  | known _ => True
  | undeclared _ _ => False

instance (v : EnumValue E) : Decidable v.Declared :=
  match v with
  | known _ => .isTrue trivial
  | undeclared _ _ => .isFalse id

/-- `static_cast<std::uint8_t>(v)`. -/
def toByte [DecidableEq E] : EnumValue E → UInt8
  | known e => UInt8.ofNat ((Enumerators.all E).idxOf e)
  | undeclared b _ => b

/-- `static_cast<E>(b)`. -/
def ofByte (b : UInt8) : EnumValue E :=
  if h : b.toNat < (Enumerators.all E).length then known ((Enumerators.all E).get ⟨b.toNat, h⟩)
  else undeclared b (Nat.le_of_not_lt h)

theorem idxOf_lt [DecidableEq E] (e : E) :
    (Enumerators.all E).idxOf e < (Enumerators.all E).length :=
  List.idxOf_lt_length_of_mem (Enumerators.complete e)

theorem toNat_toByte_known [DecidableEq E] (e : E) :
    (known e : EnumValue E).toByte.toNat = (Enumerators.all E).idxOf e := by
  have hlt := idxOf_lt e
  have hfew : (Enumerators.all E).length ≤ 256 := Enumerators.few
  simp only [toByte, UInt8.toNat_ofNat']
  omega

@[simp] theorem ofByte_toByte [DecidableEq E] (v : EnumValue E) : ofByte v.toByte = v := by
  cases v with
  | known e =>
      have hval := toNat_toByte_known e
      have hlt := idxOf_lt e
      rw [ofByte, dif_pos (by omega)]
      simp only [hval, List.get_eq_getElem, known.injEq]
      exact List.getElem_idxOf hlt
  | undeclared b h => simp [toByte, ofByte, Nat.not_lt.mpr h]

@[simp] theorem toByte_ofByte [DecidableEq E] (b : UInt8) :
    (ofByte b : EnumValue E).toByte = b := by
  by_cases h : b.toNat < (Enumerators.all E).length
  · apply UInt8.toNat_inj.mp
    rw [ofByte, dif_pos h, toNat_toByte_known, List.get_eq_getElem,
      Enumerators.nodup.idxOf_getElem]
  · simp [ofByte, h, toByte]

/-- The declared values are those whose byte is below the number of
enumerators. -/
theorem declared_iff [DecidableEq E] (v : EnumValue E) :
    v.Declared ↔ v.toByte.toNat < (Enumerators.all E).length := by
  cases v with
  | known e => simpa [Declared, toNat_toByte_known] using idxOf_lt e
  | undeclared b h => simpa [Declared, toByte] using h

end EnumValue

inductive ObjectKind
  | modelShard
  | checkpoint
  | tensor
  | kvState
  | prefixState
  | compiledArtifact
  | executionGraph
  | executionPlan
  | adapter
  | datasetShard
  | logicalBlob
  | genericAiState
  deriving DecidableEq

instance : Enumerators ObjectKind where
  list := [.modelShard, .checkpoint, .tensor, .kvState, .prefixState, .compiledArtifact,
    .executionGraph, .executionPlan, .adapter, .datasetShard, .logicalBlob, .genericAiState]
  nodup := by decide
  complete e := by cases e <;> decide
  few := by decide

inductive StorageClass
  | memoryStaging
  | localNvme
  | localFilesystem
  | sharedFilesystem
  | objectStorageClass
  | remoteBlockClass
  | syntheticRemote
  | unknown
  deriving DecidableEq

instance : Enumerators StorageClass where
  list := [.memoryStaging, .localNvme, .localFilesystem, .sharedFilesystem, .objectStorageClass,
    .remoteBlockClass, .syntheticRemote, .unknown]
  nodup := by decide
  complete e := by cases e <;> decide
  few := by decide

inductive MeasurementKind
  | measured
  | reported
  | derived
  | synthetic
  | unknown
  deriving DecidableEq

instance : Enumerators MeasurementKind where
  list := [.measured, .reported, .derived, .synthetic, .unknown]
  nodup := by decide
  complete e := by cases e <;> decide
  few := by decide

inductive Freshness
  | current
  | stale
  | revalidationRequired
  | unknown
  deriving DecidableEq

instance : Enumerators Freshness where
  list := [.current, .stale, .revalidationRequired, .unknown]
  nodup := by decide
  complete e := by cases e <;> decide
  few := by decide

inductive Health
  | healthy
  | degraded
  | unhealthy
  | unavailable
  | unknown
  deriving DecidableEq

instance : Enumerators Health where
  list := [.healthy, .degraded, .unhealthy, .unavailable, .unknown]
  nodup := by decide
  complete e := by cases e <;> decide
  few := by decide

inductive PlacementLifecycle
  | planned
  | reserved
  | writing
  | verifying
  | available
  | degraded
  | stale
  | invalidated
  | evicting
  | evicted
  | failed
  deriving DecidableEq

instance : Enumerators PlacementLifecycle where
  list := [.planned, .reserved, .writing, .verifying, .available, .degraded, .stale, .invalidated,
    .evicting, .evicted, .failed]
  nodup := by decide
  complete e := by cases e <;> decide
  few := by decide

inductive ReplicaState
  | underReplicated
  | healthy
  | degraded
  | rebuilding
  | stale
  | failed
  deriving DecidableEq

instance : Enumerators ReplicaState where
  list := [.underReplicated, .healthy, .degraded, .rebuilding, .stale, .failed]
  nodup := by decide
  complete e := by cases e <;> decide
  few := by decide

inductive RetentionPolicy
  | pinned
  | protectedPolicy
  | ttl
  | lruClass
  | recomputable
  | durabilityRequired
  deriving DecidableEq

instance : Enumerators RetentionPolicy where
  list := [.pinned, .protectedPolicy, .ttl, .lruClass, .recomputable, .durabilityRequired]
  nodup := by decide
  complete e := by cases e <;> decide
  few := by decide

inductive RestorePriority
  | critical
  | high
  | normal
  | low
  | background
  deriving DecidableEq

instance : Enumerators RestorePriority where
  list := [.critical, .high, .normal, .low, .background]
  nodup := by decide
  complete e := by cases e <;> decide
  few := by decide

inductive MovementKind
  | copy
  | promote
  | demote
  | stage
  | restore
  | evict
  | replicate
  | rebuild
  deriving DecidableEq

instance : Enumerators MovementKind where
  list := [.copy, .promote, .demote, .stage, .restore, .evict, .replicate, .rebuild]
  nodup := by decide
  complete e := by cases e <;> decide
  few := by decide

inductive TransferState
  | planned
  | inFlight
  | verifying
  | completed
  | failed
  | cancelled
  | stale
  deriving DecidableEq

instance : Enumerators TransferState where
  list := [.planned, .inFlight, .verifying, .completed, .failed, .cancelled, .stale]
  nodup := by decide
  complete e := by cases e <;> decide
  few := by decide

inductive ReservationState
  | active
  | committed
  | released
  | expired
  deriving DecidableEq

inductive AuthorityOrigin
  | user
  | runner
  | worker
  | coordinator
  | recovery
  | unknown
  deriving DecidableEq

instance : Enumerators AuthorityOrigin where
  list := [.user, .runner, .worker, .coordinator, .recovery, .unknown]
  nodup := by decide
  complete e := by cases e <;> decide
  few := by decide

inductive BackendCapability
  | write
  | read
  | delete
  | enumerate
  | flush
  | atomicRename
  | freeSpaceQuery
  | verify
  | dedupeCapable
  | persistent
  | evictable
  deriving DecidableEq

instance : Enumerators BackendCapability where
  list := [.write, .read, .delete, .enumerate, .flush, .atomicRename, .freeSpaceQuery, .verify,
    .dedupeCapable, .persistent, .evictable]
  nodup := by decide
  complete e := by cases e <;> decide
  few := by decide

inductive TierDurabilityClass
  | ephemeral
  | localTier
  | redundant
  | unknown
  deriving DecidableEq

end StorageFabric
