import StorageFabric.Lib.Table
import StorageFabric.Model.Records
import StorageFabric.Storage.Backend

/-!
The synthetic backend: an in-memory store with a capacity ceiling that can be
marked degraded or unavailable.
-/

namespace StorageFabric

structure SyntheticProfile where
  storageClass : EnumValue StorageClass := .known .syntheticRemote
  totalBytes : UInt64 := 1024 * 1024 * 1024
  freeBytes : UInt64 := 1024 * 1024 * 1024
  /-- `0.001` -/
  readLatencyS : Double := 0x3F50624DD2F1A9FC
  writeLatencyS : Double := 0x3F50624DD2F1A9FC
  /-- `100.0 * 1024 * 1024` -/
  readBps : Double := 0x4199000000000000
  /-- `50.0 * 1024 * 1024` -/
  writeBps : Double := 0x4189000000000000
  health : EnumValue Health := .known .healthy
  degraded : Bool := false
  unavailable : Bool := false
  evictable : Bool := true
  persistent : Bool := false
  failureDomain : Bytes := ascii "synthetic-node"
  costClass : Bytes := ascii "synthetic-remote"
  locality : Bytes := ascii "synthetic"
  generation : BackendGeneration := default
  freshness : EnumValue Freshness := .known .current
  deriving DecidableEq

structure SyntheticBackend where
  profile : SyntheticProfile := {}
  store : Table Bytes Bytes := ∅
  usedBytes : UInt64 := 0
  deriving DecidableEq

namespace SyntheticBackend

/-- `ensure_available(op)`, where a degraded backend still serves reads. -/
def ensureAvailable (b : SyntheticBackend) (op : String) : Status :=
  if b.profile.unavailable then
    ⟨.backendUnavailable, ascii op ++ ascii " rejected: synthetic backend unavailable"⟩
  else if b.profile.degraded && op ≠ "read" then
    ⟨.backendDegraded, ascii op ++ ascii " rejected: synthetic backend degraded"⟩
  else .okStatus

/-- The bytes that a put to `key` replaces. -/
def storedSize (b : SyntheticBackend) (key : Bytes) : UInt64 :=
  match b.store.lookup key with
  | none => 0
  | some v => UInt64.ofNat v.length

def put (b : SyntheticBackend) (data key : Bytes) : Result UInt64 × SyntheticBackend :=
  let s := b.ensureAvailable "write"
  if !s.isOk then (.error s, b)
  else
    let net := UInt64.ofNat data.length - b.storedSize key
    if b.profile.totalBytes < b.usedBytes + net then
      (Result.fail .insufficientCapacity "synthetic capacity exhausted", b)
    else
      (.ok (UInt64.ofNat data.length),
        { b with store := b.store.insert key data, usedBytes := b.usedBytes + net })

def read (b : SyntheticBackend) (key : Bytes) : Result Bytes :=
  let s := b.ensureAvailable "read"
  if !s.isOk then .error s
  else
    match b.store.lookup key with
    | none => Result.fail .notFound "key not present in synthetic backend"
    | some v => .ok v

def remove (b : SyntheticBackend) (key : Bytes) : Status × SyntheticBackend :=
  let s := b.ensureAvailable "delete"
  if !s.isOk then (s, b)
  else
    match b.store.lookup key with
    | none => (.okStatus, b)
    | some v =>
        (.okStatus,
          { b with store := b.store.erase key, usedBytes := b.usedBytes - UInt64.ofNat v.length })

def setHealth (b : SyntheticBackend) (h : EnumValue Health) (degraded unavailable : Bool) :
    SyntheticBackend :=
  { b with profile := { b.profile with health := h, degraded, unavailable } }

theorem store_put_of_ok {b : SyntheticBackend} {data key : Bytes} {n : UInt64}
    (h : (b.put data key).1 = .ok n) : (b.put data key).2.store = b.store.insert key data := by
  unfold put at h ⊢
  by_cases hs : (!(b.ensureAvailable "write").isOk) = true
  · simp [hs] at h
  · by_cases hcap : b.profile.totalBytes <
      b.usedBytes + (UInt64.ofNat data.length - b.storedSize key)
    · simp [hs, hcap, Result.fail] at h
    · simp [hs, hcap]

theorem store_put_of_error {b : SyntheticBackend} {data key : Bytes} {e : Status}
    (h : (b.put data key).1 = .error e) : (b.put data key).2.store = b.store := by
  unfold put at h ⊢
  by_cases hs : (!(b.ensureAvailable "write").isOk) = true
  · simp [hs]
  · by_cases hcap : b.profile.totalBytes <
      b.usedBytes + (UInt64.ofNat data.length - b.storedSize key)
    · simp [hs, hcap]
    · simp [hs, hcap] at h

theorem lookup_of_read {b : SyntheticBackend} {key data : Bytes} (h : b.read key = .ok data) :
    b.store.lookup key = some data := by
  unfold read at h
  by_cases hs : (!(b.ensureAvailable "read").isOk) = true
  · simp [hs] at h
  · cases hv : b.store.lookup key with
    | none => simp [hs, hv, Result.fail] at h
    | some v => simpa [hs, hv] using h

theorem store_remove (b : SyntheticBackend) (key k : Bytes) :
    (b.remove key).2.store.lookup k =
      if (b.remove key).1.isOk then (if k = key then none else b.store.lookup k)
      else b.store.lookup k := by
  unfold remove
  by_cases hs : (!(b.ensureAvailable "delete").isOk) = true
  · have hfail : (b.ensureAvailable "delete").isOk = false := by simpa using hs
    simp [hfail]
  · cases hv : b.store.lookup key with
    | none =>
        by_cases hk : k = key
        · subst hk; simp [hs, hv]
        · simp [hs, hk]
    | some v => simp [hs, AList.lookup_erase_eq]

/-- The synthetic backend is a key-value map over its store. -/
instance : KeyValueBackend SyntheticBackend where
  put := put
  read := read
  remove := remove
  view b key := b.store.lookup key
  put_ok h k := by rw [store_put_of_ok h, AList.lookup_insert_eq]
  put_error h k := by rw [store_put_of_error h]
  read_ok h := lookup_of_read h
  remove_ok {b key} h k := by rw [store_remove, if_pos h]
  remove_error {b key} h k := by rw [store_remove, if_neg (by simp [h])]

theorem readable_of_available {b : SyntheticBackend} (h : b.profile.unavailable = false) :
    KeyValueBackend.Readable b := by
  intro key data hview
  have hlookup : b.store.lookup key = some data := hview
  change b.read key = .ok data
  simp [read, ensureAvailable, h, hlookup]

end SyntheticBackend

end StorageFabric
