import StorageFabric.Lib.Table
import StorageFabric.Model.Records

/-!
The reservation ledger and the reservation guard.

Every operation returns its status together with the ledger it leaves. All
sums of bytes are on 64 bits, as in the source.
-/

namespace StorageFabric

structure Reservation where
  id : ReservationId := default
  generation : ReservationGeneration := default
  backend : StorageBackendId := default
  bytes : UInt64 := 0
  state : ReservationState := .active
  owner : WorkerId := default
  reason : Bytes := []
  createdAtMs : Int64 := 0
  boundPlacement : PlacementId := default
  committed : Bool := false
  deriving DecidableEq

structure ReservationLedger where
  /-- The capacity of each `PerBackend`. -/
  backends : Table StorageBackendId BackendCapacity := ∅
  reservations : Table ReservationId Reservation := ∅
  overcommitAllowance : UInt64 := 0
  totalReserved : UInt64 := 0
  totalCommitted : UInt64 := 0
  nextReservationId : ReservationId := ⟨1⟩
  deriving DecidableEq

namespace ReservationLedger

def registerBackend (l : ReservationLedger) (backend : StorageBackendId) (cap : BackendCapacity) :
    ReservationLedger :=
  { l with backends := l.backends.insert backend cap }

def refreshFree (l : ReservationLedger) (backend : StorageBackendId) (freeBytes : UInt64) :
    ReservationLedger :=
  { l with backends := l.backends.modify backend fun c => { c with freeBytes } }

/-- The room that `reserve` admits into. -/
def headroom (l : ReservationLedger) (c : BackendCapacity) : UInt64 :=
  let occupancy := c.reservedBytes + c.committedBytes
  if occupancy < c.freeBytes + l.overcommitAllowance then
    c.freeBytes + l.overcommitAllowance - occupancy
  else 0

def reserve (l : ReservationLedger) (backend : StorageBackendId) (bytes : UInt64)
    (gen : ReservationGeneration) (owner : WorkerId) (reason : Bytes) :
    Result Reservation × ReservationLedger :=
  match l.backends.lookup backend with
  | none => (Result.fail .notFound "backend not registered in ledger", l)
  | some c =>
      if bytes = 0 then (Result.fail .invalidArgument "zero-byte reservation", l)
      else if l.headroom c < bytes then
        (Result.fail .insufficientCapacity "reservation would overcommit capacity", l)
      else
        let res : Reservation :=
          { id := l.nextReservationId, generation := gen, backend, bytes, owner, reason }
        let l := { l with nextReservationId := l.nextReservationId.next }
        if res.id ∈ l.reservations then
          (Result.fail .duplicateReservation "duplicate reservation id", l)
        else
          (.ok res,
            { l with
              reservations := l.reservations.insert res.id res
              backends := l.backends.modify backend fun c =>
                { c with reservedBytes := c.reservedBytes + bytes }
              totalReserved := l.totalReserved + bytes })

/-- The reasons for which `reserve` turns a request down. -/
def Refuses (l : ReservationLedger) (backend : StorageBackendId) (bytes : UInt64) : Prop :=
  match l.backends.lookup backend with
  | none => True
  | some c => bytes = 0 ∨ l.headroom c < bytes ∨ l.nextReservationId ∈ l.reservations

instance (l : ReservationLedger) (backend : StorageBackendId) (bytes : UInt64) :
    Decidable (l.Refuses backend bytes) := by
  unfold Refuses
  cases l.backends.lookup backend <;> infer_instance

theorem reserve_error_iff {l : ReservationLedger} {backend : StorageBackendId} {bytes : UInt64}
    {gen : ReservationGeneration} {owner : WorkerId} {reason : Bytes} :
    (∃ s, (l.reserve backend bytes gen owner reason).1 = .error s) ↔ l.Refuses backend bytes := by
  unfold reserve Refuses
  cases hbackend : l.backends.lookup backend with
  | none => simp [Result.fail]
  | some c =>
      by_cases hzero : bytes = 0
      · simp [hzero, Result.fail]
      · by_cases hroom : l.headroom c < bytes
        · simp [hzero, hroom, Result.fail]
        · by_cases hid : l.nextReservationId ∈ l.reservations
          · simp [hzero, hroom, hid, Result.fail]
          · simp [hzero, hroom, hid]

def commit (l : ReservationLedger) (id : ReservationId) (placement : PlacementId) :
    Status × ReservationLedger :=
  match l.reservations.lookup id with
  | none => (.of .notFound "reservation not found", l)
  | some res =>
      if res.state ≠ .active then
        (.of .invalidState "reservation is not active; cannot commit", l)
      else
        match l.backends.lookup res.backend with
        | none => (.of .notFound "backend not registered", l)
        | some c =>
            if c.reservedBytes < res.bytes then
              (.of .negativeAccounting "reserved accounting underflow", l)
            else
              (.okStatus,
                { l with
                  backends := l.backends.modify res.backend fun c =>
                    { c with
                      reservedBytes := c.reservedBytes - res.bytes
                      committedBytes := c.committedBytes + res.bytes }
                  totalReserved := l.totalReserved - res.bytes
                  totalCommitted := l.totalCommitted + res.bytes
                  reservations := l.reservations.modify id fun r =>
                    { r with state := .committed, committed := true, boundPlacement := placement } })

/-- Reservation ids are drawn in increasing order. -/
def Fresh (l : ReservationLedger) : Prop :=
  ∀ id, id ∈ l.reservations → id.value < l.nextReservationId.value

theorem commit_reserve {l l' : ReservationLedger} {backend : StorageBackendId} {bytes : UInt64}
    {gen : ReservationGeneration} {owner : WorkerId} {reason : Bytes} {res : Reservation}
    {c : BackendCapacity} (hl : l.Fresh) (hc : l.backends.lookup backend = some c)
    (hfit : ¬c.reservedBytes + bytes < bytes)
    (h : l.reserve backend bytes gen owner reason = (.ok res, l')) (placement : PlacementId) :
    (l'.commit res.id placement).1.isOk = true ∧
      (l'.commit res.id placement).2.Fresh ∧
      (l'.commit res.id placement).2.overcommitAllowance = l.overcommitAllowance ∧
      (l'.commit res.id placement).2.backends.lookup backend =
        some { c with
          reservedBytes := c.reservedBytes + bytes - bytes
          committedBytes := c.committedBytes + bytes } := by
  unfold reserve at h
  simp only [hc] at h
  split at h
  · cases h
  · split at h
    · cases h
    · split at h
      · cases h
      · cases h
        -- the sum did not wrap, so the commit finds all of the reserved bytes
        have hcap : (l.backends.modify backend fun c =>
            { c with reservedBytes := c.reservedBytes + bytes }).lookup backend =
              some { c with reservedBytes := c.reservedBytes + bytes } := by
          simp [hc]
        simp only [commit, AList.lookup_insert, hcap, ne_eq, not_true_eq_false, if_false, hfit]
        refine ⟨rfl, ?_, trivial, ?_⟩
        · intro id hid
          rw [AList.mem_modify, AList.mem_insert] at hid
          rcases hid with rfl | hid
          · exact Nat.lt_succ_self _
          · exact Nat.lt_succ_of_lt (hl id hid)
        · simp [hc]

def release (l : ReservationLedger) (id : ReservationId) (gen : ReservationGeneration) :
    Status × ReservationLedger :=
  match l.reservations.lookup id with
  | none => (.of .staleReservation "unknown reservation (already released or stale)", l)
  | some res =>
      if res.state = .released ∨ res.state = .expired then
        (.of .duplicateReservation "double release of reservation", l)
      else if gen.value ≠ res.generation.value then
        (.of .staleReservation "stale reservation generation", l)
      else if res.committed then
        (.of .invalidState "reservation already committed; cannot release", l)
      else
        match l.backends.lookup res.backend with
        | none => (.of .notFound "backend not registered", l)
        | some c =>
            if c.reservedBytes < res.bytes then
              (.of .negativeAccounting "reserved accounting underflow", l)
            else
              (.okStatus,
                { l with
                  backends := l.backends.modify res.backend fun c =>
                    { c with reservedBytes := c.reservedBytes - res.bytes }
                  totalReserved := l.totalReserved - res.bytes
                  reservations := l.reservations.modify id fun r => { r with state := .released } })

def addCommitted (l : ReservationLedger) (backend : StorageBackendId) (bytes : UInt64) :
    Status × ReservationLedger :=
  match l.backends.lookup backend with
  | none => (.of .notFound "backend not registered", l)
  | some _ =>
      (.okStatus,
        { l with
          backends := l.backends.modify backend fun c =>
            { c with committedBytes := c.committedBytes + bytes }
          totalCommitted := l.totalCommitted + bytes })

def removeCommitted (l : ReservationLedger) (backend : StorageBackendId) (bytes : UInt64) :
    Status × ReservationLedger :=
  match l.backends.lookup backend with
  | none => (.of .notFound "backend not registered", l)
  | some c =>
      if c.committedBytes < bytes then
        (.of .negativeAccounting "committed accounting underflow", l)
      else
        (.okStatus,
          { l with
            backends := l.backends.modify backend fun c =>
              { c with committedBytes := c.committedBytes - bytes }
            totalCommitted := l.totalCommitted - bytes })

end ReservationLedger

/-- `ReservationGuard` bound to a ledger: its own copy of the reservation and
whether it still has to settle it. -/
structure ReservationGuard where
  res : Reservation
  armed : Bool := true
  deriving DecidableEq

namespace ReservationGuard

def commit (g : ReservationGuard) (l : ReservationLedger) (placement : PlacementId) :
    Status × ReservationGuard × ReservationLedger :=
  let (st, l) := l.commit g.res.id placement
  (st, if st.isOk then { g with armed := false } else g, l)

def destroy (g : ReservationGuard) (l : ReservationLedger) : ReservationLedger :=
  if g.armed && decide (g.res.state = .active) then (l.release g.res.id g.res.generation).2 else l

end ReservationGuard

end StorageFabric
