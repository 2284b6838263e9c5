import StorageFabric.Core.Capacity
import StorageFabric.Lib.Runs

/-!
Runs of the reservation ledger.

The bytes that a backend has reserved are those of its active reservations, and
the occupancy of a backend fits in 64 bits: `reserve` admits only what is below
the free space, and everything else moves bytes or takes them away. From this
the subtractions of `commit` and `release` never underflow, whatever the
arguments, and a reservation is settled at most once.
-/

namespace StorageFabric

inductive LedgerOp
  | registerBackend (backend : StorageBackendId) (cap : BackendCapacity)
  | refreshFree (backend : StorageBackendId) (freeBytes : UInt64)
  | reserve (backend : StorageBackendId) (bytes : UInt64) (gen : ReservationGeneration)
      (owner : WorkerId) (reason : Bytes)
  | commit (id : ReservationId) (placement : PlacementId)
  | release (id : ReservationId) (gen : ReservationGeneration)
  | addCommitted (backend : StorageBackendId) (bytes : UInt64)
  | removeCommitted (backend : StorageBackendId) (bytes : UInt64)

namespace ReservationLedger

def exec (l : ReservationLedger) : LedgerOp → ReservationLedger
  | .registerBackend backend cap => l.registerBackend backend cap
  | .refreshFree backend freeBytes => l.refreshFree backend freeBytes
  | .reserve backend bytes gen owner reason => (l.reserve backend bytes gen owner reason).2
  | .commit id placement => (l.commit id placement).2
  | .release id gen => (l.release id gen).2
  | .addCommitted backend bytes => (l.addCommitted backend bytes).2
  | .removeCommitted backend bytes => (l.removeCommitted backend bytes).2

/-- Whether an operation succeeds; the two that return nothing always do. -/
def succeeds (l : ReservationLedger) : LedgerOp → Bool
  | .registerBackend _ _ => true
  | .refreshFree _ _ => true
  | .reserve backend bytes gen owner reason =>
      (l.reserve backend bytes gen owner reason).1.toOption.isSome
  | .commit id placement => (l.commit id placement).1.isOk
  | .release id gen => (l.release id gen).1.isOk
  | .addCommitted backend bytes => (l.addCommitted backend bytes).1.isOk
  | .removeCommitted backend bytes => (l.removeCommitted backend bytes).1.isOk

/-! ### What each operation does -/

/-- The capacities, the reservations and the totals are the same. -/
structure SameBooks (l l' : ReservationLedger) : Prop where
  backends : l'.backends = l.backends
  reservations : l'.reservations = l.reservations
  totalReserved : l'.totalReserved = l.totalReserved
  totalCommitted : l'.totalCommitted = l.totalCommitted

theorem SameBooks.refl (l : ReservationLedger) : SameBooks l l := ⟨rfl, rfl, rfl, rfl⟩

theorem SameBooks.of_eq {l l' : ReservationLedger} (h : l' = l) : SameBooks l l' := h ▸ .refl l

def hold (bytes : UInt64) (c : BackendCapacity) : BackendCapacity :=
  { c with reservedBytes := c.reservedBytes + bytes }

def convert (bytes : UInt64) (c : BackendCapacity) : BackendCapacity :=
  { c with
    reservedBytes := c.reservedBytes - bytes
    committedBytes := c.committedBytes + bytes }

def giveBack (bytes : UInt64) (c : BackendCapacity) : BackendCapacity :=
  { c with reservedBytes := c.reservedBytes - bytes }

def markCommitted (placement : PlacementId) (r : Reservation) : Reservation :=
  { r with state := .committed, committed := true, boundPlacement := placement }

def markReleased (r : Reservation) : Reservation := { r with state := .released }

def reserved (l : ReservationLedger) (res : Reservation) : ReservationLedger :=
  { l with
    nextReservationId := l.nextReservationId.next
    reservations := l.reservations.insert res.id res
    backends := l.backends.modify res.backend (hold res.bytes)
    totalReserved := l.totalReserved + res.bytes }

def settled (l : ReservationLedger) (id : ReservationId) (res : Reservation)
    (placement : PlacementId) : ReservationLedger :=
  { l with
    backends := l.backends.modify res.backend (convert res.bytes)
    totalReserved := l.totalReserved - res.bytes
    totalCommitted := l.totalCommitted + res.bytes
    reservations := l.reservations.modify id (markCommitted placement) }

def released (l : ReservationLedger) (id : ReservationId) (res : Reservation) :
    ReservationLedger :=
  { l with
    backends := l.backends.modify res.backend (giveBack res.bytes)
    totalReserved := l.totalReserved - res.bytes
    reservations := l.reservations.modify id markReleased }

theorem reserve_cases (l : ReservationLedger) (backend : StorageBackendId) (bytes : UInt64)
    (gen : ReservationGeneration) (owner : WorkerId) (reason : Bytes) :
    ((∃ s, (l.reserve backend bytes gen owner reason).1 = .error s) ∧
      SameBooks l (l.reserve backend bytes gen owner reason).2) ∨
    ∃ c res, l.backends.lookup backend = some c ∧ bytes ≤ l.headroom c ∧
      res.id ∉ l.reservations ∧ res.backend = backend ∧ res.bytes = bytes ∧
      res.state = .active ∧ res.committed = false ∧
      l.reserve backend bytes gen owner reason = (.ok res, l.reserved res) := by
  unfold reserve
  cases hc : l.backends.lookup backend with
  | none => exact .inl ⟨⟨_, rfl⟩, .refl l⟩
  | some c =>
      by_cases hzero : bytes = 0
      · simp only [hzero, if_true]
        exact .inl ⟨⟨_, rfl⟩, .refl l⟩
      · by_cases hroom : l.headroom c < bytes
        · simp only [hzero, hroom, if_true, if_false]
          exact .inl ⟨⟨_, rfl⟩, .refl l⟩
        · by_cases hid : l.nextReservationId ∈ l.reservations
          · simp only [hzero, hroom, hid, if_true, if_false]
            exact .inl ⟨⟨_, rfl⟩, ⟨rfl, rfl, rfl, rfl⟩⟩
          · let res : Reservation :=
              { id := l.nextReservationId, generation := gen, backend, bytes, owner, reason }
            refine .inr ⟨c, res, rfl, UInt64.not_lt.mp hroom, hid, rfl, rfl, rfl, rfl, ?_⟩
            simp only [hzero, hroom, hid, if_false]
            rfl

theorem reserve_eq_ok {l l' : ReservationLedger} {backend : StorageBackendId} {bytes : UInt64}
    {gen : ReservationGeneration} {owner : WorkerId} {reason : Bytes} {res : Reservation}
    (h : l.reserve backend bytes gen owner reason = (.ok res, l')) :
    ∃ c, l.backends.lookup backend = some c ∧ bytes ≠ 0 ∧ bytes ≤ l.headroom c ∧
      res = { id := l.nextReservationId, generation := gen, backend, bytes, owner, reason } ∧
      l' = l.reserved res := by
  unfold reserve at h
  cases hc : l.backends.lookup backend with
  | none => simp [hc, Result.fail] at h
  | some c =>
      by_cases hzero : bytes = 0
      · simp [hc, hzero, Result.fail] at h
      · by_cases hroom : l.headroom c < bytes
        · simp [hc, hzero, hroom, Result.fail] at h
        · by_cases hid : l.nextReservationId ∈ l.reservations
          · simp [hc, hzero, hroom, hid, Result.fail] at h
          · simp only [hc, hzero, hroom, hid, if_false] at h
            obtain ⟨hres, hl'⟩ := Prod.mk.inj h
            obtain rfl := Except.ok.inj hres
            exact ⟨c, rfl, hzero, UInt64.not_lt.mp hroom, rfl, hl'.symm⟩

/-- The subtraction of the bytes of a reservation would underflow. -/
def Underflows (l : ReservationLedger) (id : ReservationId) : Prop :=
  ∃ r c, l.reservations.lookup id = some r ∧
    (r.state = .active ∨ r.state ≠ .released ∧ r.committed = false) ∧
    l.backends.lookup r.backend = some c ∧ c.reservedBytes < r.bytes

/-- A failing operation on a reservation leaves the ledger alone, and has found
an accounting error only if there is one. -/
structure Declined (l : ReservationLedger) (id : ReservationId) (r : Status × ReservationLedger) :
    Prop where
  failed : r.1.isOk = false
  same : r.2 = l
  underflow : r.1.code = .negativeAccounting → l.Underflows id

theorem commit_cases (l : ReservationLedger) (id : ReservationId) (placement : PlacementId) :
    Declined l id (l.commit id placement) ∨
    ∃ r c, l.reservations.lookup id = some r ∧ r.state = .active ∧
      l.backends.lookup r.backend = some c ∧ r.bytes ≤ c.reservedBytes ∧
      l.commit id placement = (.okStatus, l.settled id r placement) := by
  unfold commit
  cases hr : l.reservations.lookup id with
  | none => exact .inl ⟨rfl, rfl, nofun⟩
  | some r =>
      by_cases hactive : r.state = .active
      · simp only [hactive, ne_eq, not_true_eq_false, if_false]
        cases hc : l.backends.lookup r.backend with
        | none => exact .inl ⟨rfl, rfl, nofun⟩
        | some c =>
            by_cases hroom : c.reservedBytes < r.bytes
            · simp only [hroom, if_true]
              exact .inl ⟨rfl, rfl, fun _ => ⟨r, c, hr, .inl hactive, hc, hroom⟩⟩
            · simp only [hroom, if_false]
              exact .inr ⟨r, c, rfl, hactive, hc, UInt64.not_lt.mp hroom, rfl⟩
      · simp only [ne_eq, hactive, not_false_eq_true, if_true]
        exact .inl ⟨rfl, rfl, nofun⟩

theorem release_cases (l : ReservationLedger) (id : ReservationId) (gen : ReservationGeneration) :
    Declined l id (l.release id gen) ∨
    ∃ r c, l.reservations.lookup id = some r ∧ r.state ≠ .released ∧ r.state ≠ .expired ∧
      r.committed = false ∧ r.generation = gen ∧
      l.backends.lookup r.backend = some c ∧ r.bytes ≤ c.reservedBytes ∧
      l.release id gen = (.okStatus, l.released id r) := by
  unfold release
  cases hr : l.reservations.lookup id with
  | none => exact .inl ⟨rfl, rfl, nofun⟩
  | some r =>
      by_cases hstate : r.state = .released ∨ r.state = .expired
      · simp only [hstate, if_true]
        exact .inl ⟨rfl, rfl, nofun⟩
      -- the checks in the order of the source
      · by_cases hgen : gen.value = r.generation.value
        · by_cases hcommitted : r.committed = true
          · simp only [hstate, hgen, hcommitted, ne_eq, not_true_eq_false, if_false, if_true]
            exact .inl ⟨rfl, rfl, nofun⟩
          · have hopen : r.committed = false := by simpa using hcommitted
            simp only [hstate, hgen, hopen, ne_eq, not_true_eq_false, if_false,
              Bool.false_eq_true]
            cases hc : l.backends.lookup r.backend with
            | none => exact .inl ⟨rfl, rfl, nofun⟩
            | some c =>
                by_cases hroom : c.reservedBytes < r.bytes
                · simp only [hroom, if_true]
                  rw [not_or] at hstate
                  exact .inl ⟨rfl, rfl, fun _ => ⟨r, c, hr, .inr ⟨hstate.1, hopen⟩, hc, hroom⟩⟩
                · simp only [hroom, if_false]
                  rw [not_or] at hstate
                  exact .inr ⟨r, c, rfl, hstate.1, hstate.2, hopen, Generation.ext hgen.symm, hc,
                    UInt64.not_lt.mp hroom, rfl⟩
        · simp only [hstate, hgen, ne_eq, not_false_eq_true, if_true, if_false]
          exact .inl ⟨rfl, rfl, nofun⟩

theorem removeCommitted_cases (l : ReservationLedger) (backend : StorageBackendId)
    (bytes : UInt64) :
    ((l.removeCommitted backend bytes).1.isOk = false ∧
      (l.removeCommitted backend bytes).2 = l) ∨
    ∃ c, l.backends.lookup backend = some c ∧ bytes ≤ c.committedBytes ∧
      l.removeCommitted backend bytes =
        (.okStatus,
          { l with
            backends := l.backends.modify backend fun c =>
              { c with committedBytes := c.committedBytes - bytes }
            totalCommitted := l.totalCommitted - bytes }) := by
  unfold removeCommitted
  cases hc : l.backends.lookup backend with
  | none => exact .inl ⟨rfl, rfl⟩
  | some c =>
      by_cases hroom : c.committedBytes < bytes
      · simp only [hroom, if_true]
        exact .inl ⟨rfl, trivial⟩
      · simp only [hroom, if_false]
        exact .inr ⟨c, rfl, UInt64.not_lt.mp hroom, trivial⟩

theorem removeCommitted_ok {l : ReservationLedger} {backend : StorageBackendId}
    {bytes : UInt64} {c : BackendCapacity} (hc : l.backends.lookup backend = some c)
    (hle : bytes ≤ c.committedBytes) :
    l.removeCommitted backend bytes =
      (.okStatus,
        { l with
          backends := l.backends.modify backend fun c =>
            { c with committedBytes := c.committedBytes - bytes }
          totalCommitted := l.totalCommitted - bytes }) := by
  have hroom : ¬c.committedBytes < bytes := UInt64.not_lt.mpr hle
  simp only [removeCommitted, hc, hroom, if_false]

/-! ### Flags -/

/-- The committed flag says what the state says, and no reservation expires. -/
structure Flagged (l : ReservationLedger) : Prop where
  committed : ∀ id r, l.reservations.lookup id = some r →
    (r.committed = true ↔ r.state = .committed)
  unexpired : ∀ id r, l.reservations.lookup id = some r → r.state ≠ .expired

theorem Flagged.active {l : ReservationLedger} (h : Flagged l) {id : ReservationId}
    {r : Reservation} (hr : l.reservations.lookup id = some r) (hreleased : r.state ≠ .released)
    (hopen : r.committed = false) : r.state = .active := by
  have hflag := h.committed id r hr
  have hexpired := h.unexpired id r hr
  cases hstate : r.state with
  | active => rfl
  | committed => simp [hopen, hstate] at hflag
  | released => exact absurd hstate hreleased
  | expired => exact absurd hstate hexpired

theorem Flagged.of_reservations {l l' : ReservationLedger} (h : Flagged l)
    (hreservations : l'.reservations = l.reservations) : Flagged l' := by
  constructor
  · rw [hreservations]
    exact h.committed
  · rw [hreservations]
    exact h.unexpired

theorem Flagged.modify {l l' : ReservationLedger} (h : Flagged l) {id : ReservationId}
    {r : Reservation} {v : Reservation → Reservation} (hr : l.reservations.lookup id = some r)
    (hreservations : l'.reservations = l.reservations.modify id v)
    (hflag : (v r).committed = true ↔ (v r).state = .committed)
    (hstate : (v r).state ≠ .expired) : Flagged l' := by
  have hlookup : ∀ id' r', l'.reservations.lookup id' = some r' →
      r' = v r ∨ l.reservations.lookup id' = some r' := by
    intro id' r' hr'
    rw [hreservations] at hr'
    obtain ⟨w, hw, rfl⟩ := AList.lookup_modify_eq_some.mp hr'
    by_cases hid : id' = id
    · subst hid
      rw [hr] at hw
      obtain rfl := Option.some.inj hw
      exact .inl (if_pos rfl)
    · exact .inr (by rw [if_neg hid, hw])
  constructor
  · intro id' r' hr'
    obtain rfl | hr' := hlookup id' r' hr'
    · exact hflag
    · exact h.committed id' r' hr'
  · intro id' r' hr'
    obtain rfl | hr' := hlookup id' r' hr'
    · exact hstate
    · exact h.unexpired id' r' hr'

theorem flagged_empty (allowance : UInt64) : Flagged { overcommitAllowance := allowance } where
  committed id r h := by simp at h
  unexpired id r h := by simp at h

theorem Flagged.exec {l : ReservationLedger} (h : Flagged l) (op : LedgerOp) :
    Flagged (l.exec op) := by
  cases op with
  | registerBackend backend cap => exact h.of_reservations rfl
  | refreshFree backend freeBytes => exact h.of_reservations rfl
  | reserve backend bytes gen owner reason =>
      show Flagged (l.reserve backend bytes gen owner reason).2
      obtain ⟨-, hsame⟩ | ⟨c, res, -, -, -, -, -, hactive, hopen, heq⟩ :=
        reserve_cases l backend bytes gen owner reason
      · exact h.of_reservations hsame.reservations
      · rw [heq]
        constructor
        · intro id r hr
          obtain ⟨-, rfl⟩ | ⟨-, hr⟩ := AList.lookup_insert_eq_some.mp hr
          -- the new reservation is active and not marked as committed
          · simp [hactive, hopen]
          · exact h.committed id r hr
        · intro id r hr
          obtain ⟨-, rfl⟩ | ⟨-, hr⟩ := AList.lookup_insert_eq_some.mp hr
          · simp [hactive]
          · exact h.unexpired id r hr
  | commit id placement =>
      show Flagged (l.commit id placement).2
      obtain hdeclined | ⟨r, c, hr, -, -, -, heq⟩ := commit_cases l id placement
      · rw [hdeclined.same]
        exact h
      · rw [heq]
        exact h.modify hr (v := markCommitted placement) rfl ⟨fun _ => rfl, fun _ => rfl⟩ nofun
  | release id gen =>
      show Flagged (l.release id gen).2
      obtain hdeclined | ⟨r, c, hr, -, -, hopen, -, -, -, heq⟩ := release_cases l id gen
      · rw [hdeclined.same]
        exact h
      · rw [heq]
        exact h.modify hr (v := markReleased) rfl (by simp [markReleased, hopen]) nofun
  | addCommitted backend bytes =>
      refine h.of_reservations ?_
      show (l.addCommitted backend bytes).2.reservations = l.reservations
      unfold addCommitted
      cases l.backends.lookup backend <;> rfl
  | removeCommitted backend bytes =>
      show Flagged (l.removeCommitted backend bytes).2
      obtain ⟨-, hsame⟩ | ⟨c, -, -, heq⟩ := removeCommitted_cases l backend bytes
      · rw [hsame]
        exact h
      · rw [heq]
        exact h.of_reservations rfl

/-! ### Conservation -/

/-- What an active reservation of `backend` holds. -/
def heldOn (backend : StorageBackendId) (r : Reservation) : Nat :=
  if r.backend = backend ∧ r.state = .active then r.bytes.toNat else 0

def activeBytes (l : ReservationLedger) (backend : StorageBackendId) : Nat :=
  l.reservations.sumBy (heldOn backend)

/-- The conservation laws of the ledger. -/
structure Conserved (l : ReservationLedger) : Prop where
  known : ∀ id r, l.reservations.lookup id = some r → r.state = .active → r.backend ∈ l.backends
  reserved : ∀ b c, l.backends.lookup b = some c → c.reservedBytes.toNat = l.activeBytes b
  bounded : ∀ b c, l.backends.lookup b = some c →
    c.reservedBytes.toNat + c.committedBytes.toNat < 2 ^ 64
  totalReserved : l.totalReserved.toNat =
    l.backends.sumBy (fun c => c.reservedBytes.toNat) % 2 ^ 64
  totalCommitted : l.totalCommitted.toNat =
    l.backends.sumBy (fun c => c.committedBytes.toNat) % 2 ^ 64

/-- Backends are registered once and empty, and no committed bytes are reported
from outside. -/
def Regular (l : ReservationLedger) : LedgerOp → Prop
  | .registerBackend backend cap =>
      backend ∉ l.backends ∧ cap.reservedBytes = 0 ∧ cap.committedBytes = 0
  | .addCommitted _ _ => False
  | _ => True

theorem heldOn_of_ne {b : StorageBackendId} {r : Reservation} (h : r.backend ≠ b) :
    heldOn b r = 0 :=
  if_neg fun hr => h hr.1

theorem heldOn_self {r : Reservation} (h : r.state = .active) :
    heldOn r.backend r = r.bytes.toNat :=
  if_pos ⟨rfl, h⟩

theorem heldOn_inactive {b : StorageBackendId} {r : Reservation} (h : r.state ≠ .active) :
    heldOn b r = 0 :=
  if_neg fun hr => h hr.2

theorem add_lt_of_le_headroom {l : ReservationLedger} {c : BackendCapacity} {bytes : UInt64}
    (hc : c.reservedBytes.toNat + c.committedBytes.toNat < 2 ^ 64) (h : bytes ≤ l.headroom c) :
    c.reservedBytes.toNat + c.committedBytes.toNat + bytes.toNat < 2 ^ 64 := by
  have hoccupancy : (c.reservedBytes + c.committedBytes).toNat =
      c.reservedBytes.toNat + c.committedBytes.toNat := by
    rw [UInt64.toNat_add, Nat.mod_eq_of_lt hc]
  have hle := UInt64.le_iff_toNat_le.mp h
  unfold headroom at hle
  simp only at hle
  split at hle
  · next hroom =>
      have hroom' := UInt64.lt_iff_toNat_lt.mp hroom
      rw [UInt64.toNat_sub_of_le _ _ (UInt64.le_of_lt hroom)] at hle
      have hsize := (c.freeBytes + l.overcommitAllowance).toNat_lt
      omega
  · simp only [UInt64.toNat_zero] at hle
    omega

theorem conserved_empty (allowance : UInt64) :
    Conserved { overcommitAllowance := allowance } where
  known id r h := by simp at h
  reserved b c h := by simp at h
  bounded b c h := by simp at h
  totalReserved := rfl
  totalCommitted := rfl

theorem Conserved.of_sameBooks {l l' : ReservationLedger} (h : Conserved l)
    (hsame : SameBooks l l') : Conserved l' := by
  obtain ⟨hbackends, hreservations, hreserved, hcommitted⟩ := hsame
  have hactive : l'.activeBytes = l.activeBytes := by
    funext b
    rw [activeBytes, activeBytes, hreservations]
  constructor
  · rw [hbackends, hreservations]
    exact h.known
  · rw [hbackends, hactive]
    exact h.reserved
  · rw [hbackends]
    exact h.bounded
  · rw [hbackends, hreserved]
    exact h.totalReserved
  · rw [hbackends, hcommitted]
    exact h.totalCommitted

theorem Conserved.activeBytes_of_notMem {l : ReservationLedger} (h : Conserved l)
    {b : StorageBackendId} (hb : b ∉ l.backends) : l.activeBytes b = 0 := by
  refine Nat.le_zero.mp ?_
  have hzero : l.activeBytes b = l.reservations.sumBy fun _ => 0 := by
    refine AList.sumBy_congr fun id r hr => ?_
    by_cases hactive : r.state = .active
    · refine heldOn_of_ne fun heq => hb ?_
      exact heq ▸ h.known id r hr hactive
    · exact heldOn_inactive hactive
  rw [hzero]
  simp [AList.sumBy]

theorem Conserved.registerBackend {l : ReservationLedger} (h : Conserved l)
    {backend : StorageBackendId} {cap : BackendCapacity} (hnew : backend ∉ l.backends)
    (hreserved : cap.reservedBytes = 0) (hcommitted : cap.committedBytes = 0) :
    Conserved (l.registerBackend backend cap) where
  known id r hr hactive := (AList.mem_insert _).mpr (.inr (h.known id r hr hactive))
  reserved b c hc := by
    obtain ⟨rfl, rfl⟩ | ⟨-, hc⟩ := AList.lookup_insert_eq_some.mp hc
    · rw [hreserved]
      exact (h.activeBytes_of_notMem hnew).symm
    · exact h.reserved b c hc
  bounded b c hc := by
    obtain ⟨rfl, rfl⟩ | ⟨-, hc⟩ := AList.lookup_insert_eq_some.mp hc
    · rw [hreserved, hcommitted]
      decide
    · exact h.bounded b c hc
  totalReserved := by
    show l.totalReserved.toNat = (l.backends.insert backend cap).sumBy _ % 2 ^ 64
    rw [AList.sumBy_insert_of_notMem hnew, hreserved, h.totalReserved]
    simp
  totalCommitted := by
    show l.totalCommitted.toNat = (l.backends.insert backend cap).sumBy _ % 2 ^ 64
    rw [AList.sumBy_insert_of_notMem hnew, hcommitted, h.totalCommitted]
    simp

theorem Conserved.update {l l' : ReservationLedger} (h : Conserved l) {backend : StorageBackendId}
    {c : BackendCapacity} {u : BackendCapacity → BackendCapacity}
    (hc : l.backends.lookup backend = some c)
    (hbackends : l'.backends = l.backends.modify backend u)
    (hknown : ∀ id r, l'.reservations.lookup id = some r → r.state = .active →
      r.backend ∈ l.backends)
    (hothers : ∀ b, b ≠ backend → l'.activeBytes b = l.activeBytes b)
    (hself : (u c).reservedBytes.toNat = l'.activeBytes backend)
    (hbound : (u c).reservedBytes.toNat + (u c).committedBytes.toNat < 2 ^ 64)
    (hreserved : ∀ n, l.totalReserved.toNat = (n + c.reservedBytes.toNat) % 2 ^ 64 →
      l'.totalReserved.toNat = (n + (u c).reservedBytes.toNat) % 2 ^ 64)
    (hcommitted : ∀ n, l.totalCommitted.toNat = (n + c.committedBytes.toNat) % 2 ^ 64 →
      l'.totalCommitted.toNat = (n + (u c).committedBytes.toNat) % 2 ^ 64) :
    Conserved l' := by
  -- the sum over the backends without the one that changes
  have hsum : ∀ f : BackendCapacity → Nat, ∃ n, l.backends.sumBy f = n + f c ∧
      l'.backends.sumBy f = n + f (u c) := by
    intro f
    have hmodify := AList.sumBy_modify hc f u
    have hle := AList.le_sumBy hc f
    refine ⟨l.backends.sumBy f - f c, by omega, ?_⟩
    rw [hbackends]
    omega
  have hlookup : ∀ b d, l'.backends.lookup b = some d →
      b = backend ∧ d = u c ∨ b ≠ backend ∧ l.backends.lookup b = some d := by
    intro b d hd
    rw [hbackends] at hd
    obtain ⟨w, hw, rfl⟩ := AList.lookup_modify_eq_some.mp hd
    by_cases hb : b = backend
    · subst hb
      rw [hc] at hw
      obtain rfl := Option.some.inj hw
      exact .inl ⟨rfl, if_pos rfl⟩
    · exact .inr ⟨hb, by rw [hw, if_neg hb]⟩
  constructor
  · intro id r hr hactive
    rw [hbackends, AList.mem_modify]
    exact hknown id r hr hactive
  · intro b d hd
    obtain ⟨rfl, rfl⟩ | ⟨hb, hd⟩ := hlookup b d hd
    · exact hself
    · rw [hothers b hb]
      exact h.reserved b d hd
  · intro b d hd
    obtain ⟨rfl, rfl⟩ | ⟨hb, hd⟩ := hlookup b d hd
    · exact hbound
    · exact h.bounded b d hd
  · obtain ⟨n, hn, hn'⟩ := hsum fun c => c.reservedBytes.toNat
    rw [hn']
    exact hreserved n (hn ▸ h.totalReserved)
  · obtain ⟨n, hn, hn'⟩ := hsum fun c => c.committedBytes.toNat
    rw [hn']
    exact hcommitted n (hn ▸ h.totalCommitted)

theorem Conserved.reserve {l : ReservationLedger} (h : Conserved l) (backend : StorageBackendId)
    (bytes : UInt64) (gen : ReservationGeneration) (owner : WorkerId) (reason : Bytes) :
    Conserved (l.reserve backend bytes gen owner reason).2 := by
  obtain ⟨-, hsame⟩ | ⟨c, res, hc, hroom, hnew, rfl, rfl, hactive, hflag, heq⟩ :=
    reserve_cases l backend bytes gen owner reason
  · exact h.of_sameBooks hsame
  rw [heq]
  have hbound := h.bounded _ c hc
  have hfits := add_lt_of_le_headroom hbound hroom
  have hadd : (hold res.bytes c).reservedBytes.toNat =
      c.reservedBytes.toNat + res.bytes.toNat := by
    show (c.reservedBytes + res.bytes).toNat = _
    rw [UInt64.toNat_add, Nat.mod_eq_of_lt (by omega)]
  have hactives : ∀ b, (l.reserved res).activeBytes b = heldOn b res + l.activeBytes b :=
    fun b => AList.sumBy_insert_of_notMem hnew (heldOn b)
  have hlookup : ∀ id r, (l.reserved res).reservations.lookup id = some r →
      r = res ∨ l.reservations.lookup id = some r := by
    intro id r hr
    obtain ⟨-, rfl⟩ | ⟨-, hr⟩ := AList.lookup_insert_eq_some.mp hr
    · exact .inl rfl
    · exact .inr hr
  refine h.update hc (u := hold res.bytes) rfl ?_ ?_ ?_ ?_ ?_ ?_
  · intro id r hr hr'
    obtain rfl | hr := hlookup id r hr
    · exact AList.mem_iff_lookup.mpr ⟨c, hc⟩
    · exact h.known id r hr hr'
  · intro b hb
    rw [hactives, heldOn_of_ne hb.symm, Nat.zero_add]
  · rw [hactives, heldOn_self hactive, ← h.reserved _ c hc]
    exact hadd.trans (Nat.add_comm _ _)
  · show (hold res.bytes c).reservedBytes.toNat + c.committedBytes.toNat < 2 ^ 64
    omega
  · intro n hn
    show (l.totalReserved + res.bytes).toNat = _
    rw [UInt64.toNat_add, hn, hadd]
    omega
  · exact fun n hn => hn

/-- An active reservation that is settled gives its reserved bytes back; what
becomes of the committed bytes is up to the operation. -/
theorem Conserved.settle {l l' : ReservationLedger} (h : Conserved l) {id : ReservationId}
    {r : Reservation} {c : BackendCapacity} {u : BackendCapacity → BackendCapacity}
    {v : Reservation → Reservation} (hr : l.reservations.lookup id = some r)
    (hactive : r.state = .active) (hc : l.backends.lookup r.backend = some c)
    (hroom : r.bytes ≤ c.reservedBytes)
    (hbackends : l'.backends = l.backends.modify r.backend u)
    (hreservations : l'.reservations = l.reservations.modify id v)
    (hstate : (v r).state ≠ .active)
    (hu : (u c).reservedBytes = c.reservedBytes - r.bytes)
    (hbound : (u c).committedBytes.toNat ≤ c.committedBytes.toNat + r.bytes.toNat)
    (hreserved : l'.totalReserved = l.totalReserved - r.bytes)
    (hcommitted : ∀ n, l.totalCommitted.toNat = (n + c.committedBytes.toNat) % 2 ^ 64 →
      l'.totalCommitted.toNat = (n + (u c).committedBytes.toNat) % 2 ^ 64) :
    Conserved l' := by
  have hfits := h.bounded _ c hc
  have hroom' := UInt64.le_iff_toNat_le.mp hroom
  have hsub : (u c).reservedBytes.toNat = c.reservedBytes.toNat - r.bytes.toNat := by
    rw [hu, UInt64.toNat_sub_of_le _ _ hroom]
  -- the bytes held by the active ones get fewer by those of `r`
  have hactives : ∀ b, l'.activeBytes b + heldOn b r = l.activeBytes b := by
    intro b
    have hmodify := AList.sumBy_modify hr (heldOn b) v
    rw [heldOn_inactive hstate] at hmodify
    rw [activeBytes, hreservations]
    exact hmodify
  have hlookup : ∀ id' r', l'.reservations.lookup id' = some r' →
      r' = v r ∨ l.reservations.lookup id' = some r' := by
    intro id' r' hr'
    rw [hreservations] at hr'
    obtain ⟨w, hw, rfl⟩ := AList.lookup_modify_eq_some.mp hr'
    by_cases hid : id' = id
    · subst hid
      rw [hr] at hw
      obtain rfl := Option.some.inj hw
      exact .inl (if_pos rfl)
    · exact .inr (by rw [if_neg hid, hw])
  refine h.update hc hbackends ?_ ?_ ?_ ?_ ?_ hcommitted
  · intro id' r' hr' hactive'
    obtain rfl | hr' := hlookup id' r' hr'
    · exact absurd hactive' hstate
    · exact h.known id' r' hr' hactive'
  · intro b hb
    have hb' := hactives b
    rwa [heldOn_of_ne hb.symm] at hb'
  · have hself := hactives r.backend
    rw [heldOn_self hactive, ← h.reserved _ c hc] at hself
    omega
  · omega
  · intro n hn
    rw [hreserved, UInt64.toNat_sub, hn, hsub]
    omega

theorem Conserved.commit {l : ReservationLedger} (h : Conserved l) (id : ReservationId)
    (placement : PlacementId) : Conserved (l.commit id placement).2 := by
  obtain hdeclined | ⟨r, c, hr, hactive, hc, hroom, heq⟩ := commit_cases l id placement
  · rw [hdeclined.same]
    exact h
  have hfits := h.bounded _ c hc
  have hroom' := UInt64.le_iff_toNat_le.mp hroom
  have hadd : (c.committedBytes + r.bytes).toNat = c.committedBytes.toNat + r.bytes.toNat := by
    rw [UInt64.toNat_add, Nat.mod_eq_of_lt (by omega)]
  rw [heq]
  refine h.settle hr hactive hc hroom (u := convert r.bytes) (v := markCommitted placement) rfl rfl
    nofun rfl ?_ rfl ?_
  · exact Nat.le_of_eq hadd
  · intro n hn
    show (l.totalCommitted + r.bytes).toNat = (n + (c.committedBytes + r.bytes).toNat) % 2 ^ 64
    rw [UInt64.toNat_add, hn, hadd]
    omega

theorem Conserved.release {l : ReservationLedger} (h : Conserved l) (hflags : Flagged l)
    (id : ReservationId) (gen : ReservationGeneration) : Conserved (l.release id gen).2 := by
  obtain hdeclined | ⟨r, c, hr, hreleased, -, hopen, -, hc, hroom, heq⟩ := release_cases l id gen
  · rw [hdeclined.same]
    exact h
  rw [heq]
  exact h.settle hr (hflags.active hr hreleased hopen) hc hroom (u := giveBack r.bytes)
    (v := markReleased) rfl rfl nofun rfl (Nat.le_add_right _ _) rfl fun n hn => hn

theorem Conserved.removeCommitted {l : ReservationLedger} (h : Conserved l)
    (backend : StorageBackendId) (bytes : UInt64) :
    Conserved (l.removeCommitted backend bytes).2 := by
  obtain ⟨-, hsame⟩ | ⟨c, hc, hroom, heq⟩ := removeCommitted_cases l backend bytes
  · rw [hsame]
    exact h
  have hfits := h.bounded _ c hc
  have hroom' := UInt64.le_iff_toNat_le.mp hroom
  have hsub : (c.committedBytes - bytes).toNat = c.committedBytes.toNat - bytes.toNat :=
    UInt64.toNat_sub_of_le _ _ hroom
  rw [heq]
  refine h.update hc (u := fun c => { c with committedBytes := c.committedBytes - bytes }) rfl
    h.known (fun _ _ => rfl) (h.reserved _ c hc) ?_ (fun n hn => hn) ?_
  · show c.reservedBytes.toNat + (c.committedBytes - bytes).toNat < 2 ^ 64
    omega
  · intro n hn
    show (l.totalCommitted - bytes).toNat = (n + (c.committedBytes - bytes).toNat) % 2 ^ 64
    rw [UInt64.toNat_sub, hn, hsub]
    omega

theorem Conserved.refreshFree {l : ReservationLedger} (h : Conserved l)
    (backend : StorageBackendId) (freeBytes : UInt64) :
    Conserved (l.refreshFree backend freeBytes) := by
  by_cases hb : backend ∈ l.backends
  · obtain ⟨c, hc⟩ := AList.mem_iff_lookup.mp hb
    exact h.update hc (u := fun c => { c with freeBytes }) rfl h.known
      (fun _ _ => rfl) (h.reserved _ c hc) (h.bounded _ c hc) (fun n hn => hn) fun n hn => hn
  · rw [ReservationLedger.refreshFree, AList.modify_of_notMem hb]
    exact h

theorem Conserved.exec {l : ReservationLedger} (h : Conserved l) (hflags : Flagged l) {op : LedgerOp}
    (hop : Regular l op) : Conserved (l.exec op) := by
  cases op with
  | registerBackend backend cap => exact h.registerBackend hop.1 hop.2.1 hop.2.2
  | refreshFree backend freeBytes => exact h.refreshFree backend freeBytes
  | reserve backend bytes gen owner reason => exact h.reserve backend bytes gen owner reason
  | commit id placement => exact h.commit id placement
  | release id gen => exact h.release hflags id gen
  | addCommitted backend bytes => exact hop.elim
  | removeCommitted backend bytes => exact h.removeCommitted backend bytes

theorem Conserved.not_underflows {l : ReservationLedger} (h : Conserved l) (hflags : Flagged l)
    (id : ReservationId) : ¬l.Underflows id := by
  rintro ⟨r, c, hr, hopen, hc, hlt⟩
  have hactive : r.state = .active := by
    obtain hactive | ⟨hreleased, hopen⟩ := hopen
    · exact hactive
    · exact hflags.active hr hreleased hopen
  have hheld := AList.le_sumBy hr (heldOn r.backend)
  rw [heldOn_self hactive] at hheld
  have hreserved := h.reserved _ c hc
  have hlt' := UInt64.lt_iff_toNat_lt.mp hlt
  rw [activeBytes] at hreserved
  omega

/-- What holds of the books at any time. -/
structure Balanced (l : ReservationLedger) : Prop where
  reserved : ∀ b c, l.backends.lookup b = some c → c.reservedBytes.toNat = l.activeBytes b
  bounded : ∀ b c, l.backends.lookup b = some c →
    c.reservedBytes.toNat + c.committedBytes.toNat < 2 ^ 64
  totalReserved : l.totalReserved.toNat =
    l.backends.sumBy (fun c => c.reservedBytes.toNat) % 2 ^ 64
  totalCommitted : l.totalCommitted.toNat =
    l.backends.sumBy (fun c => c.committedBytes.toNat) % 2 ^ 64
  commit_exact : ∀ id placement, (l.commit id placement).1.code ≠ .negativeAccounting
  release_exact : ∀ id gen, (l.release id gen).1.code ≠ .negativeAccounting

theorem Conserved.balanced {l : ReservationLedger} (h : Conserved l) (hflags : Flagged l) :
    Balanced l where
  reserved := h.reserved
  bounded := h.bounded
  totalReserved := h.totalReserved
  totalCommitted := h.totalCommitted
  commit_exact id placement hcode := by
    obtain hdeclined | ⟨r, c, -, -, -, -, heq⟩ := commit_cases l id placement
    · exact h.not_underflows hflags id (hdeclined.underflow hcode)
    · rw [heq] at hcode
      cases hcode
  release_exact id gen hcode := by
    obtain hdeclined | ⟨r, c, -, -, -, -, -, -, -, heq⟩ := release_cases l id gen
    · exact h.not_underflows hflags id (hdeclined.underflow hcode)
    · rw [heq] at hcode
      cases hcode

/-- The ledger that nobody has used, for any allowance. -/
def fresh (allowance : UInt64) : ReservationLedger := { overcommitAllowance := allowance }

theorem flagged_run (allowance : UInt64) (ops : List LedgerOp) :
    Flagged (Runs.run exec (fresh allowance) ops) :=
  Runs.invariant (P := fun _ _ => True) (fun _ op h _ => h.exec op) (flagged_empty allowance)
    (Runs.along_of_forall (fun _ _ => trivial) _ _)

theorem conserved_run {allowance : UInt64} {ops : List LedgerOp}
    (hops : Runs.Along exec Regular (fresh allowance) ops) :
    Conserved (Runs.run exec (fresh allowance) ops) :=
  (Runs.invariant (I := fun l => Conserved l ∧ Flagged l)
    (fun _ op h hop => ⟨h.1.exec h.2 hop, h.2.exec op⟩)
    ⟨conserved_empty allowance, flagged_empty allowance⟩ hops).1

/-- The books are balanced in every run of a ledger whose backends are
registered once and empty. -/
theorem ledger_balanced (allowance : UInt64) (ops : List LedgerOp)
    (hops : Runs.Along exec Regular (fresh allowance) ops) :
    Balanced (Runs.run exec (fresh allowance) ops) :=
  (conserved_run hops).balanced (flagged_run allowance ops)

instance (l : ReservationLedger) : ∀ op, Decidable (Regular l op)
  | .registerBackend backend cap =>
      inferInstanceAs (Decidable (backend ∉ l.backends ∧ cap.reservedBytes = 0 ∧
        cap.committedBytes = 0))
  | .addCommitted _ _ => .isFalse id
  | .refreshFree _ _ => .isTrue trivial
  | .reserve _ _ _ _ _ => .isTrue trivial
  | .commit _ _ => .isTrue trivial
  | .release _ _ => .isTrue trivial
  | .removeCommitted _ _ => .isTrue trivial

namespace Small

/-- One backend, two reservations, one of them committed. -/
def ops : List LedgerOp :=
  [.registerBackend ⟨1⟩ { totalBytes := 10, freeBytes := 10 },
    .reserve ⟨1⟩ 4 ⟨1⟩ ⟨1⟩ [], .reserve ⟨1⟩ 5 ⟨1⟩ ⟨1⟩ [], .commit ⟨1⟩ ⟨7⟩, .refreshFree ⟨1⟩ 2]

end Small

theorem ledger_balanced_small : Balanced (Runs.run exec (fresh 0) Small.ops) :=
  ledger_balanced 0 Small.ops (by decide)

/-! ### Settlement -/

def settles (id : ReservationId) (l : ReservationLedger) : LedgerOp → Bool
  | .commit id' placement => decide (id' = id) && (l.commit id' placement).1.isOk
  | .release id' gen => decide (id' = id) && (l.release id' gen).1.isOk
  | _ => false

/-- How often a run settles the reservation `id`. -/
def settlements (id : ReservationId) : ReservationLedger → List LedgerOp → Nat
  | _, [] => 0
  | l, op :: ops => (if settles id l op then 1 else 0) + settlements id (l.exec op) ops

def Settled (id : ReservationId) (l : ReservationLedger) : Prop :=
  ∃ r, l.reservations.lookup id = some r ∧ (r.state = .committed ∨ r.state = .released)

theorem Settled.final {id : ReservationId} {l : ReservationLedger} (h : Settled id l)
    (hflags : Flagged l) :
    (∀ placement, (l.commit id placement).1.isOk = false) ∧
      ∀ gen, (l.release id gen).1.isOk = false := by
  obtain ⟨r, hr, hstate⟩ := h
  constructor
  · intro placement
    obtain hdeclined | ⟨r', c, hr', hactive, -⟩ := commit_cases l id placement
    · exact hdeclined.failed
    · rw [hr] at hr'
      obtain rfl := Option.some.inj hr'
      simp [hactive] at hstate
  · intro gen
    obtain hdeclined | ⟨r', c, hr', hreleased, -, hopen, -⟩ := release_cases l id gen
    · exact hdeclined.failed
    · rw [hr] at hr'
      obtain rfl := Option.some.inj hr'
      obtain hcommitted | hreleased' := hstate
      · have := (hflags.committed id r hr).mpr hcommitted
        rw [hopen] at this
        cases this
      · exact absurd hreleased' hreleased

theorem Settled.not_settles {id : ReservationId} {l : ReservationLedger} (h : Settled id l)
    (hflags : Flagged l) (op : LedgerOp) : settles id l op = false := by
  obtain ⟨hcommit, hrelease⟩ := h.final hflags
  cases op with
  | commit id' placement =>
      by_cases hid : id' = id
      · subst hid
        simp [settles, hcommit placement]
      · simp [settles, hid]
  | release id' gen =>
      by_cases hid : id' = id
      · subst hid
        simp [settles, hrelease gen]
      · simp [settles, hid]
  | _ => rfl

/-- What an operation does to the reservation `id`: nothing, unless it makes it or
settles it. -/
theorem lookup_exec_cases (id : ReservationId) (l : ReservationLedger) (op : LedgerOp) :
    (settles id l op = false ∧
      (l.exec op).reservations.lookup id = l.reservations.lookup id) ∨
    (settles id l op = false ∧ l.reservations.lookup id = none ∧
      ∃ r, (l.exec op).reservations.lookup id = some r ∧ r.state = .active) ∨
    (settles id l op = true ∧ ∃ r r', l.reservations.lookup id = some r ∧
      (l.exec op).reservations.lookup id = some r' ∧ r'.generation = r.generation ∧
      (r'.state = .committed ∨ r'.state = .released)) := by
  cases op with
  | registerBackend backend cap => exact .inl ⟨rfl, rfl⟩
  | refreshFree backend freeBytes => exact .inl ⟨rfl, rfl⟩
  | reserve backend bytes gen owner reason =>
      simp only [exec, settles]
      obtain ⟨-, hsame⟩ | ⟨c, res, -, -, hnew, -, -, hactive, -, heq⟩ :=
        reserve_cases l backend bytes gen owner reason
      · exact .inl ⟨trivial, by rw [hsame.reservations]⟩
      · rw [heq]
        by_cases hid : id = res.id
        · subst hid
          exact .inr (.inl ⟨trivial, AList.notMem_iff_lookup.mp hnew, res,
            AList.lookup_insert _, hactive⟩)
        · exact .inl ⟨trivial, AList.lookup_insert_ne hid⟩
  | commit id' placement =>
      simp only [exec, settles]
      -- a reservation is settled once: whoever comes second is declined
      obtain hdeclined | ⟨r, c, hr, -, -, -, heq⟩ := commit_cases l id' placement
      · exact .inl ⟨by simp [hdeclined.failed], by rw [hdeclined.same]⟩
      · rw [heq]
        by_cases hid : id' = id
        · subst hid
          exact .inr (.inr ⟨by simp, r, markCommitted placement r, hr,
            (AList.lookup_modify_self _ _ _).trans (by rw [hr]; rfl), rfl, .inl rfl⟩)
        · exact .inl ⟨by simp [hid], AList.lookup_modify_ne (Ne.symm hid) _ _⟩
  | release id' gen =>
      simp only [exec, settles]
      obtain hdeclined | ⟨r, c, hr, -, -, -, -, -, -, heq⟩ := release_cases l id' gen
      · exact .inl ⟨by simp [hdeclined.failed], by rw [hdeclined.same]⟩
      · rw [heq]
        by_cases hid : id' = id
        · subst hid
          exact .inr (.inr ⟨by simp, r, markReleased r, hr,
            (AList.lookup_modify_self _ _ _).trans (by rw [hr]; rfl), rfl, .inr rfl⟩)
        · exact .inl ⟨by simp [hid], AList.lookup_modify_ne (Ne.symm hid) _ _⟩
  | addCommitted backend bytes =>
      refine .inl ⟨rfl, ?_⟩
      show (l.addCommitted backend bytes).2.reservations.lookup id = _
      unfold addCommitted
      cases l.backends.lookup backend <;> rfl
  | removeCommitted backend bytes =>
      refine .inl ⟨rfl, ?_⟩
      show (l.removeCommitted backend bytes).2.reservations.lookup id = _
      obtain ⟨-, hsame⟩ | ⟨c, -, -, heq⟩ := removeCommitted_cases l backend bytes
      · rw [hsame]
      · rw [heq]

theorem lookup_exec {id : ReservationId} {l : ReservationLedger} {r : Reservation}
    (hr : l.reservations.lookup id = some r) {op : LedgerOp} (hop : settles id l op = false) :
    (l.exec op).reservations.lookup id = some r := by
  obtain ⟨-, hsame⟩ | ⟨-, hnone, -⟩ | ⟨hsettles, -⟩ := lookup_exec_cases id l op
  · rw [hsame, hr]
  · rw [hnone] at hr
    cases hr
  · rw [hsettles] at hop
    cases hop

theorem settled_of_settles {id : ReservationId} {l : ReservationLedger} {op : LedgerOp}
    (h : settles id l op = true) : Settled id (l.exec op) := by
  obtain ⟨hother, -⟩ | ⟨hother, -⟩ | ⟨-, r, r', -, hr', -, hstate⟩ := lookup_exec_cases id l op
  · rw [hother] at h
    cases h
  · rw [hother] at h
    cases h
  · exact ⟨r', hr', hstate⟩

theorem Settled.exec {id : ReservationId} {l : ReservationLedger} (h : Settled id l)
    (hflags : Flagged l) (op : LedgerOp) : Settled id (l.exec op) := by
  have hother := h.not_settles hflags op
  obtain ⟨r, hr, hstate⟩ := h
  exact ⟨r, lookup_exec hr hother, hstate⟩

theorem Settled.of_exec {id : ReservationId} {l : ReservationLedger} {op : LedgerOp}
    (h : Settled id (l.exec op)) : Settled id l ∨ settles id l op = true := by
  obtain ⟨r, hr, hstate⟩ := h
  obtain ⟨-, hsame⟩ | ⟨-, -, r', hr', hactive⟩ | ⟨hsettles, -⟩ := lookup_exec_cases id l op
  · exact .inl ⟨r, by rw [← hsame, hr], hstate⟩
  · rw [hr'] at hr
    obtain rfl := Option.some.inj hr
    simp [hactive] at hstate
  · exact .inr hsettles

/-- A run settles a reservation at most once, not at all if it was settled, and
leaves it settled. -/
theorem settlements_le {id : ReservationId} {l : ReservationLedger} (hflags : Flagged l)
    (ops : List LedgerOp) :
    settlements id l ops ≤ 1 ∧
      (settlements id l ops = 1 → Settled id (Runs.run exec l ops)) ∧
      (Settled id l → settlements id l ops = 0 ∧ Settled id (Runs.run exec l ops)) := by
  induction ops generalizing l with
  | nil => exact ⟨Nat.zero_le 1, nofun, fun h => ⟨rfl, h⟩⟩
  | cons op ops ih =>
      obtain ⟨hle, hone, hsettled⟩ := ih (hflags.exec op)
      rw [settlements, Runs.run_cons]
      by_cases hop : settles id l op = true
      · obtain ⟨hzero, hfinal⟩ := hsettled (settled_of_settles hop)
        rw [if_pos hop, hzero]
        refine ⟨Nat.le_refl 1, fun _ => hfinal, fun h => ?_⟩
        rw [h.not_settles hflags op] at hop
        cases hop
      · have hother : settles id l op = false := by simpa using hop
        rw [if_neg hop, Nat.zero_add]
        exact ⟨hle, hone, fun h => hsettled (h.exec hflags op)⟩

theorem settlements_pos {id : ReservationId} {l : ReservationLedger} {ops : List LedgerOp}
    (h : Settled id (Runs.run exec l ops)) (hopen : ¬Settled id l) : 0 < settlements id l ops := by
  induction ops generalizing l with
  | nil => exact absurd h hopen
  | cons op ops ih =>
      rw [settlements]
      by_cases hop : settles id l op = true
      · rw [if_pos hop]
        exact Nat.add_pos_left Nat.one_pos _
      · refine Nat.add_pos_right _ (ih h fun hsettled => ?_)
        obtain hbefore | hsettles := hsettled.of_exec
        · exact hopen hbefore
        · exact hop hsettles

theorem sameBooks_of_failure (l : ReservationLedger) {op : LedgerOp}
    (h : l.succeeds op = false) : SameBooks l (l.exec op) := by
  cases op with
  | registerBackend backend cap => cases h
  | refreshFree backend freeBytes => cases h
  | reserve backend bytes gen owner reason =>
      obtain ⟨-, hsame⟩ | ⟨c, res, -, -, -, -, -, -, -, heq⟩ :=
        reserve_cases l backend bytes gen owner reason
      · exact hsame
      · simp only [succeeds, heq] at h
        cases h
  | commit id placement =>
      obtain hdeclined | ⟨r, c, -, -, -, -, heq⟩ := commit_cases l id placement
      · exact .of_eq hdeclined.same
      · simp only [succeeds, heq] at h
        cases h
  | release id gen =>
      obtain hdeclined | ⟨r, c, -, -, -, -, -, -, -, heq⟩ := release_cases l id gen
      · exact .of_eq hdeclined.same
      · simp only [succeeds, heq] at h
        cases h
  | addCommitted backend bytes =>
      cases hc : l.backends.lookup backend with
      | none => exact .of_eq (by simp only [exec, addCommitted, hc])
      | some c => simp [succeeds, addCommitted, hc] at h
  | removeCommitted backend bytes =>
      obtain ⟨-, hsame⟩ | ⟨c, -, -, heq⟩ := removeCommitted_cases l backend bytes
      · exact .of_eq hsame
      · simp only [succeeds, heq] at h
        cases h

/-- In every run of the ledger, with any arguments, a reservation is settled at
most once, and nothing settles it again; its flag says whether it was committed;
and what fails changes nothing. -/
theorem settled_once (allowance : UInt64) (ops : List LedgerOp) (id : ReservationId) :
    settlements id (fresh allowance) ops ≤ 1 ∧
      (settlements id (fresh allowance) ops = 1 →
        (∀ placement,
          ((Runs.run exec (fresh allowance) ops).commit id placement).1.isOk = false) ∧
        ∀ gen, ((Runs.run exec (fresh allowance) ops).release id gen).1.isOk = false) ∧
      (∀ r, (Runs.run exec (fresh allowance) ops).reservations.lookup id = some r →
        (r.committed = true ↔ r.state = .committed)) ∧
      ∀ op, (Runs.run exec (fresh allowance) ops).succeeds op = false →
        SameBooks (Runs.run exec (fresh allowance) ops)
          ((Runs.run exec (fresh allowance) ops).exec op) := by
  have hflags := flagged_run allowance ops
  obtain ⟨hle, hone, -⟩ := @settlements_le id _ (flagged_empty allowance) ops
  refine ⟨hle, fun h => ?_, hflags.committed id, fun op => sameBooks_of_failure _⟩
  exact (hone h).final hflags

end ReservationLedger

end StorageFabric
