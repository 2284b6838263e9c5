import StorageFabric.Core.Ledger

/-!
The ledger between two calls of the runtime.

A publication settles its reservation before it returns, so between two calls
nothing is reserved, and what a backend holds is what it has committed. From such
a ledger a reservation that is admitted fits beside the committed bytes, can be
committed, and leaves no trace when it is released.
-/

namespace StorageFabric

namespace ReservationLedger

def reservedOn (l : ReservationLedger) (backend : StorageBackendId) : UInt64 :=
  match l.backends.lookup backend with
  | none => 0
  | some c => c.reservedBytes

def committedOn (l : ReservationLedger) (backend : StorageBackendId) : UInt64 :=
  match l.backends.lookup backend with
  | none => 0
  | some c => c.committedBytes

theorem usage_congr {l l' : ReservationLedger} {backend : StorageBackendId}
    (h : l'.backends.lookup backend = l.backends.lookup backend) :
    l'.reservedOn backend = l.reservedOn backend ∧
      l'.committedOn backend = l.committedOn backend := by
  simp only [reservedOn, committedOn, h, and_self]

/-- Nothing is reserved, reservation ids are drawn in increasing order, and no
overcommit is allowed. -/
structure Quiet (l : ReservationLedger) : Prop where
  fresh : l.Fresh
  allowance : l.overcommitAllowance = 0
  unreserved : l.backends.All fun _ c => c.reservedBytes = 0

theorem quiet_empty : Quiet {} where
  fresh id hid := by simp at hid
  allowance := rfl
  unreserved := AList.all_empty

theorem Quiet.registerBackend {l : ReservationLedger} (h : l.Quiet) (backend : StorageBackendId)
    {cap : BackendCapacity} (hcap : cap.reservedBytes = 0) :
    (l.registerBackend backend cap).Quiet where
  fresh := h.fresh
  allowance := h.allowance
  unreserved := h.unreserved.insert hcap

theorem Quiet.removeCommitted {l : ReservationLedger} (h : l.Quiet) (backend : StorageBackendId)
    (bytes : UInt64) : (l.removeCommitted backend bytes).2.Quiet := by
  obtain ⟨-, hsame⟩ | ⟨c, -, -, heq⟩ := removeCommitted_cases l backend bytes
  · rw [hsame]
    exact h
  · rw [heq]
    exact ⟨h.fresh, h.allowance, h.unreserved.modify fun c hc => hc⟩

/-! ### Room -/

theorem Quiet.toNat_headroom {l : ReservationLedger} (h : l.Quiet) {backend : StorageBackendId}
    {c : BackendCapacity} (hc : l.backends.lookup backend = some c) :
    (l.headroom c).toNat = c.freeBytes.toNat - c.committedBytes.toNat := by
  have hreserved : c.reservedBytes = 0 := h.unreserved backend c hc
  rw [headroom, h.allowance, hreserved, UInt64.zero_add, UInt64.add_zero]
  by_cases hlt : c.committedBytes < c.freeBytes
  · rw [if_pos hlt, UInt64.toNat_sub_of_le _ _ (UInt64.le_of_lt hlt)]
  · have hle := UInt64.le_iff_toNat_le.mp (UInt64.not_lt.mp hlt)
    rw [if_neg hlt, Nat.sub_eq_zero_of_le hle]
    rfl

theorem Quiet.le_headroom_iff {l : ReservationLedger} (h : l.Quiet) {backend : StorageBackendId}
    {c : BackendCapacity} (hc : l.backends.lookup backend = some c) {bytes : UInt64}
    (hbytes : bytes ≠ 0) :
    bytes ≤ l.headroom c ↔ c.committedBytes.toNat + bytes.toNat ≤ c.freeBytes.toNat := by
  have hpos : bytes.toNat ≠ 0 := fun hzero => hbytes (UInt64.toNat_inj.mp hzero)
  rw [UInt64.le_iff_toNat_le, h.toNat_headroom hc]
  omega

theorem reserve_insufficient_iff {l : ReservationLedger} {backend : StorageBackendId}
    {c : BackendCapacity} (hc : l.backends.lookup backend = some c) {bytes : UInt64}
    (gen : ReservationGeneration) (owner : WorkerId) (reason : Bytes) :
    (∃ s, (l.reserve backend bytes gen owner reason).1 = .error s ∧
      s.code = .insufficientCapacity) ↔ bytes ≠ 0 ∧ l.headroom c < bytes := by
  unfold ReservationLedger.reserve
  simp only [hc]
  by_cases hzero : bytes = 0
  · simp [hzero, Result.fail, Status.of]
  · by_cases hroom : l.headroom c < bytes
    · simp [hzero, hroom, Result.fail, Status.of]
    · by_cases hid : l.nextReservationId ∈ l.reservations <;>
        simp [hzero, hroom, hid, Result.fail, Status.of]

/-! ### A reservation and its settlement -/

/-- What is known of a reservation that a quiet ledger admitted. -/
structure Admitted (l : ReservationLedger) (backend : StorageBackendId) (bytes : UInt64)
    (res : Reservation) (c : BackendCapacity) : Prop where
  found : l.backends.lookup backend = some c
  room : c.committedBytes.toNat + bytes.toNat ≤ c.freeBytes.toNat
  positive : bytes ≠ 0
  id : res.id = l.nextReservationId
  backend : res.backend = backend
  bytes : res.bytes = bytes
  active : res.state = .active
  uncommitted : res.committed = false

theorem Quiet.reserve {l l' : ReservationLedger} (h : l.Quiet) {backend : StorageBackendId}
    {bytes : UInt64} {gen : ReservationGeneration} {owner : WorkerId} {reason : Bytes}
    {res : Reservation} (hres : l.reserve backend bytes gen owner reason = (.ok res, l')) :
    ∃ c, l.Admitted backend bytes res c ∧ l' = l.reserved res := by
  obtain ⟨c, hc, hzero, hroom, rfl, hl'⟩ := reserve_eq_ok hres
  refine ⟨c, ?_, hl'⟩
  exact
    { found := hc
      room := (h.le_headroom_iff hc hzero).mp hroom
      positive := hzero
      id := rfl
      backend := rfl
      bytes := rfl
      active := rfl
      uncommitted := rfl }

theorem Quiet.reserve_error {l l' : ReservationLedger} (h : l.Quiet) {backend : StorageBackendId}
    {bytes : UInt64} {gen : ReservationGeneration} {owner : WorkerId} {reason : Bytes}
    {s : Status} (hres : l.reserve backend bytes gen owner reason = (.error s, l')) : l' = l := by
  unfold ReservationLedger.reserve at hres
  cases hc : l.backends.lookup backend with
  | none => simpa [hc, Result.fail, eq_comm] using (Prod.mk.inj hres).2
  | some c =>
      have hid : l.nextReservationId ∉ l.reservations := fun hmem =>
        Nat.lt_irrefl _ (h.fresh _ hmem)
      by_cases hzero : bytes = 0
      · simp only [hc, hzero, if_true] at hres
        exact (Prod.mk.inj hres).2.symm
      · by_cases hroom : l.headroom c < bytes
        · simp only [hc, hzero, hroom, if_true, if_false] at hres
          exact (Prod.mk.inj hres).2.symm
        · simp [hc, hzero, hroom, hid] at hres

section Settle

variable {l : ReservationLedger} {backend : StorageBackendId} {bytes : UInt64}
  {res : Reservation} {c : BackendCapacity} (hadmitted : l.Admitted backend bytes res c)
include hadmitted

theorem Admitted.lookups :
    (l.reserved res).reservations.lookup res.id = some res ∧
      (l.reserved res).backends.lookup res.backend = some (hold bytes c) := by
  refine ⟨AList.lookup_insert _, ?_⟩
  show (l.backends.modify res.backend (hold res.bytes)).lookup res.backend = _
  rw [AList.lookup_modify, if_pos rfl, hadmitted.backend, hadmitted.bytes, hadmitted.found,
    Option.map_some]

theorem Admitted.lookup_settled (placement : PlacementId) (b : StorageBackendId) :
    ((l.reserved res).settled res.id res placement).backends.lookup b =
      if b = backend then some { c with committedBytes := c.committedBytes + bytes }
      else l.backends.lookup b := by
  show ((l.backends.modify res.backend (hold res.bytes)).modify res.backend
    (convert res.bytes)).lookup b = _
  rw [AList.modify_modify, AList.lookup_modify, hadmitted.backend, hadmitted.bytes]
  by_cases hb : b = backend
  · rw [if_pos hb, if_pos hb, hb, hadmitted.found, Option.map_some]
    simp [convert, hold]
  · rw [if_neg hb, if_neg hb]

theorem Admitted.lookup_released (b : StorageBackendId) :
    ((l.reserved res).released res.id res).backends.lookup b = l.backends.lookup b := by
  show ((l.backends.modify res.backend (hold res.bytes)).modify res.backend
    (giveBack res.bytes)).lookup b = _
  rw [AList.modify_modify, AList.lookup_modify, hadmitted.backend, hadmitted.bytes]
  by_cases hb : b = backend
  · rw [if_pos hb, hb, hadmitted.found, Option.map_some]
    simp [giveBack, hold]
  · rw [if_neg hb]

variable (h : l.Quiet)
include h

theorem Quiet.fresh_reserved : (l.reserved res).Fresh := by
  intro id hid
  have hnext : (l.reserved res).nextReservationId.value = l.nextReservationId.value + 1 := rfl
  have hmem : id ∈ l.reservations.insert res.id res := hid
  rw [hnext]
  rw [AList.mem_insert, hadmitted.id] at hmem
  obtain rfl | hold := hmem
  · exact Nat.lt_succ_self _
  · exact Nat.lt_succ_of_lt (h.fresh id hold)

theorem Quiet.hold_reservedBytes : (hold bytes c).reservedBytes = res.bytes := by
  have hreserved : c.reservedBytes = 0 := h.unreserved backend c hadmitted.found
  show c.reservedBytes + bytes = res.bytes
  rw [hreserved, UInt64.zero_add, hadmitted.bytes]

theorem Quiet.commit (placement : PlacementId) :
    (l.reserved res).commit res.id placement =
      (.okStatus, (l.reserved res).settled res.id res placement) := by
  obtain ⟨hres, hcap⟩ := hadmitted.lookups
  have hroom : ¬(hold bytes c).reservedBytes < res.bytes := by
    rw [h.hold_reservedBytes hadmitted]
    exact UInt64.lt_irrefl _
  have hactive : ¬res.state ≠ .active := not_not.mpr hadmitted.active
  unfold ReservationLedger.commit
  simp only [hres, hcap, if_neg hactive, if_neg hroom]
  rfl

theorem Quiet.settled (placement : PlacementId) :
    ((l.reserved res).settled res.id res placement).Quiet where
  fresh id hid := h.fresh_reserved hadmitted id (AList.mem_modify.mp hid)
  allowance := h.allowance
  unreserved b cap hcap := by
    rw [hadmitted.lookup_settled] at hcap
    by_cases hb : b = backend
    · rw [if_pos hb] at hcap
      obtain rfl := Option.some.inj hcap
      exact h.unreserved backend c hadmitted.found
    · rw [if_neg hb] at hcap
      exact h.unreserved b cap hcap

theorem Quiet.release :
    (l.reserved res).release res.id res.generation =
      (.okStatus, (l.reserved res).released res.id res) := by
  obtain ⟨hres, hcap⟩ := hadmitted.lookups
  have hroom : ¬(hold bytes c).reservedBytes < res.bytes := by
    rw [h.hold_reservedBytes hadmitted]
    exact UInt64.lt_irrefl _
  have hopen : ¬(res.state = .released ∨ res.state = .expired) := by
    simp [hadmitted.active]
  unfold ReservationLedger.release
  simp only [hres, hcap, if_neg hopen, if_neg hroom, hadmitted.uncommitted, ne_eq,
    not_true_eq_false, if_false, Bool.false_eq_true]
  rfl

theorem Quiet.released : ((l.reserved res).released res.id res).Quiet where
  fresh id hid := h.fresh_reserved hadmitted id (AList.mem_modify.mp hid)
  allowance := h.allowance
  unreserved b cap hcap := by
    rw [hadmitted.lookup_released] at hcap
    exact h.unreserved b cap hcap

end Settle

end ReservationLedger

end StorageFabric
