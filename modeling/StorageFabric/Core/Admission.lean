import Mathlib.Logic.Function.Basic
import StorageFabric.Core.Ledger

/-!
What `reserve` admits, against the exact amounts.

The ledger keeps its amounts on 64 bits. Beside it runs a tally that counts the
same bytes without bound, so the words of the ledger are the amounts of the
tally up to multiples of `2 ^ 64`, and admission is exact unless the two sides
of its comparison were reduced by different multiples.
-/

namespace StorageFabric

/-- The bytes that a backend has reserved and committed, as exact integers. -/
structure Amounts where
  reserved : Nat := 0
  committed : Nat := 0
  deriving DecidableEq

namespace Amounts

def total (a : Amounts) : Nat := a.reserved + a.committed

def hold (n : Nat) (a : Amounts) : Amounts := { a with reserved := a.reserved + n }

def convert (n : Nat) (a : Amounts) : Amounts := ⟨a.reserved - n, a.committed + n⟩

def giveBack (n : Nat) (a : Amounts) : Amounts := { a with reserved := a.reserved - n }

def add (n : Nat) (a : Amounts) : Amounts := { a with committed := a.committed + n }

def remove (n : Nat) (a : Amounts) : Amounts := { a with committed := a.committed - n }

/-- The words of the capacity are the amounts on 64 bits. -/
structure Matches (a : Amounts) (c : BackendCapacity) : Prop where
  reserved : c.reservedBytes.toNat = a.reserved % 2 ^ 64
  committed : c.committedBytes.toNat = a.committed % 2 ^ 64

theorem toNat_add_mod {x n : UInt64} {k : Nat} (h : x.toNat = k % 2 ^ 64) :
    (x + n).toNat = (k + n.toNat) % 2 ^ 64 := by
  rw [UInt64.toNat_add, h, Nat.mod_add_mod]

theorem toNat_sub_mod {x n : UInt64} {k : Nat} (h : x.toNat = k % 2 ^ 64) (hle : n ≤ x) :
    (x - n).toNat = (k - n.toNat) % 2 ^ 64 := by
  have hle' := UInt64.le_iff_toNat_le.mp hle
  rw [UInt64.toNat_sub_of_le _ _ hle]
  omega

theorem Matches.hold {a : Amounts} {c : BackendCapacity} (h : a.Matches c) (n : UInt64) :
    (a.hold n.toNat).Matches (ReservationLedger.hold n c) :=
  ⟨toNat_add_mod h.reserved, h.committed⟩

theorem Matches.convert {a : Amounts} {c : BackendCapacity} (h : a.Matches c) {n : UInt64}
    (hle : n ≤ c.reservedBytes) :
    (a.convert n.toNat).Matches (ReservationLedger.convert n c) :=
  ⟨toNat_sub_mod h.reserved hle, toNat_add_mod h.committed⟩

theorem Matches.giveBack {a : Amounts} {c : BackendCapacity} (h : a.Matches c) {n : UInt64}
    (hle : n ≤ c.reservedBytes) :
    (a.giveBack n.toNat).Matches (ReservationLedger.giveBack n c) :=
  ⟨toNat_sub_mod h.reserved hle, h.committed⟩

theorem Matches.add {a : Amounts} {c : BackendCapacity} (h : a.Matches c) (n : UInt64) :
    (a.add n.toNat).Matches { c with committedBytes := c.committedBytes + n } :=
  ⟨h.reserved, toNat_add_mod h.committed⟩

theorem Matches.remove {a : Amounts} {c : BackendCapacity} (h : a.Matches c) {n : UInt64}
    (hle : n ≤ c.committedBytes) :
    (a.remove n.toNat).Matches { c with committedBytes := c.committedBytes - n } :=
  ⟨h.reserved, toNat_sub_mod h.committed hle⟩

end Amounts

/-- The exact amounts of every backend. -/
abbrev Tally := StorageBackendId → Amounts

namespace ReservationLedger

/-- What an operation on the ledger does to the exact amounts, if it succeeds. -/
def count (l : ReservationLedger) (t : Tally) : LedgerOp → Tally
  | .registerBackend backend cap =>
      Function.update t backend ⟨cap.reservedBytes.toNat, cap.committedBytes.toNat⟩
  | .refreshFree _ _ => t
  | .reserve backend bytes _ _ _ =>
      Function.update t backend ((t backend).hold bytes.toNat)
  | .commit id _ => (l.reservations.lookup id).elim t fun r =>
      Function.update t r.backend ((t r.backend).convert r.bytes.toNat)
  | .release id _ => (l.reservations.lookup id).elim t fun r =>
      Function.update t r.backend ((t r.backend).giveBack r.bytes.toNat)
  | .addCommitted backend bytes =>
      Function.update t backend ((t backend).add bytes.toNat)
  | .removeCommitted backend bytes =>
      Function.update t backend ((t backend).remove bytes.toNat)

/-! ### What no operation disturbs -/

theorem Fresh.reserve {l : ReservationLedger} (h : l.Fresh) (backend : StorageBackendId)
    (bytes : UInt64) (gen : ReservationGeneration) (owner : WorkerId) (reason : Bytes) :
    (l.reserve backend bytes gen owner reason).2.Fresh ∧
      (l.reserve backend bytes gen owner reason).2.overcommitAllowance =
        l.overcommitAllowance := by
  unfold ReservationLedger.reserve
  cases l.backends.lookup backend with
  | none => exact ⟨h, rfl⟩
  | some c =>
      by_cases hzero : bytes = 0
      · simp only [hzero, if_true]
        exact ⟨h, trivial⟩
      · by_cases hroom : l.headroom c < bytes
        · simp only [hzero, hroom, if_true, if_false]
          exact ⟨h, trivial⟩
        · have hid : l.nextReservationId ∉ l.reservations := fun hmem => Nat.lt_irrefl _ (h _ hmem)
          simp only [hzero, hroom, hid, if_false]
          refine ⟨fun id hmem => ?_, trivial⟩
          show id.value < l.nextReservationId.value + 1
          rcases (AList.mem_insert _).mp hmem with rfl | hmem
          · exact Nat.lt_succ_self _
          · exact Nat.lt_succ_of_lt (h id hmem)

theorem Fresh.exec {l : ReservationLedger} (h : l.Fresh) (op : LedgerOp) :
    (l.exec op).Fresh ∧ (l.exec op).overcommitAllowance = l.overcommitAllowance := by
  cases op with
  | registerBackend backend cap => exact ⟨h, rfl⟩
  | refreshFree backend freeBytes => exact ⟨h, rfl⟩
  | reserve backend bytes gen owner reason => exact h.reserve backend bytes gen owner reason
  | commit id placement =>
      show (l.commit id placement).2.Fresh ∧ (l.commit id placement).2.overcommitAllowance = _
      obtain hdeclined | ⟨r, c, -, -, -, -, heq⟩ := commit_cases l id placement
      · rw [hdeclined.same]
        exact ⟨h, rfl⟩
      · rw [heq]
        exact ⟨fun id' hmem => h id' (AList.mem_modify.mp hmem), rfl⟩
  | release id gen =>
      show (l.release id gen).2.Fresh ∧ (l.release id gen).2.overcommitAllowance = _
      obtain hdeclined | ⟨r, c, -, -, -, -, -, -, -, heq⟩ := release_cases l id gen
      · rw [hdeclined.same]
        exact ⟨h, rfl⟩
      · rw [heq]
        exact ⟨fun id' hmem => h id' (AList.mem_modify.mp hmem), rfl⟩
  | addCommitted backend bytes =>
      show (l.addCommitted backend bytes).2.Fresh ∧
        (l.addCommitted backend bytes).2.overcommitAllowance = _
      unfold addCommitted
      cases l.backends.lookup backend <;> exact ⟨h, rfl⟩
  | removeCommitted backend bytes =>
      show (l.removeCommitted backend bytes).2.Fresh ∧
        (l.removeCommitted backend bytes).2.overcommitAllowance = _
      obtain ⟨-, hsame⟩ | ⟨c, -, -, heq⟩ := removeCommitted_cases l backend bytes
      · rw [hsame]
        exact ⟨h, rfl⟩
      · rw [heq]
        exact ⟨h, rfl⟩

/-! ### The words match the amounts -/

/-- The words of every backend match its amounts. -/
def Matches (l : ReservationLedger) (t : Tally) : Prop :=
  ∀ b c, l.backends.lookup b = some c → (t b).Matches c

theorem Matches.modify {l l' : ReservationLedger} {t : Tally} (h : l.Matches t)
    {backend : StorageBackendId} {c : BackendCapacity} {u : BackendCapacity → BackendCapacity}
    {a : Amounts} (hc : l.backends.lookup backend = some c)
    (hbackends : l'.backends = l.backends.modify backend u) (ha : a.Matches (u c)) :
    l'.Matches (Function.update t backend a) := by
  intro b d hd
  rw [hbackends] at hd
  obtain ⟨w, hw, rfl⟩ := AList.lookup_modify_eq_some.mp hd
  by_cases hb : b = backend
  · subst hb
    rw [hc] at hw
    obtain rfl := Option.some.inj hw
    rw [if_pos rfl, Function.update_self]
    exact ha
  · rw [if_neg hb, Function.update_of_ne hb]
    exact h b w hw

theorem Matches.of_backends {l l' : ReservationLedger} {t : Tally} (h : l.Matches t)
    (hbackends : l'.backends = l.backends) : l'.Matches t := by
  intro b c hc
  exact h b c (hbackends ▸ hc)

/-- The tally after an operation: one that fails moves no bytes. -/
def tallied (l : ReservationLedger) (t : Tally) (op : LedgerOp) : Tally :=
  if l.succeeds op then l.count t op else t

theorem Matches.exec {l : ReservationLedger} {t : Tally} (h : l.Matches t) (op : LedgerOp) :
    (l.exec op).Matches (l.tallied t op) := by
  unfold tallied
  by_cases hok : l.succeeds op = true
  · rw [if_pos hok]
    cases op with
    | registerBackend backend cap =>
        intro b c hc
        obtain ⟨rfl, rfl⟩ | ⟨hb, hc⟩ := AList.lookup_insert_eq_some.mp hc
        · show (Function.update t b _ b).Matches c
          rw [Function.update_self]
          -- a registration sets both counters, and the tally takes them over
          exact ⟨(Nat.mod_eq_of_lt c.reservedBytes.toNat_lt).symm,
            (Nat.mod_eq_of_lt c.committedBytes.toNat_lt).symm⟩
        · show (Function.update t backend _ b).Matches c
          rw [Function.update_of_ne hb]
          exact h b c hc
    | refreshFree backend freeBytes =>
        intro b c hc
        obtain ⟨w, hw, rfl⟩ := AList.lookup_modify_eq_some.mp hc
        by_cases hb : b = backend
        · rw [if_pos hb]
          exact ⟨(h b w hw).reserved, (h b w hw).committed⟩
        · rw [if_neg hb]
          exact h b w hw
    | reserve backend bytes gen owner reason =>
        obtain ⟨⟨s, hs⟩, -⟩ | ⟨c, res, hc, -, -, rfl, rfl, -, -, heq⟩ :=
          reserve_cases l backend bytes gen owner reason
        · rw [succeeds, hs] at hok
          cases hok
        · show (l.reserve res.backend res.bytes gen owner reason).2.Matches _
          rw [heq]
          exact h.modify hc rfl ((h _ c hc).hold res.bytes)
    | commit id placement =>
        obtain hdeclined | ⟨r, c, hr, -, hc, hle, heq⟩ := commit_cases l id placement
        · rw [succeeds, hdeclined.failed] at hok
          cases hok
        · show (l.commit id placement).2.Matches ((l.reservations.lookup id).elim t _)
          rw [heq, hr]
          exact h.modify hc rfl ((h _ c hc).convert hle)
    | release id gen =>
        obtain hdeclined | ⟨r, c, hr, -, -, -, -, hc, hle, heq⟩ := release_cases l id gen
        · rw [succeeds, hdeclined.failed] at hok
          cases hok
        · show (l.release id gen).2.Matches ((l.reservations.lookup id).elim t _)
          rw [heq, hr]
          exact h.modify hc rfl ((h _ c hc).giveBack hle)
    | addCommitted backend bytes =>
        show (l.addCommitted backend bytes).2.Matches _
        unfold addCommitted
        cases hc : l.backends.lookup backend with
        | none => simp [succeeds, addCommitted, hc, Status.isOk, Status.of] at hok
        | some c =>
            exact h.modify (u := fun c => { c with committedBytes := c.committedBytes + bytes }) hc rfl
              ((h _ c hc).add bytes)
    | removeCommitted backend bytes =>
        show (l.removeCommitted backend bytes).2.Matches _
        obtain ⟨hfailed, -⟩ | ⟨c, hc, hle, heq⟩ := removeCommitted_cases l backend bytes
        · rw [succeeds, hfailed] at hok
          cases hok
        · rw [heq]
          exact h.modify (u := fun c => { c with committedBytes := c.committedBytes - bytes }) hc rfl
            ((h _ c hc).remove hle)
  · rw [if_neg hok]
    -- an operation that fails leaves the books as they are, and is not tallied
    exact h.of_backends (sameBooks_of_failure l (Bool.eq_false_iff.mpr hok)).backends

end ReservationLedger

/-- A ledger with the tally beside it. -/
structure Tallied where
  ledger : ReservationLedger
  tally : Tally

namespace Tallied

open ReservationLedger

def step (s : Tallied) (op : LedgerOp) : Tallied :=
  ⟨s.ledger.exec op, s.ledger.tallied s.tally op⟩

def fresh (allowance : UInt64) : Tallied := ⟨ReservationLedger.fresh allowance, fun _ => {}⟩

theorem matches_run (allowance : UInt64) (ops : List LedgerOp) :
    (Runs.run step (fresh allowance) ops).ledger.Matches
        (Runs.run step (fresh allowance) ops).tally ∧
      (Runs.run step (fresh allowance) ops).ledger.Fresh ∧
      (Runs.run step (fresh allowance) ops).ledger.overcommitAllowance = allowance := by
  refine Runs.invariant (P := fun _ _ => True)
    (I := fun s : Tallied => s.ledger.Matches s.tally ∧ s.ledger.Fresh ∧
      s.ledger.overcommitAllowance = allowance) ?_ ?_ (Runs.along_of_forall (fun _ _ => trivial) _ _)
  · rintro s op ⟨hmatches, hfresh, hallowance⟩ -
    obtain ⟨hfresh', hsame⟩ := hfresh.exec op
    exact ⟨hmatches.exec op, hfresh', hsame.trans hallowance⟩
  · exact ⟨fun b c hc => (by cases hc), fun id hid => absurd hid (AList.notMem_empty id), rfl⟩

end Tallied

namespace ReservationLedger

/-! ### Admission -/

theorem toNat_headroom {a : Amounts} {c : BackendCapacity} (h : a.Matches c)
    (l : ReservationLedger) :
    (l.headroom c).toNat =
      (c.freeBytes.toNat + l.overcommitAllowance.toNat) % 2 ^ 64 - a.total % 2 ^ 64 := by
  have hoccupancy : (c.reservedBytes + c.committedBytes).toNat = a.total % 2 ^ 64 := by
    rw [UInt64.toNat_add, h.reserved, h.committed, ← Nat.add_mod]
    rfl
  have hlimit : (c.freeBytes + l.overcommitAllowance).toNat =
      (c.freeBytes.toNat + l.overcommitAllowance.toNat) % 2 ^ 64 := UInt64.toNat_add _ _
  rw [headroom, ← hoccupancy, ← hlimit]
  by_cases hlt : c.reservedBytes + c.committedBytes < c.freeBytes + l.overcommitAllowance
  · rw [if_pos hlt, UInt64.toNat_sub_of_le _ _ (UInt64.le_of_lt hlt)]
  · rw [if_neg hlt]
    have hle := UInt64.le_iff_toNat_le.mp (UInt64.not_lt.mp hlt)
    exact (Nat.sub_eq_zero_of_le hle).symm

theorem Fresh.reserve_iff {l : ReservationLedger} (h : l.Fresh) {backend : StorageBackendId}
    {c : BackendCapacity} (hc : l.backends.lookup backend = some c) {bytes : UInt64}
    (hpos : 0 < bytes) (gen : ReservationGeneration) (owner : WorkerId) (reason : Bytes) :
    (l.reserve backend bytes gen owner reason).1.toOption.isSome = true ↔
      bytes ≤ l.headroom c := by
  have hid : l.nextReservationId ∉ l.reservations := fun hmem => Nat.lt_irrefl _ (h _ hmem)
  have hzero : bytes ≠ 0 := UInt64.pos_iff_ne_zero.mp hpos
  unfold ReservationLedger.reserve
  by_cases hroom : l.headroom c < bytes
  · simp only [hc, hzero, hroom, if_true, if_false]
    exact iff_of_false (by decide) (UInt64.not_le.mpr hroom)
  · simp only [hc, hzero, hroom, hid, if_false]
    exact iff_of_true rfl (UInt64.not_lt.mp hroom)

/-- The limit and the occupancy pass `2 ^ 64` equally often, or there is no room
either way. -/
def WrapAlike (limit occupancy : Nat) : Prop :=
  limit / 2 ^ 64 = occupancy / 2 ^ 64 ∨
    limit ≤ occupancy ∧ limit % 2 ^ 64 ≤ occupancy % 2 ^ 64

theorem room_exact_iff {limit occupancy : Nat} (hlimit : limit < 2 ^ 65 - 1) :
    (∀ n, 0 < n → n < 2 ^ 64 →
      (n ≤ limit % 2 ^ 64 - occupancy % 2 ^ 64 ↔ occupancy + n ≤ limit)) ↔
      WrapAlike limit occupancy := by
  unfold WrapAlike
  constructor
  · intro h
    by_contra hne
    rw [not_or, not_and_or] at hne
    rcases Nat.lt_or_ge occupancy limit with hlt | hge
    · -- the limit wraps once more, so what is left is too little by one at least
      have hmore := h (limit % 2 ^ 64 - occupancy % 2 ^ 64 + 1) (by omega) (by omega)
      omega
    · have hone := h 1 (by omega) (by omega)
      omega
  · intro h n hpos hn
    omega

/-- In every run of the ledger, with any arguments and any allowance: `reserve` on a
registered backend admits exactly what fits by the exact amounts if and only if the
limit and the occupancy wrap alike. -/
theorem reserve_admits_iff (allowance : UInt64) (ops : List LedgerOp) {b : StorageBackendId}
    {c : BackendCapacity}
    (hc : (Runs.run Tallied.step (Tallied.fresh allowance) ops).ledger.backends.lookup b =
      some c) :
    let s := Runs.run Tallied.step (Tallied.fresh allowance) ops
    (∀ n gen owner reason, 0 < n →
      ((s.ledger.reserve b n gen owner reason).1.toOption.isSome = true ↔
        (s.tally b).reserved + (s.tally b).committed + n.toNat ≤
          c.freeBytes.toNat + allowance.toNat)) ↔
      WrapAlike (c.freeBytes.toNat + allowance.toNat) (s.tally b).total := by
  intro s
  obtain ⟨hmatches, hfresh, hallowance⟩ := Tallied.matches_run allowance ops
  have hroom := toNat_headroom (hmatches b c hc) s.ledger
  rw [show s.ledger.overcommitAllowance = allowance from hallowance] at hroom
  have hfree := c.freeBytes.toNat_lt
  have hlimit := allowance.toNat_lt
  rw [← room_exact_iff (by omega)]
  have hadmits : ∀ {n : UInt64}, 0 < n → ∀ gen owner reason,
      (s.ledger.reserve b n gen owner reason).1.toOption.isSome = true ↔
        n.toNat ≤ (c.freeBytes.toNat + allowance.toNat) % 2 ^ 64 - (s.tally b).total % 2 ^ 64 := by
    intro n hpos gen owner reason
    rw [hfresh.reserve_iff hc hpos gen owner reason, UInt64.le_iff_toNat_le, hroom]
  constructor
  · intro h n hpos hn
    have htoNat : (UInt64.ofNat n).toNat = n := by
      rw [UInt64.toNat_ofNat', Nat.mod_eq_of_lt hn]
    have hpos' : 0 < UInt64.ofNat n := by
      rw [UInt64.lt_iff_toNat_lt, htoNat]
      exact hpos
    have hexact := h (UInt64.ofNat n) default default [] hpos'
    rw [hadmits hpos', htoNat] at hexact
    exact hexact
  · intro h n gen owner reason hpos
    rw [hadmits hpos]
    exact h n.toNat (UInt64.lt_iff_toNat_lt.mp hpos) n.toNat_lt

/-- A backend with one free byte, on which `2 ^ 64` committed bytes are reported. -/
def overfullOps : List LedgerOp :=
  [.registerBackend ⟨1⟩ { freeBytes := 1 }, .addCommitted ⟨1⟩ 0x8000000000000000,
    .addCommitted ⟨1⟩ 0x8000000000000000]

/-- The committed bytes wrap to none, and another byte is admitted. -/
theorem reserve_overcommits :
    let s := Runs.run Tallied.step (Tallied.fresh 0) overfullOps
    ∃ c, s.ledger.backends.lookup ⟨1⟩ = some c ∧
      (s.ledger.reserve ⟨1⟩ 1 default default []).1.toOption.isSome = true ∧
      ¬(s.tally ⟨1⟩).reserved + (s.tally ⟨1⟩).committed + (1 : UInt64).toNat ≤
        c.freeBytes.toNat + (0 : UInt64).toNat :=
  ⟨{ freeBytes := 1 }, by decide +kernel, by decide +kernel, by decide +kernel⟩

/-- Before the second report the amounts fit, and admission is exact. -/
theorem reserve_admits_small :
    let s := Runs.run Tallied.step (Tallied.fresh 0) (overfullOps.take 2)
    ∀ n gen owner reason, 0 < n →
      ((s.ledger.reserve ⟨1⟩ n gen owner reason).1.toOption.isSome = true ↔
        (s.tally ⟨1⟩).reserved + (s.tally ⟨1⟩).committed + n.toNat ≤ 1 + 0) :=
  (reserve_admits_iff 0 (overfullOps.take 2) (b := ⟨1⟩)
    (c := { freeBytes := 1, committedBytes := 0x8000000000000000 }) (by decide +kernel)).mpr
    (.inl (by decide +kernel))

end ReservationLedger

end StorageFabric
