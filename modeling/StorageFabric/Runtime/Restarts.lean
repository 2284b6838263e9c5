import StorageFabric.Runtime.Rebuild

/-!
The ledger beside the placements, across restarts.

The bytes that a backend has committed are those of its placements that are not
evicted, as long as every publication that commits also publishes. The ledger is not
saved, and a recovery does not rebuild it: the two still match afterwards only if the
placements that it brings count for nothing.
-/

namespace StorageFabric

namespace Op

variable {β : Type}

theorem Probed.committedBytes {op : Op β} (h : op.Probed) {cap : BackendCapacity}
    (hcap : op.capacity = some cap) : cap.committedBytes = 0 := by
  cases op with
  | registerLocalBackend name storageClass be probe =>
      obtain ⟨space, rfl⟩ := h
      cases space <;> cases hcap <;> rfl
  | registerSyntheticBackend name profile be =>
      cases hcap
      rfl
  | _ => cases hcap

end Op

namespace Fabric

variable {β : Type}

/-- The bytes of a placement that its backend has to hold. -/
def bytesOn (b : StorageBackendId) (p : PlacementRecord) : Nat :=
  if p.backend = b ∧ isEvicted p = false then p.physicalSize.toNat else 0

def placedOn (f : Fabric β) (b : StorageBackendId) : Nat := f.placements.sumBy (bytesOn b)

theorem bytesOn_of_isEvicted {b : StorageBackendId} {p : PlacementRecord}
    (h : isEvicted p = true) : bytesOn b p = 0 := by
  simp [bytesOn, h]

theorem bytesOn_self {p : PlacementRecord} (h : isEvicted p = false) :
    bytesOn p.backend p = p.physicalSize.toNat :=
  if_pos ⟨rfl, h⟩

theorem bytesOn_of_ne {b : StorageBackendId} {p : PlacementRecord} (h : b ≠ p.backend) :
    bytesOn b p = 0 :=
  if_neg fun hboth => h hboth.1.symm

/-- Every backend has committed the bytes placed on it, and those that the ledger
knows have been registered. -/
structure Matched (f : Fabric β) : Prop where
  committed : ∀ b, (f.reservations.committedOn b).toNat = f.placedOn b
  held : f.placements.All fun _ p => isEvicted p = false → p.backend ∈ f.reservations.backends
  drawn : ∀ b ∈ f.reservations.backends, b.value < f.backendCounter

theorem matched_empty : Matched ({} : Fabric β) where
  committed _ := rfl
  held := AList.all_empty
  drawn b hb := absurd hb (AList.notMem_empty b)

theorem Matched.congr {f g : Fabric β} (h : f.Matched)
    (hplacements : ∀ id, g.placements.lookup id = f.placements.lookup id)
    (hledger : ∀ b, g.reservations.backends.lookup b = f.reservations.backends.lookup b)
    (hcounter : f.backendCounter ≤ g.backendCounter) : g.Matched := by
  have hmem : ∀ b, b ∈ g.reservations.backends ↔ b ∈ f.reservations.backends := by
    intro b
    rw [← AList.lookup_isSome, hledger, AList.lookup_isSome]
  refine ⟨fun b => ?_, fun id p hp hkept => ?_, fun b hb => ?_⟩
  · rw [(ReservationLedger.usage_congr (hledger b)).2, h.committed, placedOn, placedOn,
      AList.sumBy_eq_of_lookup hplacements]
  · exact (hmem _).mpr (h.held id p (hplacements id ▸ hp) hkept)
  · exact Nat.lt_of_lt_of_le (h.drawn b ((hmem b).mp hb)) hcounter

theorem Matched.placedOn_eq_zero {f : Fabric β} (h : f.Matched) {b : StorageBackendId}
    (hb : b ∉ f.reservations.backends) : f.placedOn b = 0 := by
  rw [← h.committed, ReservationLedger.committedOn, AList.notMem_iff_lookup.mp hb]
  rfl

/-! ### What the operations keep -/

section Backend

variable [StorageBackend β]

/-- A publication commits as many bytes as it places, if the object is known or it
does not get to the commit. -/
theorem Matched.publishCall {f : Fabric β} (h : f.Matched) (hquiet : f.reservations.Quiet)
    (c : Call) (hc : c.obj.id ∈ f.catalog ∨ ¬f.Commits c) : (f.publishCall c).2.Matched := by
  obtain ⟨-, hsettles⟩ := publishCall_settles hquiet c
  have hcounter := (counters_publishCall f c).1
  have hout := publishCall_outcome f c
  generalize (f.publishCall c).1 = r at hout hsettles
  generalize (f.publishCall c).2 = f' at hout hsettles hcounter ⊢
  obtain ⟨hcommits, cap, hcap, -, hroom, hlookup, hknown⟩ | ⟨-, hfail, hlookup⟩ := hsettles
  -- the bytes were committed, so for a known object the placement was made
  · have hok := hknown.mpr (hc.resolve_right (not_not_intro hcommits))
    cases hout with
    | refused s ledger stale _ => cases hok
    | aborted s res ledger start rc g f' hstart _ => cases hok
    | published res ledger start chunks desc t g f' hstart hpub =>
        have hplacements : f'.placements =
            f.placements.insert ⟨f.placementCounter⟩ (f.placementOf c desc t) :=
          congrArg CatalogView.placements hpub.catalog
        have hmem : ∀ b ∈ f.reservations.backends, b ∈ f'.reservations.backends := by
          intro b hb
          rw [AList.mem_iff_lookup, hlookup]
          split
          · exact ⟨_, rfl⟩
          · exact AList.mem_iff_lookup.mp hb
        have hself : c.backend ∈ f.reservations.backends := AList.mem_iff_lookup.mpr ⟨cap, hcap⟩
        refine ⟨fun b => ?_, ?_, fun b hb => ?_⟩
        · rw [placedOn, hplacements, AList.sumBy_insert_of_notMem hpub.freshPlacement,
            ← placedOn, ← h.committed]
          by_cases hb : b = c.backend
          · have hfree := cap.freeBytes.toNat_lt
            have hplaced : bytesOn b (f.placementOf c desc t) = c.obj.logicalSize.toNat := by
              rw [hb]
              exact bytesOn_self (p := f.placementOf c desc t) rfl
            rw [hplaced, ReservationLedger.committedOn, ReservationLedger.committedOn, hlookup,
              if_pos hb, hb, hcap]
            -- the reservation was granted, so the sum does not wrap
            show (cap.committedBytes + c.obj.logicalSize).toNat =
              c.obj.logicalSize.toNat + cap.committedBytes.toNat
            rw [UInt64.toNat_add]
            omega
          · have hplaced : bytesOn b (f.placementOf c desc t) = 0 :=
              bytesOn_of_ne (p := f.placementOf c desc t) hb
            have hsame : f'.reservations.backends.lookup b = f.reservations.backends.lookup b := by
              rw [hlookup, if_neg hb]
            rw [hplaced, (ReservationLedger.usage_congr hsame).2, Nat.zero_add]
        · rw [hplacements]
          exact AList.All.insert (fun id p hp hkept => hmem _ (h.held id p hp hkept))
            fun _ => hmem _ hself
        · rw [hcounter]
          rw [AList.mem_iff_lookup, hlookup] at hb
          split at hb
          · next heq => exact heq ▸ h.drawn _ hself
          · exact h.drawn b (AList.mem_iff_lookup.mpr hb)
  · cases hout with
    | refused s ledger stale _ => exact h.congr (fun _ => rfl) hlookup (Nat.le_refl _)
    | aborted s res ledger start rc g f' hstart habort =>
        obtain ⟨m, n, -, -, hview⟩ := habort.catalog
        have hplacements : f'.placements = f.placements :=
          congrArg CatalogView.placements hview
        exact h.congr (fun _ => by rw [hplacements]) hlookup (Nat.le_of_eq hcounter.symm)
    | published res ledger start chunks desc t g f' hstart hpub => cases hfail

/-- A permitted eviction finds the bytes it gives back, and leaves the books matched. -/
theorem Matched.evict {f : Fabric β} (h : f.Matched) {id : PlacementId} {e : Eviction}
    (hcheck : f.evictCheck id = .inr e) :
    (f.reservations.removeCommitted e.record.backend e.record.physicalSize).1.isOk = true ∧
      ((f.evictRecord e).evictCommit e).2.Matched := by
  obtain ⟨-, hp, -, -, hevicted, -, -⟩ := evictCheck_inr hcheck
  have hkept : isEvicted e.record = false := decide_eq_false hevicted
  have hsize := bytesOn_self hkept
  obtain ⟨cap, hcap⟩ := AList.mem_iff_lookup.mp (h.held id e.record hp hkept)
  have hcommitted : f.reservations.committedOn e.record.backend = cap.committedBytes := by
    rw [ReservationLedger.committedOn, hcap]
  -- the placement is one of those whose bytes are committed there
  have hle : e.record.physicalSize ≤ cap.committedBytes := by
    have hsum := AList.le_sumBy hp (bytesOn e.record.backend)
    rw [hsize, ← placedOn, ← h.committed, hcommitted] at hsum
    exact hsum
  have hremoved := ReservationLedger.removeCommitted_ok hcap hle
  have hview := catalogView_evict hcheck
  have hplacements : ((f.evictRecord e).evictCommit e).2.placements =
      f.placements.modify id evictedRecord := congrArg CatalogView.placements hview
  have hcounter : ((f.evictRecord e).evictCommit e).2.backendCounter = f.backendCounter :=
    congrArg CatalogView.backendCounter hview
  have hledger := congrArg Books.reservations (books_evict f e)
  dsimp only [books] at hledger
  rw [hremoved] at hledger
  have hgone : ∀ b, bytesOn b (evictedRecord e.record) = 0 := fun b => bytesOn_of_isEvicted rfl
  refine ⟨by rw [hremoved]; rfl, fun b => ?_, ?_, fun b hb => ?_⟩
  · have hsum := AList.sumBy_modify hp (bytesOn b) evictedRecord
    rw [← hplacements, ← placedOn, ← placedOn, ← h.committed, hgone] at hsum
    rw [ReservationLedger.committedOn, hledger]
    simp only [AList.lookup_modify]
    by_cases hb : b = e.record.backend
    · rw [hb, hsize, hcommitted] at hsum
      rw [if_pos hb, hb, hcap]
      show (cap.committedBytes - e.record.physicalSize).toNat = _
      rw [UInt64.toNat_sub_of_le _ _ hle]
      omega
    · rw [bytesOn_of_ne hb, ReservationLedger.committedOn] at hsum
      rw [if_neg hb]
      exact hsum.symm
  · rw [hplacements]
    intro id' q hq hkept'
    obtain ⟨p, hp', rfl⟩ := AList.lookup_modify_eq_some.mp hq
    rw [hledger]
    refine AList.mem_modify.mpr ?_
    by_cases hid : id' = id
    · rw [if_pos hid] at hkept'
      cases hkept'
    · rw [if_neg hid] at hkept' ⊢
      exact h.held id' p hp' hkept'
  · rw [hledger] at hb
    rw [hcounter]
    exact h.drawn b (AList.mem_modify.mp hb)

theorem Matched.register {f : Fabric β} (h : f.Matched) {op : Op β} (hop : op.Probed)
    {cap : BackendCapacity} (hcap : op.capacity = some cap) : (f.exec op).Matched := by
  have hexec : (f.exec op).placements = f.placements ∧
      (f.exec op).backendCounter = f.backendCounter + 1 ∧
      (f.exec op).reservations.backends = f.reservations.backends.insert ⟨f.backendCounter⟩ cap := by
    cases op with
    | registerLocalBackend name storageClass be probe =>
        cases hcap
        exact ⟨rfl, rfl, rfl⟩
    | registerSyntheticBackend name profile be =>
        cases hcap
        exact ⟨rfl, rfl, rfl⟩
    | _ => cases hcap
  obtain ⟨hplacements, hcounter, hledger⟩ := hexec
  refine ⟨fun b => ?_, ?_, fun b hb => ?_⟩
  · rw [placedOn, hplacements, ← placedOn, ReservationLedger.committedOn, hledger,
      AList.lookup_insert_eq]
    by_cases hb : b = ⟨f.backendCounter⟩
    · -- the id is a new one, so nothing has been placed there
      have hnew : b ∉ f.reservations.backends := by
        rw [hb]
        exact fun hmem => Nat.lt_irrefl _ (h.drawn _ hmem)
      rw [if_pos hb, h.placedOn_eq_zero hnew]
      exact congrArg UInt64.toNat (hop.committedBytes hcap)
    · rw [if_neg hb]
      exact h.committed b
  · rw [hplacements]
    exact fun id p hp hkept => hledger ▸ (AList.mem_insert _).mpr (.inr (h.held id p hp hkept))
  · rw [hledger] at hb
    rw [hcounter]
    obtain rfl | hb := (AList.mem_insert _).mp hb
    · exact Nat.lt_succ_self _
    · exact Nat.lt_succ_of_lt (h.drawn b hb)

omit [StorageBackend β] in
theorem Matched.demote {f : Fabric β} (h : f.Matched) {id : PlacementId} {p : PlacementRecord}
    (hp : f.placements.lookup id = some p) (hkept : isEvicted p = false) :
    (f.demote id).Matched := by
  let stale : PlacementRecord → PlacementRecord := fun p => { p with lifecycle := .known .stale }
  have hplacements : (f.demote id).placements = f.placements.modify id stale := rfl
  have hsame : ∀ b, bytesOn b (stale p) = bytesOn b p := by
    intro b
    have hstale : isEvicted (stale p) = false := rfl
    simp only [bytesOn, hkept, hstale]
    rfl
  refine ⟨fun b => ?_, ?_, h.drawn⟩
  · have hsum := AList.sumBy_modify hp (bytesOn b) stale
    rw [hsame] at hsum
    rw [placedOn, hplacements]
    exact (h.committed b).trans (Nat.add_right_cancel hsum).symm
  · rw [hplacements]
    intro id' q hq hkept'
    obtain ⟨p', hp', rfl⟩ := AList.lookup_modify_eq_some.mp hq
    by_cases hid : id' = id
    · subst hid
      obtain rfl := Option.some.inj (hp.symm.trans hp')
      rw [if_pos rfl]
      exact h.held id' p hp hkept
    · rw [if_neg hid] at hkept' ⊢
      exact h.held id' p' hp' hkept'

/-- What an operation must keep to: no movement of an evicted placement, and no
publication that commits the bytes of an object which it does not know. -/
structure KeepsBooks (f : Fabric β) (op : Op β) : Prop where
  probed : op.Probed
  moves : demotes isEvicted f op = false
  publishes : ∀ c g, f.call op = some (c, g) → c.obj.id ∈ g.catalog ∨ ¬g.Commits c

theorem Matched.called {f g : Fabric β} (h : f.Matched) (hquiet : f.reservations.Quiet)
    {op : Op β} (hop : f.KeepsBooks op) {c : Call} (hcall : f.call op = some (c, g)) :
    (f.exec op).Matched := by
  obtain ⟨hviews, hexec⟩ := exec_of_call hcall
  have hbooks : g.reservations = f.reservations := congrArg Books.reservations (call_idle hcall).books
  have hplacements : g.placements = f.placements :=
    congrArg CatalogView.placements hviews.catalog
  have hcounter : g.backendCounter = f.backendCounter :=
    congrArg CatalogView.backendCounter hviews.catalog
  have hg : g.Matched := h.congr (fun _ => by rw [hplacements]) (fun _ => by rw [hbooks])
    (Nat.le_of_eq hcounter.symm)
  have hpub := hg.publishCall (hbooks ▸ hquiet) c (hop.publishes c g hcall)
  obtain heq | ⟨source, hmoves, hok, heq⟩ := hexec
  · rw [heq]
    exact hpub
  · -- the source is one of the old placements, and was not evicted
    have hkept : (f.placements.lookup source).any isEvicted = false := by
      have hdemotes := hop.moves
      rw [demotes, hmoves, created, hcall] at hdemotes
      simpa only [hok, Bool.true_and] using hdemotes
    obtain ⟨p, hp⟩ := AList.mem_iff_lookup.mp (source_mem_of_call hcall hmoves)
    rw [hp] at hkept
    have hstill : (g.publishCall c).2.placements.lookup source = some p := by
      obtain ⟨-, hsame⟩ | ⟨q, -, -, -, hnew, hinsert⟩ := placements_publishCall g c
      · rw [hsame, hplacements, hp]
      · rw [hinsert]
        have hold : g.placements.lookup source = some p := by rw [hplacements, hp]
        have hne : source ≠ q.id := fun heq =>
          hnew (heq ▸ AList.mem_iff_lookup.mpr ⟨p, hold⟩)
        rw [AList.lookup_insert_ne hne, hold]
    rw [heq]
    exact hpub.demote hstill hkept

theorem backendCounter_le_exec (f : Fabric β) (op : Op β) :
    f.backendCounter ≤ (f.exec op).backendCounter := by
  have heffect := exec_effect f op
  generalize f.exec op = f' at heffect
  cases heffect with
  | silent _ f' hviews => exact Nat.le_of_eq (congrArg CatalogView.backendCounter hviews.catalog).symm
  | registered _ t desc be f' _ _ hcatalog _ _ =>
      have hcounter : f'.backendCounter = f.backendCounter + 1 :=
        congrArg CatalogView.backendCounter hcatalog
      omega
  | defined _ obj f' _ _ hcatalog _ _ =>
      exact Nat.le_of_eq (congrArg CatalogView.backendCounter hcatalog).symm
  | duplicate _ f' _ hcatalog _ _ =>
      exact Nat.le_of_eq (congrArg CatalogView.backendCounter hcatalog).symm
  | called _ c g _ hviews _ =>
      have hcounter : g.backendCounter = f.backendCounter :=
        congrArg CatalogView.backendCounter hviews.catalog
      rw [(counters_publishCall g c).1, hcounter]
  | moved _ source c g p _ hviews _ _ _ =>
      have hcounter : g.backendCounter = f.backendCounter :=
        congrArg CatalogView.backendCounter hviews.catalog
      show f.backendCounter ≤ (g.publishCall c).2.backendCounter
      rw [(counters_publishCall g c).1, hcounter]
  | evicted id e hcheck =>
      exact Nat.le_of_eq (congrArg CatalogView.backendCounter (catalogView_evict hcheck)).symm

theorem Matched.exec {f : Fabric β} (h : f.Matched) (hquiet : f.reservations.Quiet) {op : Op β}
    (hop : f.KeepsBooks op) : (f.exec op).Matched := by
  cases hcall : f.call op with
  | some called => exact h.called hquiet hop hcall
  | none =>
      cases hevicts : f.evicts op with
      | some id =>
          cases op with
          | evict placement =>
              rw [evicts] at hevicts
              split at hevicts
              · next hallowed =>
                  obtain ⟨e, hcheck⟩ := (allowed_canEvict_iff f placement).mp hallowed
                  rw [Fabric.exec, Fabric.evict, hcheck]
                  exact (h.evict hcheck).2
              · cases hevicts
          | _ => cases hevicts
      | none =>
          -- neither a publication nor an eviction: the placements stay, and the ledger at most
          -- gains a backend
          obtain ⟨-, -, hplacements⟩ := placements_of_no_call hcall
          rw [hevicts] at hplacements
          have hbooked := exec_booked f op
          generalize hbooks : (f.exec op).books = books at hbooked
          cases hbooked with
          | same =>
              have hledger : (f.exec op).reservations = f.reservations :=
                congrArg Books.reservations hbooks
              exact h.congr (fun _ => by rw [hplacements]) (fun _ => by rw [hledger])
                (backendCounter_le_exec f op)
          | registered cap hcap => exact h.register hop.probed hcap
          | called c g hcalled _ =>
              rw [hcall] at hcalled
              cases hcalled
          | evicted id e heq hcheck =>
              rw [heq, evicts, if_pos ((allowed_canEvict_iff f id).mpr ⟨e, hcheck⟩)] at hevicts
              cases hevicts

end Backend

/-! ### Recovery -/

/-- The placements that a recovery adds take no room: they are evicted, or empty on a
backend that the ledger knows. -/
def Weightless (f : Fabric β) (snap : MetadataSnapshot) : Prop :=
  ∀ p ∈ snap.placements, p.id ∉ f.placements →
    isEvicted p = true ∨ p.physicalSize = 0 ∧ p.backend ∈ f.reservations.backends

theorem backendCounter_restore (f : Fabric β) (snap : MetadataSnapshot) (path : Bytes)
    (nonce : Nat) : (f.restore snap path nonce).backendCounter = f.backendCounter := by
  simp only [restore, downgradeBackends, account, rebuildBlobs]
  rw [foldl_recoverChunk]
  simp only [repopulate_eq]

theorem Matched.restore {f : Fabric β} (h : f.Matched) {snap : MetadataSnapshot}
    (hsnap : f.Weightless snap) (path : Bytes) (nonce : Nat) :
    (f.restore snap path nonce).Matched := by
  have hledger : (f.restore snap path nonce).reservations = f.reservations :=
    congrArg Books.reservations (books_restore f snap path nonce)
  obtain ⟨-, -, hplacements, -⟩ := restore_tables f snap path nonce
  refine ⟨fun b => ?_, fun id q hq hkept => ?_, fun b hb => ?_⟩
  · rw [hledger, placedOn, hplacements, repopulate_eq]
    refine (h.committed b).trans (AList.sumBy_emplaceAll fun p hp hnew => ?_).symm
    obtain hevicted | ⟨hzero, -⟩ := hsnap p hp hnew
    · exact bytesOn_of_isEvicted hevicted
    · rw [bytesOn, hzero]
      exact ite_self 0
  · rw [hledger]
    rw [lookup_placements_restore] at hq
    cases hold : f.placements.lookup id with
    | some p =>
        rw [hold] at hq
        obtain rfl := Option.some.inj hq
        exact h.held id p hold hkept
    | none =>
        rw [hold, Option.none_or] at hq
        have hfound := List.find?_some hq
        have hid : q.id = id := of_decide_eq_true hfound
        have hnew : q.id ∉ f.placements := by
          rw [hid]
          exact AList.notMem_iff_lookup.mpr hold
        obtain hevicted | ⟨-, hknown⟩ := hsnap q (List.mem_of_find?_eq_some hq) hnew
        · rw [hkept] at hevicted
          cases hevicted
        · exact hknown
  · rw [backendCounter_restore]
    exact h.drawn b (hledger ▸ hb)

end Fabric

/-! ### Every process -/

namespace Host

variable {β : Type} [StorageBackend β]

/-- The operation keeps the books, and a recovery brings nothing that they miss. -/
def KeepsBooks (h : Host β) : HostOp β → Prop
  | .exec op => h.fabric.KeepsBooks op
  | .recover path _ => ∀ snap, Fabric.recorded h.files path = some snap → h.fabric.Weightless snap
  | _ => True

theorem matched_step {h : Host β} (hf : h.fabric.Matched ∧ h.fabric.Tidy) {op : HostOp β}
    (hop : h.KeepsBooks op) : (h.step op).fabric.Matched ∧ (h.step op).fabric.Tidy := by
  obtain ⟨hmatched, htidy⟩ := hf
  refine fabric_step (I := fun f => f.Matched ∧ f.Tidy) ⟨hmatched, htidy⟩
    ⟨Fabric.matched_empty, Fabric.tidy_empty⟩ ?_ ?_ ?_
  · rintro op rfl
    exact ⟨hmatched.exec htidy.quiet hop, htidy.exec hop.probed⟩
  · intro last
    exact ⟨hmatched.congr (fun _ => rfl) (fun _ => rfl) (Nat.le_refl _), htidy.congr rfl⟩
  · rintro path nowNs snap nonce rfl hsnap
    exact ⟨hmatched.restore (hop snap hsnap) path nonce,
      htidy.congr (Fabric.books_restore h.fabric snap path nonce)⟩

end Host

namespace Fabric

variable {β : Type} [StorageBackend β]

/-- In every history of a process whose steps keep the books: every backend has
committed the bytes of its placements that are not evicted, and a permitted eviction
finds the bytes that it removes at its end. -/
theorem ledger_matches (ops : List (HostOp β))
    (hops : Runs.Along Host.step Host.KeepsBooks {} ops) :
    let f := (Runs.run Host.step {} ops).fabric
    (∀ b, (f.reservations.committedOn b).toNat = f.placedOn b) ∧
      ∀ id e, f.evictCheck id = .inr e →
        (((f.evictRecord e).markEvicted e.placement).reservations.removeCommitted
          e.record.backend e.record.physicalSize).1.isOk = true := by
  intro f
  have hf : f.Matched :=
    (Runs.invariant (I := fun h : Host β => h.fabric.Matched ∧ h.fabric.Tidy)
      (fun _ _ hf hop => Host.matched_step hf hop) ⟨matched_empty, tidy_empty⟩ hops).1
  refine ⟨hf.committed, fun id e hcheck => ?_⟩
  have hledger : ((f.evictRecord e).markEvicted e.placement).reservations = f.reservations := by
    have hrecord : (f.evictRecord e).reservations = f.reservations := by
      unfold evictRecord removeOn
      split <;> rfl
    unfold markEvicted
    split <;> exact hrecord
  rw [hledger]
  exact (hf.evict hcheck).1

theorem keepsBooks_own {f : Fabric β} (hf : Recorded f) {path : Bytes} (hkeeps : f.Keeps path)
    (nowNs : UInt64) :
    Runs.Along Host.step Host.KeepsBooks ⟨f, ∅⟩ [.save path .none, .recover path nowNs] := by
  refine ⟨trivial, fun snap hsnap p hp hnew => ?_, trivial⟩
  have hfile : recorded (f.save path .none ∅).2.2 path = some f.snapshot :=
    recorded_saved hkeeps.1 (distinct_snapshot hf.identified hf.keyed) hkeeps.short hkeeps.2.2
  obtain rfl : f.snapshot = snap := Option.some.inj (hfile.symm.trans hsnap)
  obtain ⟨last, hlast⟩ := Host.fabric_save f path .none ∅
  have hnew' : p.id ∉ (f.save path .none ∅).2.1.placements := hnew
  rw [hlast] at hnew'
  obtain ⟨id, hid⟩ := AList.mem_values.mp hp
  refine absurd (AList.mem_iff_lookup.mpr ⟨p, ?_⟩) hnew'
  rw [hf.identified.placement_id id p hid]
  exact hid

theorem keepsBooks_of_no_call {f : Fabric β} {op : Op β} (hprobed : op.Probed)
    (hcall : f.call op = none) : f.KeepsBooks op where
  probed := hprobed
  moves := by
    rw [demotes, created, hcall]
    cases op.moves <;> rfl
  publishes c g h := by
    rw [hcall] at h
    cases h

theorem keepsBooks_publishTo {f : Fabric β} {obj : ObjectDescriptor} {content : Bytes}
    {backend : StorageBackendId} {opts : PublishOptions} (h : obj.id ∈ f.catalog) :
    f.KeepsBooks (.publishTo obj content backend opts) where
  probed := trivial
  moves := rfl
  publishes c g hcall := by
    cases hcall
    exact .inl h

/-- The small store publishes, saves and recovers its own file. -/
theorem ledger_matches_small :
    let f := (Runs.run Host.step {} ((Small.opening ++ [Small.publication]).map .exec ++
      [.save (ascii "m") .none, .recover (ascii "m") 0])).fabric
    (∀ b, (f.reservations.committedOn b).toNat = f.placedOn b) ∧
      ∀ id e, f.evictCheck id = .inr e →
        (((f.evictRecord e).markEvicted e.placement).reservations.removeCommitted
          e.record.backend e.record.physicalSize).1.isOk = true := by
  refine ledger_matches _ (Runs.along_append.mpr ⟨?_, ?_⟩)
  · refine ⟨keepsBooks_of_no_call trivial rfl, keepsBooks_of_no_call trivial rfl,
      keepsBooks_of_no_call trivial rfl, keepsBooks_publishTo ?_, trivial⟩
    decide +kernel
  · rw [Host.run_exec]
    have hkeeps : publishedStore.Keeps (ascii "m") := by decide +kernel
    exact keepsBooks_own (recorded_run (Small.opening ++ [Small.publication])) hkeeps 0

/-- A new process with the same backend recovers the file: the placement is there, and
the ledger has committed nothing. -/
theorem ledger_forgets :
    let f := (Runs.run Host.step {} ((Small.opening ++ [Small.publication]).map .exec ++
      ([.save (ascii "m") .none, .restart] ++ reopening.map .exec ++
        [.recover (ascii "m") 0]))).fabric
    (f.reservations.committedOn ⟨1⟩).toNat = 0 ∧ f.placedOn ⟨1⟩ = 1 := by
  intro f
  have hrun : publishedStore.Keeps (ascii "m") ∧ publishedStore.placedOn ⟨1⟩ = 1 ∧
      ((Runs.run exec {} reopening).reservations.committedOn ⟨1⟩).toNat = 0 := by decide +kernel
  obtain ⟨hkeeps, hplaced, hcommitted⟩ := hrun
  have hstored : Recorded publishedStore := recorded_run (Small.opening ++ [Small.publication])
  have hf : f = (Runs.run exec {} reopening).restore publishedStore.snapshot (ascii "m")
      (workerBootNonce 0) := by
    show (Runs.run Host.step {} _).fabric = _
    rw [Runs.run_append, Host.run_exec]
    exact fabric_reopened hstored hkeeps reopening 0
  obtain ⟨bes, hbes⟩ : ∃ bes, reopening.map Op.registers = bes.map some :=
    ⟨[(publishedStore.backends.lookup ⟨1⟩).getD {}], rfl⟩
  obtain ⟨hblank, -, -⟩ := run_registers (f := ({} : Fabric SyntheticBackend)) hbes
    unused_empty.blank numbered_empty
  have hledger := congrArg Books.reservations (books_restore (Runs.run exec {} reopening)
    publishedStore.snapshot (ascii "m") (workerBootNonce 0))
  dsimp only [books] at hledger
  rw [hf, hledger, placedOn,
    AList.sumBy_eq_of_lookup (hblank.lookup_placements _ _ hstored.identified)]
  exact ⟨hcommitted, hplaced⟩

end Fabric

end StorageFabric
