import StorageFabric.Runtime.Commits
import StorageFabric.Runtime.Interleaving

/-!
The counters of the accounting that stand for something else in the state.

The chunk loop counts the blobs, the commit of a reservation counts the placement,
and an eviction counts it out again. No other part of the library touches these
counters.
-/

namespace StorageFabric

/-- The counters of blobs, of placements and of reservations. -/
structure Counters where
  physicalBlobs : UInt64
  physicalBytes : UInt64
  deduplicatedBytes : UInt64
  activePlacements : UInt64
  reservedBytes : UInt64
  committedBytes : UInt64

/-- The counters after the commit of a reservation, whether or not the placement
could be made after it. -/
def Counters.commit (placed : Bool) (k : Counters) : Counters :=
  { k with
    activePlacements := if placed then k.activePlacements + 1 else k.activePlacements
    reservedBytes := k.reservedBytes - 1
    committedBytes := k.committedBytes + 1 }

def AccountingTotals.counters (a : AccountingTotals) : Counters :=
  ⟨a.physicalBlobs, a.physicalBytes, a.deduplicatedBytes, a.activePlacements, a.reservedBytes,
    a.committedBytes⟩

namespace Fabric

variable {β : Type}

def counters (f : Fabric β) : Counters := f.accounting.counters

/-- The two states differ in the accounting only, and not in these counters. -/
structure Idle (f g : Fabric β) : Prop where
  rest : g = { f with accounting := g.accounting }
  counters : g.counters = f.counters

theorem Idle.refl (f : Fabric β) : Idle f f := ⟨rfl, rfl⟩

theorem Idle.views {f g : Fabric β} (h : Idle f g) : SameViews f g := by
  rw [h.rest]
  exact ⟨rfl, rfl, rfl⟩

/-- How a part of a publication leaves the counters `k`: its guard is disarmed
exactly if it has committed. -/
def Counts (guard : ReservationGuard) (k : Counters)
    (out : Result PlacementRecord × ReservationGuard × Fabric β) : Prop :=
  (out.2.1 = { guard with armed := false } ∧
    out.2.2.counters = k.commit out.1.toOption.isSome) ∨
  (out.2.1 = guard ∧ out.2.2.counters = k)

theorem commitPlacement_counts (f : Fabric β) (guard : ReservationGuard) (obj : ObjectDescriptor)
    (backend : StorageBackendId) (auth : AuthorityEnvelope) (opts : PublishOptions)
    (man : Manifest) :
    Counts guard f.counters (f.commitPlacement guard obj backend auth opts man) := by
  unfold commitPlacement
  simp only [allocPlacementId, allocReplicaId]
  cases f.backendDescriptors.lookup backend with
  | none => exact .inr ⟨rfl, rfl⟩
  | some desc =>
      dsimp only
      cases f.tiers.lookup desc.tier with
      | none => exact .inr ⟨rfl, rfl⟩
      | some t =>
          dsimp only
          by_cases hid : (⟨f.placementCounter⟩ : PlacementId) ∈ f.placements
          · simp only [hid, if_true]
            exact .inr ⟨rfl, rfl⟩
          · simp only [hid, if_false]
            by_cases hst : (guard.commit f.reservations ⟨f.placementCounter⟩).1.isOk = true
            · have hguard : (guard.commit f.reservations ⟨f.placementCounter⟩).2.1 =
                  { guard with armed := false } := if_pos hst
              simp only [hst, hguard, account]
              cases f.catalog.lookup obj.id <;> exact .inl ⟨rfl, rfl⟩
            · have hguard : (guard.commit f.reservations ⟨f.placementCounter⟩).2.1 = guard :=
                if_neg hst
              simp only [hst, hguard]
              exact .inr ⟨rfl, rfl⟩

section Backend

variable [StorageBackend β]

theorem putOn_eq (f : Fabric β) (id : StorageBackendId) (data key : Bytes) :
    ∃ t, (f.putOn id data key).2 = { f with backends := t } := by
  unfold putOn
  cases f.backends.lookup id with
  | none => exact ⟨f.backends, rfl⟩
  | some be => exact ⟨_, rfl⟩

theorem counters_putOn (f : Fabric β) (id : StorageBackendId) (data key : Bytes) :
    (f.putOn id data key).2.counters = f.counters := by
  unfold putOn
  cases f.backends.lookup id <;> rfl

theorem counters_chunkLoop (backend : StorageBackendId) (dedupe : Bool) (chunk turns offset : Nat)
    (rest : Bytes) (f : Fabric β) :
    ∃ blobs bytes saved, (chunkLoop backend dedupe chunk turns offset rest f).2.counters =
      { f.counters with
        physicalBlobs := blobs, physicalBytes := bytes, deduplicatedBytes := saved } := by
  refine chunkLoop_invariant (I := fun g => ∃ blobs bytes saved, g.counters =
    { f.counters with
      physicalBlobs := blobs, physicalBytes := bytes, deduplicatedBytes := saved }) ?_ _ _ _ _ _
    ⟨_, _, _, rfl⟩
  rintro offset slice g ⟨blobs, bytes, saved, hg⟩
  have hput := counters_putOn g.allocBlobId.2 backend slice (blobKey ⟨g.blobCounter⟩)
  obtain ⟨blob, -, -, heq⟩ | ⟨s, -, heq⟩ | ⟨n, -, heq⟩ :=
    chunkStep_cases backend dedupe offset slice g
  · rw [heq]
    refine ⟨blobs, bytes, saved + UInt64.ofNat slice.length, ?_⟩
    show { g.counters with
      deduplicatedBytes := g.counters.deduplicatedBytes + UInt64.ofNat slice.length } = _
    rw [hg]
  · rw [heq]
    exact ⟨blobs, bytes, saved, hput.trans hg⟩
  · rw [heq]
    generalize (g.allocBlobId.2.putOn backend slice (blobKey ⟨g.blobCounter⟩)).2 = k at hput ⊢
    refine ⟨blobs + 1, bytes + UInt64.ofNat slice.length, saved, ?_⟩
    show { k.counters with
      physicalBlobs := k.counters.physicalBlobs + 1
      physicalBytes := k.counters.physicalBytes + UInt64.ofNat slice.length } = _
    rw [hput.trans hg]

theorem publishReserved_counts (f : Fabric β) (guard : ReservationGuard) (c : Call)
    (auth : AuthorityEnvelope) {rc : Result (List ChunkDescriptor)} {g : Fabric β}
    (hloop : chunkLoop c.backend c.opts.dedupe (chunkLength c.obj c.opts) c.content.length 0
      c.content f.allocManifestId.2 = (rc, g)) :
    Counts guard g.counters
      (f.publishReserved guard c.obj c.content c.backend auth c.opts) := by
  unfold publishReserved
  simp only [hloop]
  cases rc with
  | error s => exact .inr ⟨rfl, rfl⟩
  | ok chunks =>
      dsimp only
      split
      · exact .inr ⟨rfl, rfl⟩
      · split
        · exact .inr ⟨rfl, rfl⟩
        · split
          · exact .inr ⟨rfl, rfl⟩
          · exact commitPlacement_counts _ _ _ _ _ _ _

theorem publishCall_of_refuses {f : Fabric β} {c : Call} (h : f.Refuses c) :
    ∃ ledger stale, (f.publishCall c).2 =
      { f with
        reservations := ledger
        accounting := { f.accounting with staleRejections := stale } } := by
  have hout := publishCall_outcome f c
  generalize (f.publishCall c).1 = r at hout
  generalize (f.publishCall c).2 = f' at hout
  cases hout with
  | refused s ledger stale _ => exact ⟨ledger, stale, rfl⟩
  | aborted s res ledger start rc g f' hstart _ => exact absurd h hstart.accepted
  | published res ledger start chunks desc t g f' hstart _ => exact absurd h hstart.accepted

theorem counters_of_accepts {f : Fabric β} {c : Call} (h : ¬f.Refuses c) :
    (f.publishCall c).2.counters = (f.storeChunks c).2.counters ∨
    (f.publishCall c).2.counters =
      (f.storeChunks c).2.counters.commit (f.publishCall c).1.toOption.isSome := by
  obtain ⟨res, -, heq⟩ := publishCall_accepted h
  rw [heq]
  obtain ⟨-, hcounts⟩ | ⟨-, hcounts⟩ := publishReserved_counts (f.holding c) { res } c
    ((f.holding c).publishAuthority c.opts) (rfl : _ = ((f.storeChunks c).1, (f.storeChunks c).2))
  · exact .inr hcounts
  · exact .inl hcounts

theorem blobView_of_accepts {f : Fabric β} {c : Call} (h : ¬f.Refuses c) :
    (f.publishCall c).2.blobView = (f.storeChunks c).2.blobView := by
  obtain ⟨res, -, heq⟩ := publishCall_accepted h
  rw [heq]
  obtain ⟨s, guard', f', hout, habort⟩ | ⟨chunks, desc, t, f', -, hout, hpub⟩ :=
    publishReserved_cases (f.holding c) { res } c
      (rfl : _ = ((f.storeChunks c).1, (f.storeChunks c).2))
  · rw [hout]
    exact habort.blobs
  · rw [hout]
    exact hpub.blobs

/-- On a quiet ledger the commit is counted exactly if the publication gets to it, and
the totals of the ledger follow. -/
theorem publishCall_counts {f : Fabric β} (h : f.reservations.Quiet) {c : Call}
    (haccepted : ¬f.Refuses c) :
    (f.publishCall c).2.reservations.totalReserved = f.reservations.totalReserved ∧
    ((f.Commits c ∧
        (f.publishCall c).2.reservations.totalCommitted =
          f.reservations.totalCommitted + c.obj.logicalSize ∧
        (f.publishCall c).2.counters =
          (f.storeChunks c).2.counters.commit (f.publishCall c).1.toOption.isSome) ∨
      (¬f.Commits c ∧
        (f.publishCall c).2.reservations.totalCommitted = f.reservations.totalCommitted ∧
        (f.publishCall c).2.counters = (f.storeChunks c).2.counters)) := by
  obtain ⟨res, cap, hadmitted, hresult, haccounting, hends⟩ := publishCall_ends h haccepted
  have hcounts := publishReserved_counts (f.holding c) { res } c
    ((f.holding c).publishAuthority c.opts) (rfl : _ = ((f.storeChunks c).1, (f.storeChunks c).2))
  have hcounters : (f.publishCall c).2.counters = _ :=
    congrArg AccountingTotals.counters haccounting
  have hback : f.reservations.totalReserved + res.bytes - res.bytes =
      f.reservations.totalReserved := UInt64.add_sub_cancel _ _
  rw [hcounters, hresult]
  obtain ⟨hcommits, hguard, hledger, -⟩ | ⟨hcommits, hguard, hledger, -⟩ := hends
  · rw [hledger]
    refine ⟨hback, .inl ⟨hcommits, ?_, ?_⟩⟩
    · show f.reservations.totalCommitted + res.bytes = _
      rw [hadmitted.bytes]
    · obtain ⟨-, hcounts⟩ | ⟨hsame, -⟩ := hcounts
      · exact hcounts
      · rw [hguard] at hsame
        cases hsame
  · rw [hledger]
    refine ⟨hback, .inr ⟨hcommits, rfl, ?_⟩⟩
    obtain ⟨hdisarmed, -⟩ | ⟨-, hcounts⟩ := hcounts
    · rw [hguard] at hdisarmed
      cases hdisarmed
    · exact hcounts

/-! ### Operations -/

theorem read_idle (f : Fabric β) (object : ObjectId) (placement : Option PlacementId) :
    Idle f (f.read object placement).2 := by
  unfold read
  cases f.lookupForRead object placement with
  | error s => exact .refl f
  | ok found =>
      dsimp only
      split
      · exact ⟨rfl, rfl⟩
      · split
        · exact ⟨rfl, rfl⟩
        · split
          · exact ⟨rfl, rfl⟩
          · refine ⟨rfl, ?_⟩
            dsimp only [account, counters]
            split <;> rfl

theorem verify_idle (f : Fabric β) (placement : PlacementId) :
    Idle f (f.verify placement).2 := by
  unfold verify
  cases f.lookupForRead default (some placement) with
  | error s => exact .refl f
  | ok found =>
      dsimp only
      split
      · exact .refl f
      · split
        · exact .refl f
        · split
          · exact .refl f
          · split <;> exact ⟨rfl, rfl⟩

theorem replicateCall_idle {f g : Fabric β} {source : PlacementRecord}
    {target : StorageBackendId} {opts : PublishOptions} {c : Call}
    (h : f.replicateCall source target opts = some (c, g)) : Idle f g := by
  unfold replicateCall at h
  cases hentry : f.catalog.lookup source.object with
  | none => simp [hentry] at h
  | some entry =>
      have hidle := read_idle f source.object (some source.id)
      rcases hread : f.read source.object (some source.id) with ⟨r, k⟩
      rw [hread] at hidle
      cases r with
      | error s => simp [hentry, hread] at h
      | ok data =>
          simp only [hentry, hread, Option.some.injEq, Prod.mk.injEq] at h
          exact h.2 ▸ hidle

theorem replicate_idle {f : Fabric β} {source : PlacementRecord} {target : StorageBackendId}
    {opts : PublishOptions} (h : f.replicateCall source target opts = none) :
    Idle f (f.replicate source target opts).2 := by
  unfold replicateCall at h
  unfold replicate
  cases hentry : f.catalog.lookup source.object with
  | none => exact .refl f
  | some entry =>
      have hidle := read_idle f source.object (some source.id)
      rcases hread : f.read source.object (some source.id) with ⟨r, k⟩
      rw [hread] at hidle
      cases r with
      | error s => exact hidle
      | ok data => simp [hentry, hread] at h

theorem call_idle {f g : Fabric β} {op : Op β} {c : Call} (h : f.call op = some (c, g)) :
    Idle f g := by
  cases op with
  | publishTo obj content backend opts =>
      cases h
      exact .refl f
  | publish score obj content opts =>
      rw [call] at h
      obtain ⟨c', -, heq⟩ := Option.map_eq_some_iff.mp h
      obtain ⟨-, rfl⟩ := Prod.mk.inj heq
      exact .refl f
  | replicate source target opts => exact replicateCall_idle h
  | move source target opts => exact replicateCall_idle h
  | _ => simp [call] at h

theorem counters_of_call {f g : Fabric β} {op : Op β} {c : Call} (h : f.call op = some (c, g)) :
    (f.exec op).counters = (g.publishCall c).2.counters := by
  obtain ⟨-, heq | ⟨source, -, -, heq⟩⟩ := exec_of_call h
  · rw [heq]
  · rw [heq]
    rfl

theorem counters_of_no_call {f : Fabric β} {op : Op β} (hcall : f.call op = none)
    (hevict : ∀ id, op = .evict id → (f.canEvict id).allowed = false) :
    (f.exec op).counters = f.counters := by
  cases op with
  | registerLocalBackend name storageClass be probe => rfl
  | registerSyntheticBackend name profile be => rfl
  | defineObject kind size content writer durability priority =>
      rw [exec]
      obtain ⟨-, obj, -, heq⟩ | ⟨-, s, n, -, heq⟩ :=
        f.defineObject_cases kind size content writer durability priority <;>
      · rw [heq]
        rfl
  | publishTo obj content backend opts => cases hcall
  | publish score obj content opts =>
      rcases planCall_eq score f obj content opts with ⟨c, hc, -⟩ | ⟨-, heq⟩
      · simp [call, hc] at hcall
      · rw [exec, heq]
  | replicate source target opts => exact (replicate_idle hcall).counters
  | move source target opts =>
      have hmove : (f.exec (.move source target opts)).counters =
          (f.replicate source target opts).2.counters := by
        rw [exec, move]
        rcases f.replicate source target opts with ⟨r, f'⟩
        cases r <;> rfl
      rw [hmove]
      exact (replicate_idle hcall).counters
  | evict id =>
      rw [exec, evict]
      cases hcheck : f.evictCheck id with
      | inl decision => rfl
      | inr e =>
          have hallowed := (allowed_canEvict_iff f id).mpr ⟨e, hcheck⟩
          rw [hevict id rfl] at hallowed
          cases hallowed
  | read object placement => exact (read_idle f object placement).counters
  | verify placement => exact (verify_idle f placement).counters
  | setAuthority authority => rfl
  | newCoordinatorEpoch => rfl

theorem blobView_of_no_call {f : Fabric β} {op : Op β} (hcall : f.call op = none) :
    ∃ backends refs, (f.exec op).blobView =
      { f.blobView with backends := backends, blobRefs := refs } ∧
      ((∀ id, op = .evict id → (f.canEvict id).allowed = false) → refs = f.blobRefs) := by
  have heffect := exec_effect f op
  generalize f.exec op = f' at heffect
  cases heffect with
  | silent _ f' hviews => exact ⟨_, _, hviews.blobs, fun _ => rfl⟩
  | registered _ t desc be f' _ _ _ _ hblobs => exact ⟨_, _, hblobs, fun _ => rfl⟩
  | defined _ obj f' _ _ _ _ hblobs => exact ⟨_, _, hblobs, fun _ => rfl⟩
  | duplicate _ f' _ _ _ hblobs => exact ⟨_, _, hblobs, fun _ => rfl⟩
  | called _ c g hcalled _ _ =>
      rw [hcall] at hcalled
      cases hcalled
  | moved _ source c g p hcalled _ _ _ _ =>
      rw [hcall] at hcalled
      cases hcalled
  | evicted id e hcheck =>
      refine ⟨_, _, blobView_evict f e, fun hevict => ?_⟩
      have hallowed := (allowed_canEvict_iff f id).mpr ⟨e, hcheck⟩
      rw [hevict id rfl] at hallowed
      cases hallowed

theorem counters_evict (f : Fabric β) (e : Eviction) :
    ∃ n, ((f.evictRecord e).evictCommit e).2.counters =
      { f.counters with activePlacements := n } := by
  have hmeta : ((f.evictRecord e).evictCommit e).2.metadata = f.metadata.evictMetadata e := by
    rw [metadata_evictCommit, evictRecord, metadata_removeOn]
  obtain ⟨n, hn⟩ : ∃ n, (f.metadata.evictMetadata e).counters =
      { f.counters with activePlacements := n } := by
    unfold evictMetadata markEvicted
    split
    · exact ⟨_, rfl⟩
    · exact ⟨f.counters.activePlacements, rfl⟩
  exact ⟨n, (congrArg counters hmeta).trans hn⟩

theorem counters_but_active {f : Fabric β} {op : Op β} (hcall : f.call op = none) :
    ∃ n, (f.exec op).counters = { f.counters with activePlacements := n } := by
  by_cases hevict : ∀ id, op = .evict id → (f.canEvict id).allowed = false
  · exact ⟨f.counters.activePlacements, counters_of_no_call hcall hevict⟩
  · simp only [not_forall, Bool.not_eq_false] at hevict
    obtain ⟨id, rfl, hallowed⟩ := hevict
    obtain ⟨e, hcheck⟩ := (allowed_canEvict_iff f id).mp hallowed
    obtain ⟨n, hn⟩ := counters_evict f e
    refine ⟨n, ?_⟩
    rw [exec, evict, hcheck]
    exact hn

end Backend

end Fabric

end StorageFabric
