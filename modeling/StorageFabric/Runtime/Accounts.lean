import StorageFabric.Runtime.Counters
import StorageFabric.Runtime.Lifecycle
import StorageFabric.Runtime.Slices

/-!
What the counters of the accounting are to stand for, and when they do.

The two counters of the ledger count one for a reservation or a commit, not its
bytes, and nothing but the commit takes a reservation off; an eviction leaves the
committed and the physical ones as they are, and a movement the active placements.
So they stand for what they name in runs of objects of one byte, without failing
publications, evictions and movements of active placements.
-/

namespace StorageFabric

open StorageBackend

namespace Fabric

variable {β : Type}

def isActive (p : PlacementRecord) : Bool :=
  decide (p.lifecycle = .known .available) || decide (p.lifecycle = .known .degraded)

/-- The blobs with a positive reference count. -/
def liveBlobs (f : Fabric β) : List BlobId :=
  f.blobRefs.keys.filter fun b => decide (0 < RefCount.count f.blobRefs b)

def liveBytes (f : Fabric β) : Nat :=
  (f.liveBlobs.map fun b => ((f.blobSizes.lookup b).getD 0).toNat).sum

def activeCount (f : Fabric β) : Nat := f.placements.sumBy fun p => if isActive p then 1 else 0

/-- The counters are what they name. -/
structure AccountsExact (f : Fabric β) : Prop where
  reserved : f.accounting.reservedBytes = f.reservations.totalReserved
  committed : f.accounting.committedBytes = f.reservations.totalCommitted
  blobs : f.accounting.physicalBlobs.toNat = f.liveBlobs.length
  bytes : f.accounting.physicalBytes.toNat = f.liveBytes
  active : f.accounting.activePlacements.toNat = f.activeCount

/-- The counters that a publication of one byte adds to have room for it. -/
def CanCount (f : Fabric β) : Prop :=
  f.accounting.physicalBlobs.toNat + 1 < 2 ^ 64 ∧ f.accounting.physicalBytes.toNat + 1 < 2 ^ 64 ∧
    f.accounting.activePlacements.toNat + 1 < 2 ^ 64

instance (f : Fabric β) : Decidable f.CanCount := inferInstanceAs (Decidable (_ ∧ _ ∧ _))

/-! ### The blobs -/

/-- The references and the index of a store in which nothing was ever reclaimed, and
the counters of its blobs. -/
structure Physical (f : Fabric β) : Prop where
  referenced : f.blobRefs.All fun b n => 0 < n ∧ b.value < f.blobCounter
  indexed : f.blobByDigest.All fun _ b => b ∈ f.blobRefs
  blobs : f.accounting.physicalBlobs.toNat = f.liveBlobs.length
  bytes : f.accounting.physicalBytes.toNat = f.liveBytes

theorem physical_empty : Physical ({} : Fabric β) where
  referenced := AList.all_empty
  indexed := AList.all_empty
  blobs := rfl
  bytes := rfl

theorem Physical.congr {f g : Fabric β} (h : f.Physical) (hrefs : g.blobRefs = f.blobRefs)
    (hindex : g.blobByDigest = f.blobByDigest) (hsizes : g.blobSizes = f.blobSizes)
    (hcounter : f.blobCounter ≤ g.blobCounter)
    (hblobs : g.accounting.physicalBlobs = f.accounting.physicalBlobs)
    (hbytes : g.accounting.physicalBytes = f.accounting.physicalBytes) : g.Physical := by
  have hlive : g.liveBlobs = f.liveBlobs := by rw [liveBlobs, hrefs]; rfl
  refine ⟨fun b n hb => ?_, fun d b hb => ?_, ?_, ?_⟩
  · obtain ⟨hpos, hlt⟩ := h.referenced b n (hrefs ▸ hb)
    exact ⟨hpos, hlt.trans_le hcounter⟩
  · exact hrefs ▸ h.indexed d b (hindex ▸ hb)
  · rw [hblobs, hlive, h.blobs]
  · rw [hbytes, liveBytes, hlive, hsizes, h.bytes]
    rfl

theorem liveBlobs_eq {f : Fabric β} (h : f.blobRefs.All fun _ n => 0 < n) :
    f.liveBlobs = f.blobRefs.keys := by
  refine List.filter_eq_self.mpr fun b hb => decide_eq_true ?_
  obtain ⟨n, hn⟩ := AList.mem_iff_lookup.mp (AList.mem_keys.mpr hb)
  rw [RefCount.count_of_lookup hn]
  exact h b n hn

theorem Physical.liveBlobs_eq {f : Fabric β} (h : f.Physical) : f.liveBlobs = f.blobRefs.keys :=
  Fabric.liveBlobs_eq fun b n hb => (h.referenced b n hb).1

theorem Physical.reuseBlob {f : Fabric β} (h : f.Physical) {d : ContentDigest} {blob : BlobId}
    (hblob : f.blobByDigest.lookup d = some blob) (slice : Bytes) :
    (f.reuseBlob blob slice).Physical := by
  have hmem : blob ∈ f.blobRefs := h.indexed d blob hblob
  have hreferenced : (f.reuseBlob blob slice).blobRefs.All
      fun b n => 0 < n ∧ b.value < f.blobCounter := by
    obtain ⟨n, hn⟩ := AList.mem_iff_lookup.mp hmem
    exact h.referenced.insert ⟨Nat.succ_pos _, (h.referenced blob n hn).2⟩
  have hperm : (f.reuseBlob blob slice).liveBlobs.Perm f.liveBlobs := by
    rw [h.liveBlobs_eq, Fabric.liveBlobs_eq fun b n hb => (hreferenced b n hb).1]
    exact RefCount.perm_keys_retain hmem
  refine ⟨hreferenced, fun d b hb => ?_, ?_, ?_⟩
  · show b ∈ f.blobRefs.insert blob _
    exact (AList.mem_insert _).mpr (.inr (h.indexed d b hb))
  · rw [hperm.length_eq]
    exact h.blobs
  · have hsum : (f.reuseBlob blob slice).liveBytes = f.liveBytes := (hperm.map _).sum_eq
    rw [hsum]
    exact h.bytes

theorem Physical.recordBlob {f : Fabric β} (h : f.Physical) {blob : BlobId} {slice : Bytes}
    (hnew : blob ∉ f.blobRefs) (hcounter : blob.value < f.blobCounter)
    (hblobs : f.accounting.physicalBlobs.toNat + 1 < 2 ^ 64)
    (hbytes : f.accounting.physicalBytes.toNat + slice.length < 2 ^ 64) :
    (f.recordBlob blob slice).Physical := by
  have hreferenced : (f.recordBlob blob slice).blobRefs.All
      fun b n => 0 < n ∧ b.value < f.blobCounter := h.referenced.insert ⟨Nat.one_pos, hcounter⟩
  have hkeys : blob ∉ f.blobRefs.keys := fun hb => hnew (AList.mem_keys.mpr hb)
  have hlive : (f.recordBlob blob slice).liveBlobs = blob :: f.liveBlobs := by
    rw [h.liveBlobs_eq, Fabric.liveBlobs_eq fun b n hb => (hreferenced b n hb).1]
    show (f.blobRefs.insert blob 1).keys = _
    rw [AList.keys_insert, List.erase_of_not_mem hkeys]
  have hlength : (UInt64.ofNat slice.length).toNat = slice.length := by
    rw [UInt64.toNat_ofNat', Nat.mod_eq_of_lt (by omega)]
  refine ⟨hreferenced, fun d b hb => ?_, ?_, ?_⟩
  · show b ∈ f.blobRefs.insert blob 1
    obtain ⟨-, rfl⟩ | ⟨-, hb⟩ := AList.lookup_insert_eq_some.mp hb
    · exact (AList.mem_insert _).mpr (.inl rfl)
    · exact (AList.mem_insert _).mpr (.inr (h.indexed d b hb))
  · rw [hlive, List.length_cons, ← h.blobs]
    show (f.accounting.physicalBlobs + 1).toNat = _
    rw [UInt64.toNat_add, UInt64.toNat_one, Nat.mod_eq_of_lt hblobs]
  · -- no other blob has its size changed
    have hothers : f.liveBlobs.map (fun b =>
          (((f.blobSizes.insert blob (UInt64.ofNat slice.length)).lookup b).getD 0).toNat) =
        f.liveBlobs.map fun b => ((f.blobSizes.lookup b).getD 0).toNat := by
      refine List.map_congr_left fun b hb => ?_
      have hne : b ≠ blob := fun heq => hkeys (heq ▸ h.liveBlobs_eq ▸ hb)
      rw [AList.lookup_insert_ne hne]
    rw [liveBytes, hlive, List.map_cons, List.sum_cons]
    show (f.accounting.physicalBytes + UInt64.ofNat slice.length).toNat =
      (((f.blobSizes.insert blob (UInt64.ofNat slice.length)).lookup blob).getD 0).toNat +
        (f.liveBlobs.map fun b =>
          (((f.blobSizes.insert blob (UInt64.ofNat slice.length)).lookup b).getD 0).toNat).sum
    rw [hothers, AList.lookup_insert, Option.getD_some, UInt64.toNat_add, hlength,
      Nat.mod_eq_of_lt hbytes, h.bytes, liveBytes, Nat.add_comm]

variable [StorageBackend β]

/-- A turn of the chunk loop, when the counters have room for its slice. -/
theorem Physical.chunkStep {f : Fabric β} (h : f.Physical) (backend : StorageBackendId)
    (dedupe : Bool) (offset : Nat) {slice : Bytes}
    (hblobs : f.accounting.physicalBlobs.toNat + 1 < 2 ^ 64)
    (hbytes : f.accounting.physicalBytes.toNat + slice.length < 2 ^ 64) :
    (chunkStep backend dedupe offset slice f).2.Physical := by
  obtain ⟨blob, -, hblob, heq⟩ | ⟨s, -, heq⟩ | ⟨n, -, heq⟩ :=
    chunkStep_cases backend dedupe offset slice f
  · rw [heq]
    exact h.reuseBlob hblob slice
  · rw [heq]
    obtain ⟨t, ht⟩ := f.allocBlobId.2.putOn_eq backend slice (blobKey ⟨f.blobCounter⟩)
    rw [ht]
    exact h.congr rfl rfl rfl (Nat.le_succ _) rfl rfl
  · rw [heq]
    obtain ⟨t, ht⟩ := f.allocBlobId.2.putOn_eq backend slice (blobKey ⟨f.blobCounter⟩)
    rw [ht]
    have hput : ({ f.allocBlobId.2 with backends := t } : Fabric β).Physical :=
      h.congr rfl rfl rfl (Nat.le_succ _) rfl rfl
    have hnew : (⟨f.blobCounter⟩ : BlobId) ∉ f.blobRefs := fun hmem => by
      obtain ⟨n, hn⟩ := AList.mem_iff_lookup.mp hmem
      exact Nat.lt_irrefl _ (h.referenced _ n hn).2
    exact hput.recordBlob hnew (Nat.lt_succ_self _) hblobs hbytes

theorem chunkLoop_one {backend : StorageBackendId} {dedupe : Bool} {chunk offset : Nat}
    (hchunk : 0 < chunk) {content : Bytes} (hlength : content.length = 1) (f : Fabric β) :
    (chunkLoop backend dedupe chunk 1 offset content f).2 =
      (chunkStep backend dedupe offset content f).2 := by
  have hne : content ≠ [] := by
    rintro rfl
    cases hlength
  have htake : content.take chunk = content := List.take_of_length_le (by omega)
  rcases hturn : chunkStep backend dedupe offset content f with ⟨r, g⟩
  rw [← htake] at hturn
  cases r with
  | error s => rw [chunkLoop_error hne hturn]
  | ok c => rw [chunkLoop_ok hne hturn]; rfl

/-! ### One operation -/

/-- The condition under which an operation keeps the counters exact: it evicts nothing,
it does not take an active placement out of use, and what it publishes is refused, or
gets to the commit of its reservation with an object of one byte. -/
structure KeepsExact (f : Fabric β) (op : Op β) : Prop where
  registers : op.Probed
  evicts : ∀ id, op = .evict id → (f.canEvict id).allowed = false
  moves : f.demotes isActive op = false
  publishes : ∀ c g, f.call op = some (c, g) →
    g.Refuses c ∨ g.Commits c ∧ c.obj.logicalSize = 1 ∧ g.CanCount

omit [StorageBackend β] in
/-- The counters are exact for a store in which nothing was ever reclaimed. -/
structure Accounted (f : Fabric β) : Prop where
  tidy : f.Tidy
  physical : f.Physical
  reserved : f.accounting.reservedBytes = f.reservations.totalReserved
  committed : f.accounting.committedBytes = f.reservations.totalCommitted
  active : f.accounting.activePlacements.toNat = f.activeCount

omit [StorageBackend β] in
theorem accounted_empty : Accounted ({} : Fabric β) where
  tidy := tidy_empty
  physical := physical_empty
  reserved := rfl
  committed := rfl
  active := rfl

omit [StorageBackend β] in
theorem Accounted.exact {f : Fabric β} (h : f.Accounted) : f.AccountsExact :=
  ⟨h.reserved, h.committed, h.physical.blobs, h.physical.bytes, h.active⟩

omit [StorageBackend β] in
theorem Physical.of_view {f g : Fabric β} (h : f.Physical) {backends : Table StorageBackendId β}
    (hview : g.blobView = { f.blobView with backends := backends })
    (hblobs : g.accounting.physicalBlobs = f.accounting.physicalBlobs)
    (hbytes : g.accounting.physicalBytes = f.accounting.physicalBytes) : g.Physical := by
  obtain ⟨-, hindex, -, hrefs, hsizes, hcounter⟩ := BlobView.mk.inj hview
  exact h.congr hrefs hindex hsizes hcounter.ge hblobs hbytes

theorem Physical.storeChunks {f : Fabric β} (h : f.Physical) {c : Call}
    (hone : c.obj.logicalSize = 1) (hroom : f.CanCount) (haccepted : ¬f.Refuses c) :
    (f.storeChunks c).2.Physical := by
  have hsize : c.content.length = c.obj.logicalSize.toNat := size_of_accepts haccepted
  have hlength : c.content.length = 1 := by rw [hsize, hone]; rfl
  have hne : c.content ≠ [] := by
    intro hnil
    rw [hnil] at hlength
    cases hlength
  have hheld : (f.holding c).allocManifestId.2.Physical := h.congr rfl rfl rfl le_rfl rfl rfl
  rw [Fabric.storeChunks, hlength, chunkLoop_one (Call.chunkLength_pos hsize hne) hlength]
  refine hheld.chunkStep _ _ _ hroom.1 ?_
  rw [hlength]
  exact hroom.2.1

theorem Accounted.publishCall {f : Fabric β} (h : f.Accounted) {c : Call}
    (hcommits : f.Commits c) (hone : c.obj.logicalSize = 1) (hroom : f.CanCount) :
    (f.publishCall c).2.Accounted := by
  obtain ⟨hreserved, ⟨-, hcommitted, hcounters⟩ | ⟨hfails, -⟩⟩ :=
    publishCall_counts h.tidy.quiet hcommits.1
  · obtain ⟨blobs, bytes, saved, hloop⟩ := counters_chunkLoop c.backend c.opts.dedupe
      (chunkLength c.obj c.opts) c.content.length 0 c.content (f.holding c).allocManifestId.2
    have hstored : (f.storeChunks c).2.counters = _ := hloop
    have hphysical := h.physical.storeChunks hone hroom hcommits.1
    refine ⟨h.tidy.publishCall c, ?_, ?_, ?_, ?_⟩
    · exact hphysical.of_view (blobView_of_accepts hcommits.1)
        (congrArg Counters.physicalBlobs hcounters) (congrArg Counters.physicalBytes hcounters)
    · rw [hreserved, ← h.reserved]
      show (f.publishCall c).2.counters.reservedBytes = _
      rw [hcounters, hstored]
      exact UInt64.add_sub_cancel _ _
    · rw [hcommitted, hone, ← h.committed]
      show (f.publishCall c).2.counters.committedBytes = _
      rw [hcounters, hstored]
      rfl
    · have hactive : (f.publishCall c).2.accounting.activePlacements =
          if (f.publishCall c).1.toOption.isSome then f.accounting.activePlacements + 1
          else f.accounting.activePlacements := by
        show (f.publishCall c).2.counters.activePlacements = _
        rw [hcounters, hstored]
        rfl
      rw [hactive]
      obtain ⟨hnone, hsame⟩ | ⟨p, hsome, havailable, -, hnew, hinsert⟩ :=
        placements_publishCall f c
      · rw [hnone, activeCount, hsame]
        exact h.active
      · have hp : isActive p = true := by simp [isActive, havailable]
        rw [hsome, activeCount, hinsert, AList.sumBy_insert_of_notMem hnew, if_pos hp,
          Nat.add_comm, Option.isSome_some, if_pos rfl, UInt64.toNat_add, UInt64.toNat_one,
          Nat.mod_eq_of_lt hroom.2.2, h.active, activeCount]
  · exact absurd hcommits hfails

omit [StorageBackend β] in
/-- A placement that is not active changes its lifecycle for one that is not. -/
theorem Accounted.demote {f : Fabric β} (h : f.Accounted) {id : PlacementId}
    (hid : (f.placements.lookup id).any isActive = false) : (f.demote id).Accounted := by
  refine ⟨h.tidy.congr rfl, h.physical.congr rfl rfl rfl le_rfl rfl rfl, h.reserved, h.committed,
    ?_⟩
  rw [activeCount, Fabric.demote]
  cases hp : f.placements.lookup id with
  | none =>
      rw [AList.modify_of_notMem (AList.notMem_iff_lookup.mpr hp)]
      exact h.active
  | some p =>
      have hstale : isActive p = false := by simpa [hp] using hid
      have hafter : isActive { p with lifecycle := .known .stale } = false := rfl
      have hsum := AList.sumBy_modify hp (fun p => if isActive p then 1 else 0)
        (fun p => { p with lifecycle := .known .stale })
      rw [hstale, hafter] at hsum
      rw [Nat.add_right_cancel hsum]
      exact h.active

omit [StorageBackend β] in
theorem Accounted.congr {f g : Fabric β} (h : f.Accounted) (htidy : g.Tidy)
    (hreserved : g.reservations.totalReserved = f.reservations.totalReserved)
    (hcommitted : g.reservations.totalCommitted = f.reservations.totalCommitted)
    (hplacements : g.placements = f.placements) {backends : Table StorageBackendId β}
    (hview : g.blobView = { f.blobView with backends := backends })
    (hcounters : g.counters = f.counters) : g.Accounted := by
  refine ⟨htidy, h.physical.of_view hview (congrArg Counters.physicalBlobs hcounters)
    (congrArg Counters.physicalBytes hcounters), ?_, ?_, ?_⟩
  · rw [hreserved, ← h.reserved]
    exact congrArg Counters.reservedBytes hcounters
  · rw [hcommitted, ← h.committed]
    exact congrArg Counters.committedBytes hcounters
  · rw [activeCount, hplacements, ← activeCount, ← h.active]
    exact congrArg (fun k => k.activePlacements.toNat) hcounters

omit [StorageBackend β] in
theorem evicts_eq_none {f : Fabric β} {op : Op β}
    (h : ∀ id, op = .evict id → (f.canEvict id).allowed = false) : f.evicts op = none := by
  cases op with
  | evict id => exact if_neg (Bool.eq_false_iff.mp (h id rfl))
  | _ => rfl

theorem totals_of_no_call {f : Fabric β} {op : Op β} (hcall : f.call op = none)
    (hevict : ∀ id, op = .evict id → (f.canEvict id).allowed = false) :
    (f.exec op).reservations.totalReserved = f.reservations.totalReserved ∧
      (f.exec op).reservations.totalCommitted = f.reservations.totalCommitted := by
  have hbooked := exec_booked f op
  generalize hbooks : (f.exec op).books = books at hbooked
  have hledger : (f.exec op).reservations = books.reservations := congrArg Books.reservations hbooks
  rw [hledger]
  cases hbooked with
  | same => exact ⟨rfl, rfl⟩
  | registered cap hcap => exact ⟨rfl, rfl⟩
  | called c g hcalled hg =>
      rw [hcall] at hcalled
      cases hcalled
  | evicted id e hid hcheck =>
      have hallowed := (allowed_canEvict_iff f id).mpr ⟨e, hcheck⟩
      rw [hevict id hid] at hallowed
      cases hallowed

theorem Accounted.of_no_call {f : Fabric β} (h : f.Accounted) {op : Op β} (hop : f.KeepsExact op)
    (hcall : f.call op = none) : (f.exec op).Accounted := by
  obtain ⟨backends, refs, hview, hrefs⟩ := blobView_of_no_call hcall
  rw [hrefs hop.evicts] at hview
  obtain ⟨hreserved, hcommitted⟩ := totals_of_no_call hcall hop.evicts
  obtain ⟨-, -, hplacements⟩ := placements_of_no_call hcall
  rw [evicts_eq_none hop.evicts] at hplacements
  exact h.congr (h.tidy.exec hop.registers) hreserved hcommitted hplacements hview
    (counters_of_no_call hcall hop.evicts)

theorem Accounted.of_call {f g : Fabric β} (h : f.Accounted) {op : Op β} (hop : f.KeepsExact op)
    {c : Call} (hcall : f.call op = some (c, g)) : (g.publishCall c).2.Accounted := by
  have hidle := call_idle hcall
  have hg : g.Accounted := by
    have hrest := hidle.rest
    refine h.congr (h.tidy.congr ?_) ?_ ?_ ?_ hidle.views.blobs hidle.counters
    · rw [hrest]
      rfl
    all_goals rw [hrest]
  obtain hrefuses | ⟨hcommits, hone, hroom⟩ := hop.publishes c g hcall
  · obtain ⟨ledger, stale, heq⟩ := publishCall_of_refuses hrefuses
    have hledger : (g.publishCall c).2.reservations = g.reservations :=
      reservations_of_refuses hg.tidy.quiet hrefuses
    rw [heq] at hledger ⊢
    obtain rfl : ledger = g.reservations := hledger
    exact hg.congr (hg.tidy.congr rfl) rfl rfl rfl rfl rfl
  · exact hg.publishCall hcommits hone hroom

/-- The source of a movement is not active after the publication either. -/
theorem KeepsExact.source {f g : Fabric β} {op : Op β} (hop : f.KeepsExact op) {c : Call}
    (hcall : f.call op = some (c, g)) {id : PlacementId} (hmoves : op.moves = some id)
    (hok : (g.publishCall c).1.toOption.isSome = true) :
    ((g.publishCall c).2.placements.lookup id).any isActive = false := by
  obtain ⟨hplacements, hcreated, -, -⟩ := placements_of_call hcall
  have hmem : id ∈ f.placements := source_mem_of_call hcall hmoves
  have hsource : (f.placements.lookup id).any isActive = false := by
    have hmove := hop.moves
    rw [demotes, hmoves, hcreated, hok] at hmove
    exact hmove
  obtain ⟨hnone, -⟩ | ⟨p, -, -, -, hnew, hinsert⟩ := placements_publishCall g c
  · rw [hnone] at hok
    cases hok
  · rw [hplacements] at hnew
    have hne : id ≠ p.id := fun heq => hnew (heq ▸ hmem)
    rw [hinsert, AList.lookup_insert_ne hne, hplacements]
    exact hsource

theorem Accounted.exec {f : Fabric β} (h : f.Accounted) {op : Op β} (hop : f.KeepsExact op) :
    (f.exec op).Accounted := by
  cases hcall : f.call op with
  | none => exact h.of_no_call hop hcall
  | some called =>
      obtain ⟨c, g⟩ := called
      have hpub := h.of_call hop hcall
      obtain ⟨-, heq | ⟨source, hmoves, hok, heq⟩⟩ := exec_of_call hcall
      · rw [heq]
        exact hpub
      · rw [heq]
        exact hpub.demote (hop.source hcall hmoves hok)

/-- In every run whose operations meet the condition. -/
theorem accounts_exact {ops : List (Op β)} (hops : Runs.Along exec KeepsExact {} ops) :
    (Runs.run exec {} ops).AccountsExact :=
  (Runs.invariant (fun _ _ h hop => h.exec hop) accounted_empty hops).exact

theorem keepsExact_of_no_call {f : Fabric β} {op : Op β} (hop : op.Probed)
    (hevict : ∀ id, op = .evict id → (f.canEvict id).allowed = false) (hcall : f.call op = none) :
    f.KeepsExact op where
  registers := hop
  evicts := hevict
  moves := by
    rw [demotes, created, hcall]
    cases op.moves <;> rfl
  publishes c g hcalled := by
    rw [hcall] at hcalled
    cases hcalled

theorem keepsExact_publication {f : Fabric SyntheticBackend} (h : f.Tidy) (hroom : f.CanCount)
    (hok : (f.publishCall ⟨Small.object, [7], ⟨1⟩, { eagerVerify := false }⟩).1.toOption.isSome =
      true) : f.KeepsExact Small.publication where
  registers := trivial
  evicts id hid := by cases hid
  moves := rfl
  publishes c g hcall := by
    cases hcall
    exact .inr ⟨commits_of_isSome h.quiet hok, rfl, hroom⟩

/-- Two publications of the byte, which share its blob. -/
theorem accounts_exact_small :
    (Runs.run exec {} (Small.opening ++ [Small.publication, Small.publication])).AccountsExact := by
  have hopened : (Runs.run exec {} Small.opening).Tidy :=
    Runs.invariant (P := fun _ op => op.Probed) (fun _ _ h hop => h.exec hop) tidy_empty
      ⟨trivial, trivial, trivial, trivial⟩
  have hfirst := keepsExact_publication hopened (by decide +kernel) (by decide +kernel)
  have hsecond := keepsExact_publication (hopened.exec (hfirst.registers)) (by decide +kernel)
    (by decide +kernel)
  refine accounts_exact (Runs.along_append.mpr ⟨⟨?_, ?_, ?_, trivial⟩, hfirst, hsecond, trivial⟩)
  · exact keepsExact_of_no_call trivial (fun id hid => by cases hid) rfl
  · exact keepsExact_of_no_call trivial (fun id hid => by cases hid) rfl
  · exact keepsExact_of_no_call trivial (fun id hid => by cases hid) rfl

def twoByteOps : List (Op SyntheticBackend) :=
  [.registerSyntheticBackend (ascii "small") {} {},
    .setAuthority { epoch := ⟨1⟩ },
    .defineObject (.known .genericAiState) 2 [7, 8] {} {} (.known .normal),
    .publishTo
      (describeObject ⟨1⟩ (.known .genericAiState) 2 [7, 8] {} {} (.known .normal) default)
      [7, 8] ⟨1⟩ {}]

/-- The ledger has two bytes committed, the accounting one. -/
theorem accounts_not_exact : ¬(Runs.run exec {} twoByteOps).AccountsExact := by
  intro h
  have hrun : (Runs.run exec {} twoByteOps).accounting.committedBytes = 1 ∧
      (Runs.run exec {} twoByteOps).reservations.totalCommitted = 2 := by decide +kernel
  have hcommitted := h.committed
  rw [hrun.1, hrun.2] at hcommitted
  cases hcommitted

end Fabric

end StorageFabric
