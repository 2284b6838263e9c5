import Mathlib.Data.List.Dedup
import StorageFabric.Runtime.Durability

/-!
The redundant facts of the catalog, in every state a run without movements
reaches: the replica list, its counters, the placement list and the required
durability all agree with the placement records.

The counters are 32-bit words assigned from the length of a list, so they agree
up to multiples of 2^32.
-/

namespace StorageFabric

namespace Fabric

variable {β : Type}

/-- The entry of `o` agrees with the placement records. -/
structure Agrees (f : Fabric β) (o : ObjectId) (entry : CatalogEntry) : Prop where
  replicasOnce : (entry.replicaSet.replicas.map ReplicaInfo.id).Nodup
  replicas : ∀ r, r ∈ entry.replicaSet.replicas.map ReplicaInfo.id ↔
    ∃ p ∈ f.catalogView.availableOf o, p.replica = r
  actual : entry.replicaSet.actual.toNat = (f.catalogView.availableOf o).length % 2 ^ 32
  authoritative : entry.replicaSet.authoritativeReplicas = entry.replicaSet.actual
  domains : entry.replicaSet.distinctFailureDomains.toNat =
    ((f.catalogView.availableOf o).map f.catalogView.domainOf).dedup.length % 2 ^ 32
  listedOnce : entry.placements.Nodup
  listed : ∀ id, id ∈ entry.placements ↔ ∃ p, f.placements.lookup id = some p ∧ p.object = o
  state : entry.placements ≠ [] →
    entry.replicaSet.state = .known entry.replicaSet.computeState

theorem length_dedup_of_mem_iff {α : Type} [DecidableEq α] {l l' : List α}
    (h : ∀ a, a ∈ l ↔ a ∈ l') : l.dedup.length = l'.dedup.length := by
  have hperm : l.dedup.Perm l'.dedup := by
    rw [List.perm_ext_iff_of_nodup (List.nodup_dedup l) (List.nodup_dedup l')]
    intro a
    rw [List.mem_dedup, List.mem_dedup, h]
  exact hperm.length_eq

theorem mem_domains_iff {v : CatalogView} {o : ObjectId} {entry : CatalogEntry}
    (h : v.Exact o entry) (d : Bytes) :
    d ∈ entry.replicaSet.replicas.map ReplicaInfo.failureDomain ↔
      d ∈ (v.availableOf o).map v.domainOf := by
  simp only [List.mem_map]
  constructor
  · rintro ⟨r, hr, rfl⟩
    obtain ⟨id, p, hp, hobj, havail, hrep⟩ := (h.replicas r.id).mp (List.mem_map_of_mem hr)
    exact ⟨p, CatalogView.mem_availableOf.mpr ⟨⟨id, hp⟩, hobj, havail⟩,
      (h.domains r hr id p hp hrep).symm⟩
  · rintro ⟨p, hp, rfl⟩
    obtain ⟨⟨id, hid⟩, hobj, havail⟩ := CatalogView.mem_availableOf.mp hp
    obtain ⟨r, hr, hrep⟩ := List.mem_map.mp ((h.replicas p.replica).mpr
      ⟨id, p, hid, hobj, havail, rfl⟩)
    exact ⟨r, hr, h.domains r hr id p hid hrep.symm⟩

theorem agrees_of_inv {f : Fabric β} (h : f.catalogView.Inv) {o : ObjectId} {entry : CatalogEntry}
    (hentry : f.catalog.lookup o = some entry) : Agrees f o entry := by
  have hexact := h.exact o entry hentry
  have hactual : entry.replicaSet.actual = UInt32.ofNat entry.replicaSet.replicas.length :=
    (congrArg ReplicaSet.actual hexact.counted).symm
  have hauth : entry.replicaSet.authoritativeReplicas =
      UInt32.ofNat entry.replicaSet.replicas.length :=
    (congrArg ReplicaSet.authoritativeReplicas hexact.counted).symm
  have hdomains : entry.replicaSet.distinctFailureDomains =
      UInt32.ofNat (entry.replicaSet.replicas.map ReplicaInfo.failureDomain).dedup.length :=
    (congrArg ReplicaSet.distinctFailureDomains hexact.counted).symm
  exact
    { replicasOnce := hexact.replicasOnce
      replicas := fun r => by
        rw [hexact.replicas]
        constructor
        · rintro ⟨id, p, hp, hobj, havail, hrep⟩
          exact ⟨p, CatalogView.mem_availableOf.mpr ⟨⟨id, hp⟩, hobj, havail⟩, hrep⟩
        · rintro ⟨p, hp, hrep⟩
          obtain ⟨⟨id, hid⟩, hobj, havail⟩ := CatalogView.mem_availableOf.mp hp
          exact ⟨id, p, hid, hobj, havail, hrep⟩
      actual := by
        rw [hactual, UInt32.toNat_ofNat', hexact.length_replicas h.identified]
      authoritative := hauth.trans hactual.symm
      domains := by
        rw [hdomains, UInt32.toNat_ofNat', length_dedup_of_mem_iff (mem_domains_iff hexact)]
      listedOnce := hexact.listedOnce
      listed := hexact.listed
      state := fun hne => (congrArg ReplicaSet.state (hexact.state hne)).symm }

/-! ### The required durability over time -/

/-- Objects stay in the catalog and no required durability decreases. -/
def RequiresMore (f f' : Fabric β) : Prop :=
  ∀ o entry, f.catalog.lookup o = some entry → ∃ entry', f'.catalog.lookup o = some entry' ∧
    entry.replicaSet.required ≤ entry'.replicaSet.required

theorem RequiresMore.refl (f : Fabric β) : RequiresMore f f :=
  fun _ entry h => ⟨entry, h, UInt32.le_refl _⟩

theorem RequiresMore.trans {f g h : Fabric β} (hfg : RequiresMore f g) (hgh : RequiresMore g h) :
    RequiresMore f h := by
  intro o entry hentry
  obtain ⟨entry', hentry', hle⟩ := hfg o entry hentry
  obtain ⟨entry'', hentry'', hle'⟩ := hgh o entry' hentry'
  exact ⟨entry'', hentry'', UInt32.le_trans hle hle'⟩

theorem RequiresMore.of_catalog {f f' : Fabric β} (h : f'.catalog = f.catalog) :
    RequiresMore f f' :=
  fun _ entry hentry => ⟨entry, h ▸ hentry, UInt32.le_refl _⟩

theorem RequiresMore.of_modify {f f' : Fabric β} {o : ObjectId} {u : CatalogEntry → CatalogEntry}
    (h : f'.catalog = f.catalog.modify o u)
    (hu : ∀ entry, entry.replicaSet.required ≤ (u entry).replicaSet.required) :
    RequiresMore f f' := by
  intro o' entry hentry
  refine ⟨if o' = o then u entry else entry, ?_, ?_⟩
  · rw [h]
    exact AList.lookup_modify_eq_some.mpr ⟨entry, hentry, rfl⟩
  · by_cases ho : o' = o
    · rw [if_pos ho]
      exact hu entry
    · rw [if_neg ho]
      exact UInt32.le_refl _

variable [StorageBackend β]

theorem requiresMore_publishCall (f : Fabric β) (c : Call) :
    RequiresMore f (f.publishCall c).2 := by
  have hout := publishCall_outcome f c
  generalize (f.publishCall c).1 = r at hout
  generalize (f.publishCall c).2 = f' at hout
  cases hout with
  | refused s ledger stale hrefuse => exact .of_catalog rfl
  | aborted s res ledger start rc g f' hstart habort =>
      obtain ⟨m, n, -, -, hview⟩ := habort.catalog
      exact .of_catalog (congrArg CatalogView.catalog hview)
  | published res ledger start chunks desc t g f' hstart hpub =>
      exact .of_modify (congrArg CatalogView.catalog hpub.catalog)
        fun _ => (CatalogView.le_max_u32 _ _).1

theorem requiresMore_exec (f : Fabric β) (op : Op β) : RequiresMore f (f.exec op) := by
  have heffect := exec_effect f op
  generalize f.exec op = f' at heffect
  cases heffect with
  | silent _ f' hviews => exact .of_catalog (congrArg CatalogView.catalog hviews.catalog)
  | registered _ t desc be f' _ _ hcatalog _ _ =>
      exact .of_catalog (congrArg CatalogView.catalog hcatalog)
  | defined _ obj f' _ hfresh hcatalog _ _ =>
      intro o entry hentry
      have hne : o ≠ obj.id := by
        rintro rfl
        exact hfresh (AList.mem_iff_lookup.mpr ⟨entry, hentry⟩)
      have hlookup := congrArg (fun v => v.catalog.lookup o) hcatalog
      exact ⟨entry, hlookup.trans ((AList.lookup_insert_ne hne).trans hentry), UInt32.le_refl _⟩
  | duplicate _ f' _ hcatalog _ _ => exact .of_catalog (congrArg CatalogView.catalog hcatalog)
  | called _ c g _ hviews _ =>
      exact (RequiresMore.of_catalog (congrArg CatalogView.catalog hviews.catalog)).trans
        (requiresMore_publishCall g c)
  | moved _ source c g p _ hviews _ _ _ =>
      exact (RequiresMore.of_catalog (congrArg CatalogView.catalog hviews.catalog)).trans
        (requiresMore_publishCall g c)
  | evicted id e hcheck =>
      exact .of_modify (congrArg CatalogView.catalog (catalogView_evict hcheck))
        fun _ => UInt32.le_refl _

theorem requiresMore_run (f : Fabric β) (ops : List (Op β)) :
    RequiresMore f (Runs.run exec f ops) :=
  Runs.related (P := fun _ _ => True) (I := fun _ => True) RequiresMore.refl
    (fun _ _ _ => RequiresMore.trans) (fun _ _ _ _ => trivial)
    (fun g op _ _ => requiresMore_exec g op) trivial
    (Runs.along_of_forall (fun _ _ => trivial) _ _)

theorem required_publishCall {f : Fabric β} {c : Call} {p : PlacementRecord}
    (h : (f.publishCall c).1 = .ok p) :
    ∃ entry, (f.publishCall c).2.catalog.lookup c.obj.id = some entry ∧
      publishDurability c.obj c.opts ≤ entry.replicaSet.required := by
  have hout := publishCall_outcome f c
  rw [h] at hout
  generalize (f.publishCall c).2 = f' at hout
  cases hout with
  | published res ledger start chunks desc t g f' hstart hpub =>
      obtain ⟨entry, hentry⟩ := AList.mem_iff_lookup.mp hpub.known
      have hlookup := congrArg (fun v => v.catalog.lookup c.obj.id) hpub.catalog
      refine ⟨_, hlookup.trans (AList.lookup_modify_eq_some.mpr ⟨entry, hentry, rfl⟩), ?_⟩
      rw [if_pos rfl]
      exact (CatalogView.le_max_u32 _ _).2

theorem catalogInv_run {ops : List (Op β)} (hops : ∀ op ∈ ops, op.moves = none) :
    (Runs.run exec {} ops).catalogView.Inv := by
  refine Runs.invariant (P := fun f op => demotes isAvailable f op = false)
    (fun _ _ h hop => catalogInv_exec h hop) catalogInv_empty ?_
  refine Runs.along_of_mem fun f op hop => ?_
  rw [demotes, hops op hop]

/-- In every state that a run without movements reaches, each entry agrees with
the placement records; along the way no required durability decreases, and the
required durability is at least that of every publication that succeeded. -/
theorem catalog_agrees (ops ops' : List (Op β)) (hops : ∀ op ∈ ops ++ ops', op.moves = none) :
    let f := Runs.run exec {} ops
    let f' := Runs.run exec {} (ops ++ ops')
    (∀ o entry, f'.catalog.lookup o = some entry → Agrees f' o entry) ∧
      RequiresMore f f' ∧
      ∀ op rest c g p, ops' = op :: rest → f.call op = some (c, g) →
        (g.publishCall c).1 = .ok p → ∃ entry, f'.catalog.lookup c.obj.id = some entry ∧
          publishDurability c.obj c.opts ≤ entry.replicaSet.required := by
  intro f f'
  have hrun : f' = Runs.run exec f ops' := Runs.run_append exec {} ops ops'
  refine ⟨fun o entry => agrees_of_inv (catalogInv_run hops), ?_, ?_⟩
  · rw [hrun]
    exact requiresMore_run f ops'
  · rintro op rest c g p rfl hcall hok
    obtain ⟨entry, hentry, hle⟩ := required_publishCall hok
    have hmove : op.moves = none := hops op (by simp)
    have hexec : f.exec op = (g.publishCall c).2 := by
      rcases exec_of_call hcall with ⟨-, heq | ⟨source, hsource, -⟩⟩
      · exact heq
      · rw [hmove] at hsource
        cases hsource
    rw [← hexec] at hentry
    obtain ⟨entry', hentry', hle'⟩ := requiresMore_run (f.exec op) rest _ entry hentry
    rw [hrun]
    exact ⟨entry', hentry', UInt32.le_trans hle hle'⟩

/-- Two publications and an eviction. -/
theorem catalog_agrees_small :
    let f := Runs.run exec {} Small.opening
    let f' := Runs.run exec {} (Small.opening ++ [Small.publication, Small.publication, .evict ⟨1⟩])
    (∀ o entry, f'.catalog.lookup o = some entry → Agrees f' o entry) ∧ RequiresMore f f' :=
  have h := catalog_agrees Small.opening [Small.publication, Small.publication, .evict ⟨1⟩]
    (by decide)
  ⟨h.1, h.2.1⟩

/-! ### As many replicas as the counters have values -/

namespace Wide

def room : UInt64 := 1024 * 1024 * 1024 * 1024

theorem room_toNat : room.toNat = 2 ^ 40 := by decide

def profile : SyntheticProfile := { totalBytes := room, freeBytes := room }

def opening : List (Op SyntheticBackend) :=
  [.registerSyntheticBackend (ascii "wide") profile { profile },
    .setAuthority { epoch := ⟨1⟩ },
    .defineObject (.known .genericAiState) 1 [7] {} {} (.known .normal)]

/-- Publishing the object over and over; from the second time on its only chunk
is found in the dedup index. -/
def call : Call := ⟨Small.object, [7], ⟨1⟩, { eagerVerify := false }⟩

def publication : Op SyntheticBackend := .publishTo call.obj call.content call.backend call.opts

/-- After `n` publications, everything that the next one needs is there. -/
structure Ready (n : Nat) (f : Fabric SyntheticBackend) : Prop where
  inv : f.catalogView.Inv
  authority : f.authority = { epoch := ⟨1⟩ }
  backend : ⟨1⟩ ∈ f.backends
  blob : f.blobByDigest.lookup (ContentDigest.of [7]) = some ⟨1⟩
  counter : 0 < f.manifestCounter
  manifests : ∀ id, id ∈ f.manifests → id.value < f.manifestCounter
  descriptor : ∃ desc t, f.backendDescriptors.lookup ⟨1⟩ = some desc ∧
    f.tiers.lookup desc.tier = some t
  fresh : f.reservations.Fresh
  allowance : f.reservations.overcommitAllowance = 0
  capacity : ∃ c, f.reservations.backends.lookup ⟨1⟩ = some c ∧ c.freeBytes = room ∧
    c.reservedBytes = 0 ∧ c.committedBytes = UInt64.ofNat n
  entry : ∃ entry, f.catalog.lookup ⟨1⟩ = some entry ∧ entry.replicaSet.replicas.length = n

theorem headroom_eq {l : ReservationLedger} {c : BackendCapacity} {n : Nat} (hn : n < 2 ^ 40)
    (hallowance : l.overcommitAllowance = 0) (hfree : c.freeBytes = room)
    (hreserved : c.reservedBytes = 0) (hcommitted : c.committedBytes = UInt64.ofNat n) :
    l.headroom c = room - UInt64.ofNat n := by
  have hlt : UInt64.ofNat n < room := by
    rw [UInt64.lt_iff_toNat_lt, UInt64.toNat_ofNat', room_toNat]
    omega
  rw [ReservationLedger.headroom, hallowance, hfree, hreserved, hcommitted]
  simp [hlt]

theorem not_refuses {n : Nat} {f : Fabric SyntheticBackend} (h : Ready n f) (hn : n < 2 ^ 40) :
    ¬f.Refuses call := by
  rintro (hsize | hauth | hfence | hbackend | hledger)
  · exact hsize rfl
  · have hlive : f.publishAuthority call.opts = { epoch := ⟨1⟩ } := h.authority
    rw [hlive] at hauth
    cases hauth
  · cases hfence
  · exact hbackend h.backend
  · obtain ⟨c, hc, hfree, hreserved, hcommitted⟩ := h.capacity
    have hlookup : f.reservations.backends.lookup call.backend = some c := hc
    simp only [ReservationLedger.Refuses, hlookup] at hledger
    rcases hledger with hzero | hroom | hid
    · cases hzero
    · have hone : call.obj.logicalSize.toNat = 1 := by decide
      have hof : (UInt64.ofNat n).toNat = n := by
        rw [UInt64.toNat_ofNat']
        omega
      have hle : UInt64.ofNat n ≤ room := by
        rw [UInt64.le_iff_toNat_le, hof, room_toNat]
        omega
      rw [headroom_eq hn h.allowance hfree hreserved hcommitted, UInt64.lt_iff_toNat_lt,
        UInt64.toNat_sub_of_le _ _ hle, hof, room_toNat, hone] at hroom
      omega
    · exact Nat.lt_irrefl _ (h.fresh _ hid)

theorem validate_manifest {f : Fabric SyntheticBackend} (h : 0 < f.manifestCounter) :
    (f.manifestOf call [chunkAt 0 [7] ⟨1⟩]).validate = .ok () := by
  have hid : (f.manifestOf call [chunkAt 0 [7] ⟨1⟩]).id.isNil = false := by
    have hne : f.manifestCounter ≠ 0 := by omega
    exact decide_eq_false hne
  have hfirst : (buildManifest ⟨1⟩ call.obj [chunkAt 0 [7] ⟨1⟩]).validate = .ok () := by
    decide +kernel
  rw [← hfirst]
  exact validateManifest_congr hid rfl rfl (computeManifestDigest_congr rfl rfl rfl rfl) rfl

theorem chunkLoop_call {f : Fabric SyntheticBackend}
    (h : f.blobByDigest.lookup (ContentDigest.of [7]) = some ⟨1⟩) :
    chunkLoop call.backend call.opts.dedupe (chunkLength call.obj call.opts)
        call.content.length 0 call.content f =
      (.ok [chunkAt 0 [7] ⟨1⟩], f.reuseBlob ⟨1⟩ [7]) := by
  have hturn : chunkStep call.backend call.opts.dedupe 0 (call.content.take
      (chunkLength call.obj call.opts)) f =
        (.ok (chunkAt 0 [7] ⟨1⟩), f.reuseBlob ⟨1⟩ [7]) := chunkStep_reuse h
  exact chunkLoop_ok (List.cons_ne_nil _ _) hturn 0

theorem commit_reserveFor {n : Nat} {f : Fabric SyntheticBackend} (h : Ready n f)
    {res : Reservation} {ledger : ReservationLedger}
    (hreserve : f.reserveFor call.obj call.backend call.opts = (.ok res, ledger))
    (placement : PlacementId) :
    (ledger.commit res.id placement).1.isOk = true ∧
      (ledger.commit res.id placement).2.Fresh ∧
      (ledger.commit res.id placement).2.overcommitAllowance = 0 ∧
      ∃ c, (ledger.commit res.id placement).2.backends.lookup ⟨1⟩ = some c ∧
        c.freeBytes = room ∧ c.reservedBytes = 0 ∧ c.committedBytes = UInt64.ofNat (n + 1) := by
  obtain ⟨c, hc, hfree, hreserved, hcommitted⟩ := h.capacity
  have hsize : call.obj.logicalSize = 1 := rfl
  have hfit : ¬c.reservedBytes + call.obj.logicalSize < call.obj.logicalSize := by
    rw [hreserved, hsize]
    decide
  obtain ⟨hok, hfresh, hallowance, hlookup⟩ :=
    ReservationLedger.commit_reserve h.fresh hc hfit hreserve placement
  refine ⟨hok, hfresh, hallowance.trans h.allowance, _, hlookup, hfree, ?_, ?_⟩
  · rw [hreserved, hsize]
    rfl
  · rw [hcommitted, hsize, UInt64.ofNat_add]
    rfl

theorem not_stops {n : Nat} {f g : Fabric SyntheticBackend} (h : Ready n f) {res : Reservation}
    {ledger : ReservationLedger}
    (hreserve : f.reserveFor call.obj call.backend call.opts = (.ok res, ledger)) :
    ¬f.Stops res ledger call (.ok [chunkAt 0 [7] ⟨1⟩]) g := by
  rintro (⟨heager, -⟩ | ⟨s, hvalid⟩ | hmanifest | hplace)
  · cases heager
  · rw [validate_manifest h.counter] at hvalid
    cases hvalid
  · exact Nat.lt_irrefl _ (h.manifests _ hmanifest)
  · obtain ⟨desc, t, hdesc, htier⟩ := h.descriptor
    rcases hplace with hnone | ⟨desc', hdesc', hnone⟩ | hplaced | hcommit | hunknown
    · exact absurd (hdesc.symm.trans hnone) (Option.some_ne_none _)
    · cases hdesc.symm.trans hdesc'
      exact absurd (htier.symm.trans hnone) (Option.some_ne_none _)
    · obtain ⟨p, hp⟩ := AList.mem_iff_lookup.mp hplaced
      exact Nat.lt_irrefl _ (h.inv.identified.placement_lt _ p hp)
    · rw [(commit_reserveFor h hreserve _).1] at hcommit
      cases hcommit
    · obtain ⟨entry, hentry, -⟩ := h.entry
      exact hunknown (AList.mem_iff_lookup.mpr ⟨entry, hentry⟩)

theorem ready_succ {n : Nat} {f : Fabric SyntheticBackend} (h : Ready n f) (hn : n < 2 ^ 40) :
    Ready (n + 1) (f.exec publication) := by
  have hinv : (f.publishCall call).2.catalogView.Inv := catalogInv_publishCall h.inv call
  have hout := publishCall_outcome f call
  change Ready (n + 1) (f.publishCall call).2
  generalize (f.publishCall call).1 = r at hout
  generalize (f.publishCall call).2 = f' at hout hinv
  -- the chunk loop of a publication that is not refused
  have hloop : ∀ res ledger start rc g, Started f call res ledger start rc g →
      rc = .ok [chunkAt 0 [7] ⟨1⟩] ∧ g.backends = f.backends ∧
        g.blobByDigest = f.blobByDigest := by
    intro res ledger start rc g hstart
    obtain ⟨hbackends, hdigests, -⟩ := BlobView.mk.inj hstart.blobs
    have hrun := hstart.loop
    rw [chunkLoop_call (hdigests ▸ h.blob)] at hrun
    cases hrun
    exact ⟨rfl, hbackends, hdigests⟩
  cases hout with
  | refused s ledger stale hrefuse => exact absurd hrefuse (not_refuses h hn)
  | aborted s res ledger start rc g f' hstart habort =>
      obtain ⟨rfl, -, -⟩ := hloop _ _ _ _ _ hstart
      exact absurd habort.stops (not_stops h hstart.reserve)
  | published res ledger start chunks desc t g f' hstart hpub =>
      obtain ⟨-, hbackends, hdigests⟩ := hloop _ _ _ _ _ hstart
      obtain ⟨hbackends', hdigests', -⟩ := BlobView.mk.inj hpub.blobs
      obtain ⟨hmanifests, hcounter⟩ := ManifestView.mk.inj hpub.manifests
      obtain ⟨htiers, hdescs, hcatalog, -⟩ := CatalogView.mk.inj hpub.catalog
      obtain ⟨-, hfresh, hallowance, hcapacity⟩ := commit_reserveFor h hstart.reserve
        ⟨f.placementCounter⟩
      obtain ⟨entry, hentry, hlength⟩ := h.entry
      refine ⟨hinv, hpub.authority.trans h.authority, ?_, ?_, ?_, ?_, ?_, ?_, ?_, ?_, ?_⟩
      · rw [hbackends', hbackends]
        exact h.backend
      · rw [hdigests', hdigests]
        exact h.blob
      · omega
      · intro id hid
        rw [hmanifests, AList.mem_insert] at hid
        rw [hcounter]
        rcases hid with rfl | hid
        · exact Nat.lt_succ_self _
        · exact Nat.lt_succ_of_lt (h.manifests id hid)
      · rw [htiers, hdescs]
        exact h.descriptor
      · rw [hpub.reservations]
        exact hfresh
      · rw [hpub.reservations]
        exact hallowance
      · rw [hpub.reservations]
        exact hcapacity
      · rw [hcatalog]
        refine ⟨_, AList.lookup_modify_eq_some.mpr ⟨entry, hentry, rfl⟩, ?_⟩
        have hattach : (attachPlacement (f.manifestOf call chunks) (f.placementOf call desc t)
            (replicaOf (f.placementOf call desc t) desc t) (f.publishAuthority call.opts)
            entry).replicaSet.replicas =
              entry.replicaSet.replicas ++ [replicaOf (f.placementOf call desc t) desc t] :=
          (h.inv.exact _ entry hentry).replicas_attach h.inv.identified
            (attachable_placementOf hpub)
        have hid : (⟨1⟩ : ObjectId) = call.obj.id := rfl
        rw [if_pos hid, hattach, List.length_append, hlength]
        rfl

def ops (n : Nat) : List (Op SyntheticBackend) := opening ++ List.replicate n publication

theorem moves_ops (n : Nat) : ∀ op ∈ ops n, op.moves = none := by
  have hopening : ∀ op ∈ opening, op.moves = none := by decide
  intro op hop
  rcases List.mem_append.mp hop with hop | hop
  · exact hopening op hop
  · rw [List.eq_of_mem_replicate hop]
    rfl

theorem ready_one : Ready 1 (Runs.run exec {} (ops 1)) := by
  have hinv : (Runs.run exec {} (ops 1)).catalogView.Inv := catalogInv_run (moves_ops 1)
  generalize hf : Runs.run exec {} (ops 1) = f at hinv
  have hrun : f.authority = { epoch := ⟨1⟩ } ∧ ⟨1⟩ ∈ f.backends ∧
      f.blobByDigest.lookup (ContentDigest.of [7]) = some ⟨1⟩ ∧ 0 < f.manifestCounter ∧
      (∀ id ∈ f.manifests.keys, id.value < f.manifestCounter) ∧
      ((f.backendDescriptors.lookup ⟨1⟩).bind fun desc => f.tiers.lookup desc.tier).isSome ∧
      (∀ id ∈ f.reservations.reservations.keys,
        id.value < f.reservations.nextReservationId.value) ∧
      f.reservations.overcommitAllowance = 0 ∧
      f.reservations.backends.lookup ⟨1⟩ =
        some { totalBytes := room, freeBytes := room, committedBytes := 1 } ∧
      (f.catalog.lookup ⟨1⟩).map (fun entry => entry.replicaSet.replicas.length) = some 1 := by
    rw [← hf]
    decide +kernel
  obtain ⟨hauth, hbackend, hblob, hcounter, hmanifests, htier, hfresh, hallowance, hcapacity,
    hentry⟩ := hrun
  obtain ⟨t, ht⟩ := Option.isSome_iff_exists.mp htier
  obtain ⟨desc, hdesc, htier⟩ := Option.bind_eq_some_iff.mp ht
  obtain ⟨entry, hlookup, hlength⟩ := Option.map_eq_some_iff.mp hentry
  exact
    { inv := hinv
      authority := hauth
      backend := hbackend
      blob := hblob
      counter := hcounter
      manifests := fun id hid => hmanifests id (AList.mem_keys.mpr hid)
      descriptor := ⟨desc, t, hdesc, htier⟩
      fresh := fun id hid => hfresh id (AList.mem_keys.mpr hid)
      allowance := hallowance
      capacity := ⟨_, hcapacity, rfl, rfl, rfl⟩
      entry := ⟨entry, hlookup, hlength⟩ }

theorem ready_ops {n : Nat} (hpos : 1 ≤ n) (hn : n ≤ 2 ^ 40) :
    Ready n (Runs.run exec {} (ops n)) := by
  induction n, hpos using Nat.le_induction with
  | base => exact ready_one
  | succ n hpos ih =>
      have hrun : Runs.run exec {} (ops (n + 1)) = (Runs.run exec {} (ops n)).exec publication := by
        rw [ops, List.replicate_succ', ← List.append_assoc, Runs.run_append, ← ops]
        exact Runs.run_nil exec _
      rw [hrun]
      exact ready_succ (ih (by omega)) (by omega)

theorem counts {n : Nat} (hpos : 1 ≤ n) (hn : n ≤ 2 ^ 40) :
    ∃ entry, (Runs.run exec {} (ops n)).catalog.lookup ⟨1⟩ = some entry ∧
      ((Runs.run exec {} (ops n)).catalogView.availableOf ⟨1⟩).length = n ∧
      entry.replicaSet.actual = UInt32.ofNat n := by
  have hready := ready_ops hpos hn
  obtain ⟨entry, hentry, hlength⟩ := hready.entry
  have hexact := hready.inv.exact _ entry hentry
  have hactual : entry.replicaSet.actual = UInt32.ofNat entry.replicaSet.replicas.length :=
    (congrArg ReplicaSet.actual hexact.counted).symm
  rw [hlength] at hactual
  exact ⟨entry, hentry, (hexact.length_replicas hready.inv.identified).symm.trans hlength, hactual⟩

end Wide

/-- After 2^32 publications of one object its replica counter is zero again. -/
theorem actual_wraps :
    (∀ op ∈ Wide.ops (2 ^ 32), op.moves = none) ∧
      ∃ entry, (Runs.run exec {} (Wide.ops (2 ^ 32))).catalog.lookup ⟨1⟩ = some entry ∧
        ((Runs.run exec {} (Wide.ops (2 ^ 32))).catalogView.availableOf ⟨1⟩).length = 2 ^ 32 ∧
        entry.replicaSet.actual = 0 := by
  have hzero : UInt32.ofNat (2 ^ 32) = 0 := by
    rw [← UInt32.toNat_inj, UInt32.toNat_ofNat']
    rfl
  rw [← hzero]
  exact ⟨Wide.moves_ops _,
    Wide.counts Nat.one_le_two_pow (Nat.pow_le_pow_right Nat.two_pos (by omega))⟩

end Fabric

end StorageFabric
