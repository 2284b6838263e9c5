import StorageFabric.Runtime.Effects

/-!
What a publication, and then what any operation, can do to the state.

A publication is refused before it reserved anything; or it is aborted after
that, with the chunks stored so far left behind; or it publishes.
`publishCall_outcome` is the one place where `publish_to` is taken apart, and
`exec_effect` the one where the operations are.
-/

namespace StorageFabric

open StorageBackend

namespace Fabric

variable {β : Type}

/-- The reasons for which a publication is turned down before it has reserved
anything. -/
def Refuses (f : Fabric β) (c : Call) : Prop :=
  c.content.length ≠ c.obj.logicalSize.toNat ∨
  (f.publishAuthority c.opts).isNil = true ∨
  f.isFenced c.opts = true ∨
  c.backend ∉ f.backends ∨
  f.reservations.Refuses c.backend c.obj.logicalSize

instance (f : Fabric β) (c : Call) : Decidable (f.Refuses c) := by
  unfold Refuses
  infer_instance

theorem size_of_accepts {f : Fabric β} {c : Call} (h : ¬f.Refuses c) :
    c.content.length = c.obj.logicalSize.toNat := by
  by_contra hne
  exact h (.inl hne)

theorem backend_of_accepts {f : Fabric β} {c : Call} (h : ¬f.Refuses c) :
    c.backend ∈ f.backends := by
  by_contra hne
  exact h (.inr (.inr (.inr (.inl hne))))

theorem reserveFor_error_iff {f : Fabric β} {obj : ObjectDescriptor} {backend : StorageBackendId}
    {opts : PublishOptions} :
    (∃ s, (f.reserveFor obj backend opts).1 = .error s) ↔
      f.reservations.Refuses backend obj.logicalSize :=
  ReservationLedger.reserve_error_iff

/-- The manifest that a publication of the given chunks builds. -/
def manifestOf (f : Fabric β) (c : Call) (chunks : List ChunkDescriptor) : Manifest :=
  buildManifest ⟨f.manifestCounter⟩ c.obj chunks

/-- The placement that a publication to the given backend and tier builds. -/
def placementOf (f : Fabric β) (c : Call) (desc : BackendDescriptor) (t : StorageTier) :
    PlacementRecord :=
  buildPlacement ⟨f.placementCounter⟩ ⟨f.replicaCounter⟩ c.obj desc t c.backend
    ⟨f.manifestCounter⟩ (f.publishAuthority c.opts) c.opts

/-- A publication that was not refused got the reservation `res`, which left
`ledger`; it ran its chunk loop from `start` and left it with `rc` in `g`. -/
structure Started [StorageBackend β] (f : Fabric β) (c : Call) (res : Reservation)
    (ledger : ReservationLedger) (start : Fabric β) (rc : Result (List ChunkDescriptor))
    (g : Fabric β) : Prop where
  accepted : ¬f.Refuses c
  reserve : f.reserveFor c.obj c.backend c.opts = (.ok res, ledger)
  catalog : start.catalogView = f.catalogView
  manifests : start.manifestView = ⟨f.manifests, f.manifestCounter + 1⟩
  blobs : start.blobView = f.blobView
  accounting : start.accounting =
    { f.accounting with reservedBytes := f.accounting.reservedBytes + 1 }
  loop : chunkLoop c.backend c.opts.dedupe (chunkLength c.obj c.opts) c.content.length 0 c.content
    start = (rc, g)

/-- The last part of a publication cannot make its placement: something is
missing or taken, or the ledger does not commit the reservation. -/
def Unplaceable (v : CatalogView) (res : Reservation) (ledger : ReservationLedger)
    (obj : ObjectDescriptor) (backend : StorageBackendId) : Prop :=
  v.backendDescriptors.lookup backend = none ∨
  (∃ desc, v.backendDescriptors.lookup backend = some desc ∧ v.tiers.lookup desc.tier = none) ∨
  ⟨v.placementCounter⟩ ∈ v.placements ∨
  (ledger.commit res.id ⟨v.placementCounter⟩).1.isOk = false ∨
  obj.id ∉ v.catalog

/-- The reasons for which a publication stops, its chunk loop having ended with
`rc` in `g`. -/
def Stops [StorageBackend β] (f : Fabric β) (res : Reservation) (ledger : ReservationLedger)
    (c : Call) (rc : Result (List ChunkDescriptor)) (g : Fabric β) : Prop :=
  match rc with
  | .error _ => True
  | .ok chunks =>
      (c.opts.eagerVerify = true ∧ ∃ s, g.verifyChunks c.backend chunks = .error s) ∨
      (∃ s, (f.manifestOf c chunks).validate = .error s) ∨
      ⟨f.manifestCounter⟩ ∈ f.manifests ∨
      Unplaceable f.catalogView res ledger c.obj c.backend

/-- What an aborted publication leaves of the state `f`, its chunk loop having
ended in `g`: the blobs of `g`, perhaps the manifest, and a counter that was
never set right. -/
structure Aborted [StorageBackend β] (f : Fabric β) (c : Call) (res : Reservation)
    (ledger : ReservationLedger) (rc : Result (List ChunkDescriptor)) (g f' : Fabric β) : Prop where
  stops : f.Stops res ledger c rc g
  blobs : f'.blobView = g.blobView
  catalog : ∃ m n, f.placementCounter ≤ m ∧ f.replicaCounter ≤ n ∧
    f'.catalogView = { f.catalogView with placementCounter := m, replicaCounter := n }
  manifestCounter : f'.manifestCounter = f.manifestCounter + 1
  manifests : f'.manifests = f.manifests ∨ ∃ chunks, rc = .ok chunks ∧
    ⟨f.manifestCounter⟩ ∉ f.manifests ∧
    f'.manifests = f.manifests.insert ⟨f.manifestCounter⟩ (f.manifestOf c chunks)
  accounting : f'.accounting.reservedBytes = g.accounting.reservedBytes ∨
    f'.accounting.committedBytes = g.accounting.committedBytes + 1

/-- What a publication of the chunks `chunks` to the backend `desc` on the tier
`t` makes of the state `f`, its chunk loop having ended in `g`. -/
structure Published [StorageBackend β] (f : Fabric β) (c : Call) (res : Reservation)
    (ledger : ReservationLedger) (chunks : List ChunkDescriptor) (desc : BackendDescriptor)
    (t : StorageTier) (g f' : Fabric β) : Prop where
  verified : c.opts.eagerVerify = true → g.verifyChunks c.backend chunks = .ok ()
  valid : (f.manifestOf c chunks).validate = .ok ()
  freshManifest : ⟨f.manifestCounter⟩ ∉ f.manifests
  descriptor : f.backendDescriptors.lookup c.backend = some desc
  tier : f.tiers.lookup desc.tier = some t
  freshPlacement : ⟨f.placementCounter⟩ ∉ f.placements
  known : c.obj.id ∈ f.catalog
  blobs : f'.blobView = g.blobView
  manifests : f'.manifestView =
    ⟨f.manifests.insert ⟨f.manifestCounter⟩ (f.manifestOf c chunks), f.manifestCounter + 1⟩
  catalog : f'.catalogView =
    { f.catalogView with
      catalog := f.catalog.modify c.obj.id
        (attachPlacement (f.manifestOf c chunks) (f.placementOf c desc t)
          (replicaOf (f.placementOf c desc t) desc t) (f.publishAuthority c.opts))
      placements := f.placements.insert ⟨f.placementCounter⟩ (f.placementOf c desc t)
      replicaCounter := f.replicaCounter + 1
      placementCounter := f.placementCounter + 1 }
  committed : (ledger.commit res.id ⟨f.placementCounter⟩).1.isOk = true
  reservations : f'.reservations = (ledger.commit res.id ⟨f.placementCounter⟩).2
  authority : f'.authority = f.authority

/-- The three ways a publication can end. -/
inductive Outcome [StorageBackend β] (f : Fabric β) (c : Call) :
    Result PlacementRecord → Fabric β → Prop
  | refused (s : Status) (ledger : ReservationLedger) (stale : UInt64) (h : f.Refuses c) :
      Outcome f c (.error s)
        { f with
          reservations := ledger
          accounting := { f.accounting with staleRejections := stale } }
  | aborted (s : Status) (res : Reservation) (ledger : ReservationLedger) (start : Fabric β)
      (rc : Result (List ChunkDescriptor)) (g f' : Fabric β)
      (hstart : Started f c res ledger start rc g) (h : Aborted f c res ledger rc g f') :
      Outcome f c (.error s) f'
  | published (res : Reservation) (ledger : ReservationLedger) (start : Fabric β)
      (chunks : List ChunkDescriptor) (desc : BackendDescriptor) (t : StorageTier)
      (g f' : Fabric β) (hstart : Started f c res ledger start (.ok chunks) g)
      (h : Published f c res ledger chunks desc t g f') : Outcome f c (.ok (f.placementOf c desc t)) f'

/-- The last part of a publication either stops, with nothing but counters and
the ledger changed, or makes the placement. -/
theorem commitPlacement_cases (f : Fabric β) (guard : ReservationGuard) (obj : ObjectDescriptor)
    (backend : StorageBackendId) (auth : AuthorityEnvelope) (opts : PublishOptions)
    (man : Manifest) :
    (∃ s m n guard' f', f.placementCounter ≤ m ∧ f.replicaCounter ≤ n ∧
      f.commitPlacement guard obj backend auth opts man = (.error s, guard', f') ∧
      f'.catalogView = { f.catalogView with placementCounter := m, replicaCounter := n } ∧
      f'.manifestView = f.manifestView ∧ f'.blobView = f.blobView ∧
      (f'.accounting.reservedBytes = f.accounting.reservedBytes ∨
        f'.accounting.committedBytes = f.accounting.committedBytes + 1) ∧
      Unplaceable f.catalogView guard.res f.reservations obj backend) ∨
    (∃ desc t f', f.backendDescriptors.lookup backend = some desc ∧
      f.tiers.lookup desc.tier = some t ∧ ⟨f.placementCounter⟩ ∉ f.placements ∧
      obj.id ∈ f.catalog ∧
      let p := buildPlacement ⟨f.placementCounter⟩ ⟨f.replicaCounter⟩ obj desc t backend man.id
        auth opts
      f.commitPlacement guard obj backend auth opts man =
        (.ok p, { guard with armed := false }, f') ∧
      f'.catalogView =
        { f.catalogView with
          catalog := f.catalog.modify obj.id (attachPlacement man p (replicaOf p desc t) auth)
          placements := f.placements.insert ⟨f.placementCounter⟩ p
          replicaCounter := f.replicaCounter + 1
          placementCounter := f.placementCounter + 1 } ∧
      f'.manifestView = f.manifestView ∧ f'.blobView = f.blobView ∧
      (f.reservations.commit guard.res.id ⟨f.placementCounter⟩).1.isOk = true ∧
      f'.reservations = (f.reservations.commit guard.res.id ⟨f.placementCounter⟩).2 ∧
      f'.authority = f.authority) := by
  have hle : ∀ n : Nat, n ≤ n + 1 := Nat.le_succ
  unfold commitPlacement
  simp only [allocPlacementId, allocReplicaId]
  -- the checks in the order of the source, each after both ids are drawn
  cases hdesc : f.backendDescriptors.lookup backend with
  | none =>
      exact .inl ⟨_, _, _, _, _, hle _, hle _, rfl, rfl, rfl, rfl, .inl rfl, .inl hdesc⟩
  | some desc =>
      simp only
      cases htier : f.tiers.lookup desc.tier with
      | none =>
          exact .inl ⟨_, _, _, _, _, hle _, hle _, rfl, rfl, rfl, rfl, .inl rfl,
            .inr (.inl ⟨desc, hdesc, htier⟩)⟩
      | some t =>
          simp only
          by_cases hid : (⟨f.placementCounter⟩ : PlacementId) ∈ f.placements
          · simp only [hid, if_true]
            exact .inl ⟨_, _, _, _, _, hle _, hle _, rfl, rfl, rfl, rfl, .inl rfl,
              .inr (.inr (.inl hid))⟩
          · simp only [hid, if_false]
            by_cases hst : (guard.commit f.reservations ⟨f.placementCounter⟩).1.isOk = true
            · simp only [hst, account]
              cases hentry : f.catalog.lookup obj.id with
              | none =>
                  -- the bytes are committed before the object turns out to be unknown
                  exact .inl ⟨_, _, _, _, _, hle _, hle _, rfl, rfl, rfl, rfl, .inr rfl,
                    .inr (.inr (.inr (.inr (AList.notMem_iff_lookup.mpr hentry))))⟩
              | some entry =>
                  have hguard : (guard.commit f.reservations ⟨f.placementCounter⟩).2.1 =
                      { guard with armed := false } := if_pos hst
                  simp only [hguard]
                  exact .inr ⟨desc, t, _, rfl, htier, not_false,
                    AList.mem_iff_lookup.mpr ⟨entry, hentry⟩, rfl, rfl, rfl, rfl, hst, rfl, rfl⟩
            · have hcommit : (f.reservations.commit guard.res.id ⟨f.placementCounter⟩).1.isOk =
                  false := Bool.eq_false_iff.mpr hst
              simp only [hst]
              exact .inl ⟨_, _, _, _, _, hle _, hle _, rfl, rfl, rfl, rfl, .inl rfl,
                .inr (.inr (.inr (.inl hcommit)))⟩

section Backend

variable [StorageBackend β]

theorem publishReserved_cases (f : Fabric β) (guard : ReservationGuard) (c : Call)
    {rc : Result (List ChunkDescriptor)} {g : Fabric β}
    (hloop : chunkLoop c.backend c.opts.dedupe (chunkLength c.obj c.opts) c.content.length 0
      c.content f.allocManifestId.2 = (rc, g)) :
    (∃ s guard' f', f.publishReserved guard c.obj c.content c.backend (f.publishAuthority c.opts)
        c.opts = (.error s, guard', f') ∧ Aborted f c guard.res f.reservations rc g f') ∨
    (∃ chunks desc t f', rc = .ok chunks ∧
      f.publishReserved guard c.obj c.content c.backend (f.publishAuthority c.opts) c.opts =
        (.ok (f.placementOf c desc t), { guard with armed := false }, f') ∧
      Published f c guard.res f.reservations chunks desc t g f') := by
  have hcat : g.catalogView = f.catalogView := by
    have := catalogView_chunkLoop c.backend c.opts.dedupe (chunkLength c.obj c.opts)
      c.content.length 0 c.content f.allocManifestId.2
    rwa [hloop] at this
  have hman : g.manifestView = ⟨f.manifests, f.manifestCounter + 1⟩ := by
    have := manifestView_chunkLoop c.backend c.opts.dedupe (chunkLength c.obj c.opts)
      c.content.length 0 c.content f.allocManifestId.2
    rwa [hloop] at this
  have hbook : g.book = f.book := by
    have := book_chunkLoop c.backend c.opts.dedupe (chunkLength c.obj c.opts)
      c.content.length 0 c.content f.allocManifestId.2
    rwa [hloop] at this
  have hledger : g.reservations = f.reservations := congrArg Book.reservations hbook
  have hauthority : g.authority = f.authority := congrArg Book.authority hbook
  have hmanifests : g.manifests = f.manifests := congrArg ManifestView.manifests hman
  have hcounter : g.manifestCounter = f.manifestCounter + 1 :=
    congrArg ManifestView.manifestCounter hman
  -- an exit that leaves the state of the loop as it is
  have habort : f.Stops guard.res f.reservations c rc g →
      Aborted f c guard.res f.reservations rc g g := fun hstops =>
    { stops := hstops
      blobs := rfl
      catalog := ⟨_, _, Nat.le_refl _, Nat.le_refl _, hcat⟩
      manifestCounter := hcounter
      manifests := .inl hmanifests
      accounting := .inl rfl }
  have hid : f.allocManifestId.1 = ⟨f.manifestCounter⟩ := rfl
  unfold publishReserved
  simp only [hloop]
  cases rc with
  | error s => exact .inl ⟨s, guard, g, rfl, habort trivial⟩
  | ok chunks =>
      simp only
      cases hverify : (if c.opts.eagerVerify then g.verifyChunks c.backend chunks else .ok ()) with
      | error s =>
          refine .inl ⟨s, guard, g, rfl, habort (.inl ?_)⟩
          cases heager : c.opts.eagerVerify with
          | false => simp [heager] at hverify
          | true => exact ⟨rfl, s, by simpa [heager] using hverify⟩
      | ok u =>
          simp only [hid]
          cases hvalid : (buildManifest ⟨f.manifestCounter⟩ c.obj chunks).validate with
          | error s => exact .inl ⟨s, guard, g, rfl, habort (.inr (.inl ⟨s, hvalid⟩))⟩
          | ok v =>
              have hmanId : (buildManifest ⟨f.manifestCounter⟩ c.obj chunks).id =
                ⟨f.manifestCounter⟩ := rfl
              simp only [hmanId]
              by_cases hfresh : (⟨f.manifestCounter⟩ : ManifestId) ∈ g.manifests
              · simp only [hfresh, if_true]
                exact .inl ⟨_, guard, g, rfl, habort (.inr (.inr (.inl (hmanifests ▸ hfresh))))⟩
              · simp only [hfresh, if_false]
                rw [hmanifests] at hfresh
                have hkman : (g.addManifest (f.manifestOf c chunks)).manifestView =
                    ⟨f.manifests.insert ⟨f.manifestCounter⟩ (f.manifestOf c chunks),
                      f.manifestCounter + 1⟩ := by
                  rw [← hmanifests, ← hcounter]
                  rfl
                have hk : (g.addManifest (f.manifestOf c chunks)).catalogView = f.catalogView :=
                  hcat
                have hkl : (g.addManifest (f.manifestOf c chunks)).reservations = f.reservations :=
                  hledger
                have hka : (g.addManifest (f.manifestOf c chunks)).authority = f.authority :=
                  hauthority
                obtain ⟨htiers, hdescs, hcatalog, hplacements, -, -, -, hr, hp⟩ :=
                  CatalogView.mk.inj hk
                have hcases := commitPlacement_cases (g.addManifest (f.manifestOf c chunks)) guard
                  c.obj c.backend (f.publishAuthority c.opts) c.opts (f.manifestOf c chunks)
                rw [htiers, hdescs, hcatalog, hplacements, hr, hp, hk, hkman, hkl, hka] at hcases
                rcases hcases with
                  ⟨s, m, n, guard', f', hm, hn, heq, hcat', hman', hblob', hacc, hstops⟩ |
                  ⟨desc, t, f', hdesc, htier, hplace, hknown, heq, hcat', hman', hblob', hcommit,
                    hledger', hauthority'⟩
                · left
                  exact ⟨s, guard', f', heq,
                    { stops := .inr (.inr (.inr hstops))
                      blobs := hblob'
                      catalog := ⟨m, n, hm, hn, hcat'⟩
                      manifestCounter := congrArg ManifestView.manifestCounter hman'
                      manifests := .inr ⟨chunks, rfl, hfresh,
                        congrArg ManifestView.manifests hman'⟩
                      accounting := hacc }⟩
                · right
                  exact ⟨chunks, desc, t, f', rfl, heq,
                    { verified := fun heager => by simpa [heager] using hverify
                      valid := hvalid
                      freshManifest := hfresh
                      descriptor := hdesc
                      tier := htier
                      freshPlacement := hplace
                      known := hknown
                      blobs := hblob'
                      manifests := hman'
                      catalog := hcat'
                      committed := hcommit
                      reservations := hledger'
                      authority := hauthority' }⟩

/-- Every call of `publish_to` ends in one of the three ways. -/
theorem publishCall_outcome (f : Fabric β) (c : Call) :
    Outcome f c (f.publishCall c).1 (f.publishCall c).2 := by
  by_cases hsize : c.content.length ≠ c.obj.logicalSize.toNat
  · have heq : f.publishCall c = (Result.fail .lengthMismatch "content size mismatch", f) := by
      simp only [publishCall, publishTo, if_pos hsize]
    rw [heq]
    exact .refused _ f.reservations f.accounting.staleRejections (.inl hsize)
  by_cases hauth : (f.publishAuthority c.opts).isNil = true
  · have heq : f.publishCall c = (Result.fail .invalidArgument "no authority set", f) := by
      simp only [publishCall, publishTo, if_neg hsize, hauth, if_true]
    rw [heq]
    exact .refused _ f.reservations f.accounting.staleRejections (.inr (.inl hauth))
  by_cases hfence : f.isFenced c.opts = true
  · have heq : f.publishCall c =
        (Result.failure .staleAuthority (staleMessage (f.publishAuthority c.opts) f.authority),
          f.account fun a => { a with staleRejections := a.staleRejections + 1 }) := by
      simp only [publishCall, publishTo, if_neg hsize, if_neg hauth, if_pos hfence]
    rw [heq]
    exact .refused _ f.reservations _ (.inr (.inr (.inl hfence)))
  cases hbackend : f.backends.lookup c.backend with
  | none =>
      have heq : f.publishCall c = (Result.fail .notFound "backend not registered", f) := by
        simp only [publishCall, publishTo, if_neg hsize, if_neg hauth, if_neg hfence, getBackend,
          hbackend, Result.fail]
      rw [heq]
      exact .refused _ f.reservations f.accounting.staleRejections
        (.inr (.inr (.inr (.inl (AList.notMem_iff_lookup.mpr hbackend)))))
  | some be =>
      rcases hreserve : f.reserveFor c.obj c.backend c.opts with ⟨r, ledger⟩
      cases r with
      | error s =>
          have heq : f.publishCall c = (.error s, { f with reservations := ledger }) := by
            simp only [publishCall, publishTo, if_neg hsize, if_neg hauth, if_neg hfence,
              getBackend, hbackend, hreserve]
          rw [heq]
          have hrefuses := reserveFor_error_iff.mp ⟨s, congrArg Prod.fst hreserve⟩
          exact .refused _ ledger f.accounting.staleRejections
            (.inr (.inr (.inr (.inr hrefuses))))
      | ok res =>
          have haccept : ¬f.Refuses c := by
            rintro (h | h | h | h | h)
            · exact hsize h
            · exact hauth h
            · exact hfence h
            · exact h (AList.mem_iff_lookup.mpr ⟨be, hbackend⟩)
            · obtain ⟨s, hs⟩ := reserveFor_error_iff.mpr h
              rw [hreserve] at hs
              cases hs
          -- the state that holds the reservation
          let held : Fabric β := ({ f with reservations := ledger } : Fabric β).account fun a =>
            { a with reservedBytes := a.reservedBytes + 1 }
          have heq : f.publishCall c =
              let out := held.publishReserved { res } c.obj c.content c.backend
                (f.publishAuthority c.opts) c.opts
              (out.1, { out.2.2 with reservations := out.2.1.destroy out.2.2.reservations }) := by
            simp only [publishCall, publishTo, if_neg hsize, if_neg hauth, if_neg hfence,
              getBackend, hbackend, hreserve, held]
          rcases hloop : chunkLoop c.backend c.opts.dedupe (chunkLength c.obj c.opts)
            c.content.length 0 c.content held.allocManifestId.2 with ⟨rc, g⟩
          have hstart : Started f c res ledger held.allocManifestId.2 rc g :=
            { accepted := haccept
              reserve := hreserve
              catalog := rfl
              manifests := rfl
              blobs := rfl
              accounting := rfl
              loop := hloop }
          have hauthority : f.publishAuthority c.opts = held.publishAuthority c.opts := rfl
          rcases publishReserved_cases held { res } c hloop with
            ⟨s, guard', f', hres, habort⟩ | ⟨chunks, desc, t, f', rfl, hres, hp⟩
          · rw [heq]
            simp only [hauthority, hres]
            refine .aborted s res ledger _ rc g _ hstart ?_
            exact ⟨habort.stops, habort.blobs, habort.catalog, habort.manifestCounter,
              habort.manifests, habort.accounting⟩
          · rw [heq]
            simp only [hauthority, hres]
            refine .published res ledger _ chunks desc t g _ hstart ?_
            exact ⟨hp.verified, hp.valid, hp.freshManifest, hp.descriptor, hp.tier,
              hp.freshPlacement, hp.known, hp.blobs, hp.manifests, hp.catalog, hp.committed,
              hp.reservations, hp.authority⟩

/-! ### Operations -/

/-- What an operation that is not refused does to the views of the state. -/
inductive Effect (f : Fabric β) : Op β → Fabric β → Prop
  | silent (op : Op β) (f' : Fabric β) (h : SameViews f f') : Effect f op f'
  | registered (op : Op β) (t : StorageTier) (desc : BackendDescriptor) (be : β) (f' : Fabric β)
      (hop : op.registers = some be) (htier : desc.tier = ⟨f.tierCounter⟩)
      (hcatalog : f'.catalogView =
        { f.catalogView with
          tiers := f.tiers.emplace ⟨f.tierCounter⟩ t
          backendDescriptors := f.backendDescriptors.emplace ⟨f.backendCounter⟩ desc
          backendCounter := f.backendCounter + 1
          tierCounter := f.tierCounter + 1 })
      (hmanifests : f'.manifestView = f.manifestView)
      (hblobs : f'.blobView =
        { f.blobView with backends := f.backends.emplace ⟨f.backendCounter⟩ be }) : Effect f op f'
  | defined (op : Op β) (obj : ObjectDescriptor) (f' : Fabric β)
      (hid : obj.id = ⟨f.objectCounter⟩) (hfresh : obj.id ∉ f.catalog)
      (hcatalog : f'.catalogView =
        { f.catalogView with
          catalog := f.catalog.insert obj.id (newEntry obj)
          objectCounter := f.objectCounter + 1 })
      (hmanifests : f'.manifestView = f.manifestView) (hblobs : f'.blobView = f.blobView) :
      Effect f op f'
  | duplicate (op : Op β) (f' : Fabric β) (hid : ⟨f.objectCounter⟩ ∈ f.catalog)
      (hcatalog : f'.catalogView = { f.catalogView with objectCounter := f.objectCounter + 1 })
      (hmanifests : f'.manifestView = f.manifestView) (hblobs : f'.blobView = f.blobView) :
      Effect f op f'
  | called (op : Op β) (c : Call) (g : Fabric β) (hcall : f.call op = some (c, g))
      (h : SameViews f g) (hmove : op.moves = none ∨ ∃ s, (g.publishCall c).1 = .error s) :
      Effect f op (g.publishCall c).2
  | moved (op : Op β) (source : PlacementId) (c : Call) (g : Fabric β) (p : PlacementRecord)
      (hcall : f.call op = some (c, g)) (h : SameViews f g) (hmove : op.moves = some source)
      (hsource : source ∈ f.placements) (hok : (g.publishCall c).1 = .ok p) : Effect f op ((g.publishCall c).2.demote source)
  | evicted (id : PlacementId) (e : Eviction) (hcheck : f.evictCheck id = .inr e) :
      Effect f (.evict id) ((f.evictRecord e).evictCommit e).2

theorem sameViews_read (f : Fabric β) (object : ObjectId) (placement : Option PlacementId) :
    SameViews f (f.read object placement).2 := by
  unfold read
  cases f.lookupForRead object placement with
  | error s => exact .refl f
  | ok found =>
      simp only
      split
      · exact ⟨rfl, rfl, rfl⟩
      · split
        · exact ⟨rfl, rfl, rfl⟩
        · split <;> exact ⟨rfl, rfl, rfl⟩

theorem sameViews_verify (f : Fabric β) (placement : PlacementId) :
    SameViews f (f.verify placement).2 := by
  unfold verify
  cases f.lookupForRead default (some placement) with
  | error s => exact .refl f
  | ok found =>
      simp only
      split
      · exact .refl f
      · split
        · exact .refl f
        · split
          · exact .refl f
          · split <;> exact ⟨rfl, rfl, rfl⟩

theorem replicateCall_sameViews {f g : Fabric β} {source : PlacementRecord}
    {target : StorageBackendId} {opts : PublishOptions} {c : Call}
    (h : f.replicateCall source target opts = some (c, g)) : SameViews f g := by
  unfold replicateCall at h
  cases hentry : f.catalog.lookup source.object with
  | none => simp [hentry] at h
  | some entry =>
      have hviews := sameViews_read f source.object (some source.id)
      rcases hread : f.read source.object (some source.id) with ⟨r, k⟩
      rw [hread] at hviews
      cases r with
      | error s => simp [hentry, hread] at h
      | ok data =>
          simp only [hentry, hread, Option.some.injEq, Prod.mk.injEq] at h
          exact h.2 ▸ hviews

theorem replicateCall_mem {f g : Fabric β} {source : PlacementRecord}
    {target : StorageBackendId} {opts : PublishOptions} {c : Call}
    (h : f.replicateCall source target opts = some (c, g)) : source.id ∈ f.placements := by
  rw [AList.mem_iff_lookup]
  cases hp : f.placements.lookup source.id with
  | some p => exact ⟨p, rfl⟩
  | none =>
      unfold replicateCall at h
      cases hentry : f.catalog.lookup source.object with
      | none => simp [hentry] at h
      | some entry => simp [hentry, read, lookupForRead, hp, Result.fail] at h

theorem replicateCall_opts {f g : Fabric β} {source : PlacementRecord}
    {target : StorageBackendId} {opts : PublishOptions} {c : Call}
    (h : f.replicateCall source target opts = some (c, g)) :
    c.opts = replicateOptions source opts := by
  unfold replicateCall at h
  cases hentry : f.catalog.lookup source.object with
  | none => simp [hentry] at h
  | some entry =>
      rcases hread : f.read source.object (some source.id) with ⟨r, k⟩
      cases r with
      | error s => simp [hentry, hread] at h
      | ok data =>
          simp only [hentry, hread, Option.some.injEq, Prod.mk.injEq] at h
          rw [← h.1]

omit [StorageBackend β] in
theorem planCall_some {score : PlanRequest → TierCandidate → ℚ} {f : Fabric β}
    {obj : ObjectDescriptor} {content : Bytes} {opts : PublishOptions} {c : Call}
    (h : f.planCall score obj content opts = some c) :
    ∃ backend, c = ⟨obj, content, backend, opts⟩ := by
  unfold planCall at h
  cases hreq : f.makePlanRequest obj opts.requiredReplicas with
  | error s => simp [hreq] at h
  | ok req =>
      simp only [hreq] at h
      split at h
      · exact ⟨_, (Option.some.inj h).symm⟩
      · cases h

theorem eager_of_call {f g : Fabric β} {op : Op β} {c : Call} (h : f.call op = some (c, g)) :
    c.opts.eagerVerify = op.eager := by
  have hreplicate : ∀ source opts, (replicateOptions source opts).eagerVerify =
      opts.eagerVerify := by
    intro source opts
    unfold replicateOptions
    split <;> rfl
  cases op with
  | publishTo obj content backend opts =>
      cases h
      rfl
  | publish score obj content opts =>
      obtain ⟨c', hplan, heq⟩ := Option.map_eq_some_iff.mp h
      obtain ⟨rfl, -⟩ := Prod.mk.inj heq
      obtain ⟨best, rfl⟩ := planCall_some hplan
      rfl
  | replicate source target opts => rw [replicateCall_opts h, hreplicate, Op.eager]
  | move source target opts => rw [replicateCall_opts h, hreplicate, Op.eager]
  | _ => simp [call] at h

theorem replicate_eq (f : Fabric β) (source : PlacementRecord) (target : StorageBackendId)
    (opts : PublishOptions) :
    (∃ c g, f.replicateCall source target opts = some (c, g) ∧
      f.replicate source target opts = g.publishCall c) ∨
    (f.replicateCall source target opts = none ∧
      ∃ s, (f.replicate source target opts).1 = .error s ∧
        SameViews f (f.replicate source target opts).2) := by
  unfold replicate replicateCall
  cases hentry : f.catalog.lookup source.object with
  | none => exact .inr ⟨rfl, _, rfl, .refl f⟩
  | some entry =>
      have hviews := sameViews_read f source.object (some source.id)
      rcases hread : f.read source.object (some source.id) with ⟨r, k⟩
      rw [hread] at hviews
      cases r with
      | error s => exact .inr ⟨by simp, s, by simp, by simpa using hviews⟩
      | ok data => exact .inl ⟨_, k, rfl, rfl⟩

theorem planCall_eq (score : PlanRequest → TierCandidate → ℚ) (f : Fabric β)
    (obj : ObjectDescriptor) (content : Bytes) (opts : PublishOptions) :
    (∃ c, f.planCall score obj content opts = some c ∧
      f.publish score obj content opts = f.publishCall c) ∨
    (f.planCall score obj content opts = none ∧ (f.publish score obj content opts).2 = f) := by
  unfold planCall publish
  cases f.makePlanRequest obj opts.requiredReplicas with
  | error s => exact .inr ⟨rfl, rfl⟩
  | ok req =>
      dsimp only
      generalize plan (score req) req = sp
      cases sp.feasible with
      | false => exact .inr ⟨rfl, rfl⟩
      | true =>
          cases sp.selected with
          | none => exact .inr ⟨rfl, rfl⟩
          | some best => exact .inl ⟨_, rfl, rfl⟩

/-- An operation that calls `publish_to` leaves what the call leaves, up to the
demotion of the source of a movement that succeeds. -/
theorem exec_of_call {f g : Fabric β} {op : Op β} {c : Call} (hcall : f.call op = some (c, g)) :
    SameViews f g ∧ (f.exec op = (g.publishCall c).2 ∨
      ∃ source, op.moves = some source ∧ (g.publishCall c).1.toOption.isSome = true ∧
        f.exec op = (g.publishCall c).2.demote source) := by
  cases op with
  | publishTo obj content backend opts =>
      cases hcall
      exact ⟨.refl f, .inl rfl⟩
  | publish score obj content opts =>
      rcases planCall_eq score f obj content opts with ⟨c', hc', heq⟩ | ⟨hnone, -⟩
      · rw [call, hc'] at hcall
        cases hcall
        exact ⟨.refl f, .inl (congrArg Prod.snd heq)⟩
      · simp [call, hnone] at hcall
  | replicate source target opts =>
      rcases replicate_eq f source target opts with ⟨c', g', hc', heq⟩ | ⟨hnone, -⟩
      · rw [call, hc'] at hcall
        cases hcall
        exact ⟨replicateCall_sameViews hc', .inl (congrArg Prod.snd heq)⟩
      · simp [call, hnone] at hcall
  | move source target opts =>
      rcases replicate_eq f source target opts with ⟨c', g', hc', heq⟩ | ⟨hnone, -⟩
      · rw [call, hc'] at hcall
        cases hcall
        refine ⟨replicateCall_sameViews hc', ?_⟩
        rw [exec, move, heq]
        rcases hpub : g.publishCall c with ⟨r, f'⟩
        cases r with
        | error s => exact .inl rfl
        | ok p => exact .inr ⟨source.id, rfl, rfl, rfl⟩
      · simp [call, hnone] at hcall
  | _ => simp [call] at hcall

theorem defineObject_effect (f : Fabric β) (kind : EnumValue ObjectKind) (size : UInt64)
    (content : Bytes) (writer : AuthorityEnvelope) (durability : DurabilityRequirement)
    (priority : EnumValue RestorePriority) :
    Effect f (.defineObject kind size content writer durability priority)
      (f.defineObject kind size content writer durability priority).2 := by
  obtain ⟨⟨-, -, hid⟩, obj, hobj, heq⟩ | ⟨-, s, n, rfl | ⟨hid, rfl⟩, heq⟩ :=
    f.defineObject_cases kind size content writer durability priority
  · have hobjId : obj.id = ⟨f.objectCounter⟩ := congrArg ObjectDescriptor.id hobj
    rw [heq]
    exact .defined _ obj _ hobjId (hobjId ▸ hid) rfl rfl rfl
  · rw [heq]
    exact .silent _ _ (.refl f)
  · rw [heq]
    exact .duplicate _ _ hid rfl rfl rfl

theorem exec_effect (f : Fabric β) (op : Op β) : Effect f op (f.exec op) := by
  cases op with
  | registerLocalBackend name storageClass be probe =>
      exact .registered _ _ _ be _ rfl rfl rfl rfl rfl
  | registerSyntheticBackend name profile be => exact .registered _ _ _ be _ rfl rfl rfl rfl rfl
  | defineObject kind size content writer durability priority =>
      exact defineObject_effect f kind size content writer durability priority
  | publishTo obj content backend opts =>
      exact .called (.publishTo obj content backend opts) ⟨obj, content, backend, opts⟩ f rfl
        (.refl f) (.inl rfl)
  | publish score obj content opts =>
      rcases planCall_eq score f obj content opts with ⟨c, hc, heq⟩ | ⟨-, heq⟩
      · have hcall : f.call (.publish score obj content opts) = some (c, f) := by simp [call, hc]
        rw [exec, heq]
        exact .called _ c f hcall (.refl f) (.inl rfl)
      · rw [exec, heq]
        exact .silent _ _ (.refl f)
  | replicate source target opts =>
      rcases replicate_eq f source target opts with ⟨c, g, hc, heq⟩ | ⟨-, s, -, hviews⟩
      · rw [exec, heq]
        exact .called _ c g hc (replicateCall_sameViews hc) (.inl rfl)
      · exact .silent _ _ hviews
  | move source target opts =>
      rcases replicate_eq f source target opts with ⟨c, g, hc, heq⟩ | ⟨-, s, herr, hviews⟩
      · rw [exec, move, heq]
        rcases hpub : g.publishCall c with ⟨r, f'⟩
        -- a movement is the publication, and a demotion if that succeeds
        have hf' : f' = (g.publishCall c).2 := by rw [hpub]
        have hr : r = (g.publishCall c).1 := by rw [hpub]
        cases r with
        | error s =>
            rw [hf']
            exact .called _ c g hc (replicateCall_sameViews hc) (.inr ⟨s, hr.symm⟩)
        | ok p =>
            rw [hf']
            exact .moved _ source.id c g p hc (replicateCall_sameViews hc) rfl
              (replicateCall_mem hc) hr.symm
      · rw [exec, move]
        rcases hrep : f.replicate source target opts with ⟨r, f'⟩
        rw [hrep] at herr hviews
        cases herr
        exact .silent _ _ hviews
  | evict placement =>
      rw [exec, evict]
      cases hcheck : f.evictCheck placement with
      | inl decision => exact .silent _ _ (.refl f)
      | inr e => exact .evicted placement e hcheck
  | read object placement => exact .silent _ _ (sameViews_read f object placement)
  | verify placement => exact .silent _ _ (sameViews_verify f placement)
  | setAuthority authority => exact .silent _ _ ⟨rfl, rfl, rfl⟩
  | newCoordinatorEpoch => exact .silent _ _ ⟨rfl, rfl, rfl⟩

end Backend

/-! ### Invariants of the blobs -/

section Blobs

variable [StorageBackend β] {I : Fabric β → Prop}
  (hcongr : ∀ f g, g.blobView = f.blobView → I f → I g)
  (hstep : ∀ backend dedupe offset slice f, I f →
    I (chunkStep backend dedupe offset slice f).2)

include hcongr hstep

/-- What looks at the blob view only and is kept by every turn of the chunk loop
is kept by the loop. -/
theorem Started.keeps {f start g : Fabric β} {c : Call} {res : Reservation}
    {ledger : ReservationLedger} {rc : Result (List ChunkDescriptor)}
    (hstart : Started f c res ledger start rc g) (h : I f) : I g := by
  have hloop := chunkLoop_invariant (I := I) (fun o s f hf => hstep c.backend c.opts.dedupe o s f hf)
    (chunkLength c.obj c.opts) c.content.length 0 c.content start (hcongr f start hstart.blobs h)
  rwa [hstart.loop] at hloop

theorem publishCall_keeps {f : Fabric β} (h : I f) (c : Call) : I (f.publishCall c).2 := by
  have hout := publishCall_outcome f c
  generalize (f.publishCall c).1 = r at hout
  generalize (f.publishCall c).2 = f' at hout
  cases hout with
  | refused s ledger stale hrefuse => exact hcongr f _ rfl h
  | aborted s res ledger start rc g f' hstart habort =>
      exact hcongr g f' habort.blobs (hstart.keeps hcongr hstep h)
  | published res ledger start chunks desc t g f' hstart hpub =>
      exact hcongr g f' hpub.blobs (hstart.keeps hcongr hstep h)

theorem exec_keeps {f : Fabric β} {op : Op β}
    (hregister : ∀ g be,
      g.blobView = { f.blobView with backends := f.backends.emplace ⟨f.backendCounter⟩ be } → I g)
    (hevict : ∀ id e, op = .evict id → f.evictCheck id = .inr e →
      I ((f.evictRecord e).evictCommit e).2) (h : I f) : I (f.exec op) := by
  have heffect := exec_effect f op
  generalize f.exec op = f' at heffect
  cases heffect with
  | silent _ f' hviews => exact hcongr f f' hviews.blobs h
  | registered _ t desc be f' _ _ _ _ hblobs => exact hregister f' be hblobs
  | defined _ obj f' _ _ _ _ hblobs => exact hcongr f f' hblobs h
  | duplicate _ f' _ _ _ hblobs => exact hcongr f f' hblobs h
  | called _ c g _ hviews _ => exact publishCall_keeps hcongr hstep (hcongr f g hviews.blobs h) c
  | moved _ source c g p _ hviews _ _ _ =>
      exact hcongr (g.publishCall c).2 _ rfl
        (publishCall_keeps hcongr hstep (hcongr f g hviews.blobs h) c)
  | evicted id e hcheck => exact hevict id e rfl hcheck

end Blobs

end Fabric

end StorageFabric
