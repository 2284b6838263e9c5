import StorageFabric.Runtime.Host
import StorageFabric.Runtime.Rebuild
import StorageFabric.Storage.Dispatch

/-!
The ids that the allocators draw.

Within one process the counters are ahead of all ids in use, so nothing that is
drawn is taken. A recovery restores none of the counters of objects, manifests,
placements and replicas: it keeps them ahead only of what it reads if they are ahead
already.
-/

namespace StorageFabric

/-! ### Ids below the counters -/

/-- The manifest, the placements and the replicas of a catalog entry have ids below
the given bounds. -/
structure CatalogEntry.Below (manifest placement replica : Nat) (e : CatalogEntry) : Prop where
  manifest : e.manifest.id.value < manifest
  placements : ∀ id ∈ e.placements, id.value < placement
  replicas : ∀ r ∈ e.replicaSet.replicas, r.id.value < replica

theorem CatalogEntry.Below.mono {m m' p p' r r' : Nat} {e : CatalogEntry} (h : e.Below m p r)
    (hm : m ≤ m') (hp : p ≤ p') (hr : r ≤ r') : e.Below m' p' r' where
  manifest := Nat.lt_of_lt_of_le h.manifest hm
  placements id hid := Nat.lt_of_lt_of_le (h.placements id hid) hp
  replicas x hx := Nat.lt_of_lt_of_le (h.replicas x hx) hr

namespace Fabric

variable {β : Type}

/-- All ids in the two views are below the counters. -/
structure IdsBelow (v : CatalogView) (w : ManifestView) : Prop where
  positive : 0 < w.manifestCounter
  catalog : v.catalog.All fun id e => id.value < v.objectCounter ∧
    e.Below w.manifestCounter v.placementCounter v.replicaCounter
  manifests : w.manifests.All fun id _ => id.value < w.manifestCounter
  placements : v.placements.All fun id p => id.value < v.placementCounter ∧
    p.replica.value < v.replicaCounter ∧ p.manifest.value < w.manifestCounter

/-- The counters of a state are ahead of all ids in use. -/
def Allocated (f : Fabric β) : Prop := IdsBelow f.catalogView f.manifestView

theorem allocated_empty : Allocated ({} : Fabric β) :=
  ⟨Nat.one_pos, AList.all_empty, AList.all_empty, AList.all_empty⟩

theorem Allocated.congr {f g : Fabric β} (h : f.Allocated) (hcatalog : g.catalogView = f.catalogView)
    (hmanifests : g.manifestView = f.manifestView) : g.Allocated := by
  rw [Allocated, hcatalog, hmanifests]
  exact h

theorem IdsBelow.raise {v : CatalogView} {w : ManifestView} (h : IdsBelow v w) {o p r m : Nat}
    (ho : v.objectCounter ≤ o) (hp : v.placementCounter ≤ p) (hr : v.replicaCounter ≤ r)
    (hm : w.manifestCounter ≤ m) :
    IdsBelow { v with objectCounter := o, placementCounter := p, replicaCounter := r }
      { w with manifestCounter := m } where
  positive := Nat.lt_of_lt_of_le h.positive hm
  catalog id e he := ⟨Nat.lt_of_lt_of_le (h.catalog id e he).1 ho,
    (h.catalog id e he).2.mono hm hp hr⟩
  manifests id man hman := Nat.lt_of_lt_of_le (h.manifests id man hman) hm
  placements id q hq := by
    obtain ⟨hid, hreplica, hmanifest⟩ := h.placements id q hq
    exact ⟨Nat.lt_of_lt_of_le hid hp, Nat.lt_of_lt_of_le hreplica hr,
      Nat.lt_of_lt_of_le hmanifest hm⟩

/-! ### Fresh ids -/

def objectIds (f : Fabric β) : List ObjectId := f.catalog.keys

def manifestIds (f : Fabric β) : List ManifestId :=
  f.manifests.keys ++ f.placementRecords.map PlacementRecord.manifest ++
    f.catalog.values.map fun e => e.manifest.id

def placementIds (f : Fabric β) : List PlacementId :=
  f.placements.keys ++ f.catalog.values.flatMap CatalogEntry.placements

def replicaIds (f : Fabric β) : List ReplicaId :=
  f.placementRecords.map PlacementRecord.replica ++
    f.replicaSets.flatMap fun rs => rs.replicas.map ReplicaInfo.id

/-- The ids that are drawn next are not in use. -/
structure FreshIds (f : Fabric β) : Prop where
  object : f.allocObjectId.1 ∉ f.objectIds
  manifest : f.allocManifestId.1 ∉ f.manifestIds
  placement : f.allocPlacementId.1 ∉ f.placementIds
  replica : f.allocReplicaId.1 ∉ f.replicaIds

theorem Allocated.freshIds {f : Fabric β} (h : f.Allocated) : f.FreshIds where
  object hmem := by
    obtain ⟨e, he⟩ := AList.mem_iff_lookup.mp (AList.mem_keys.mpr hmem)
    exact Nat.lt_irrefl _ (h.catalog _ e he).1
  manifest hmem := by
    simp only [manifestIds, placementRecords, List.mem_append, List.mem_map,
      AList.mem_values] at hmem
    obtain (hmem | ⟨p, ⟨id, hp⟩, heq⟩) | ⟨e, ⟨id, he⟩, heq⟩ := hmem
    · obtain ⟨m, hm⟩ := AList.mem_iff_lookup.mp (AList.mem_keys.mpr hmem)
      exact Nat.lt_irrefl _ (h.manifests _ m hm)
    · have hlt := (h.placements id p hp).2.2
      rw [heq] at hlt
      exact Nat.lt_irrefl _ hlt
    · have hlt := (h.catalog id e he).2.manifest
      rw [heq] at hlt
      exact Nat.lt_irrefl _ hlt
  placement hmem := by
    simp only [placementIds, List.mem_append, List.mem_flatMap, AList.mem_values] at hmem
    obtain hmem | ⟨e, ⟨id, he⟩, hlisted⟩ := hmem
    · obtain ⟨p, hp⟩ := AList.mem_iff_lookup.mp (AList.mem_keys.mpr hmem)
      exact Nat.lt_irrefl _ (h.placements _ p hp).1
    · exact Nat.lt_irrefl _ ((h.catalog id e he).2.placements _ hlisted)
  replica hmem := by
    simp only [replicaIds, placementRecords, replicaSets, List.mem_append, List.mem_map,
      List.mem_flatMap, AList.mem_values] at hmem
    obtain ⟨p, ⟨id, hp⟩, heq⟩ | ⟨rs, ⟨e, ⟨id, he⟩, rfl⟩, r, hr, heq⟩ := hmem
    · have hlt := (h.placements id p hp).2.1
      rw [heq] at hlt
      exact Nat.lt_irrefl _ hlt
    · have hlt := (h.catalog id e he).2.replicas r hr
      rw [heq] at hlt
      exact Nat.lt_irrefl _ hlt

/-! ### What the operations keep -/

theorem below_newEntry (obj : ObjectDescriptor) {m p r : Nat} (hm : 0 < m) :
    (newEntry obj).Below m p r where
  manifest := hm
  placements _ hid := absurd hid List.not_mem_nil
  replicas _ hr := absurd hr List.not_mem_nil

theorem below_attachPlacement {m p r : Nat} {e : CatalogEntry} (h : e.Below m p r) {man : Manifest}
    {q : PlacementRecord} {x : ReplicaInfo} (hman : man.id.value < m) (hq : q.id.value < p)
    (hx : x.id.value < r) (auth : AuthorityEnvelope) : (attachPlacement man q x auth e).Below m p r where
  manifest := hman
  placements id hid := by
    obtain hid | hid := List.mem_append.mp hid
    · exact h.placements id hid
    · obtain rfl := List.mem_singleton.mp hid
      exact hq
  replicas y hy := by
    have hmem : y ∈ (if e.replicaSet.replicas.any fun rp => rp.id = q.replica
        then e.replicaSet.replicas else e.replicaSet.replicas ++ [x]) := hy
    split at hmem
    · exact h.replicas y hmem
    · obtain hmem | hmem := List.mem_append.mp hmem
      · exact h.replicas y hmem
      · obtain rfl := List.mem_singleton.mp hmem
        exact hx

theorem below_detachReplica {m p r : Nat} {e : CatalogEntry} (h : e.Below m p r) (id : ReplicaId) :
    (detachReplica id e).Below m p r where
  manifest := h.manifest
  placements := h.placements
  replicas x hx := h.replicas x (List.mem_of_mem_eraseP hx)

section Backend

variable [StorageBackend β]

theorem Allocated.publishCall {f : Fabric β} (h : f.Allocated) (c : Call) :
    (f.publishCall c).2.Allocated := by
  have hout := publishCall_outcome f c
  generalize (f.publishCall c).1 = r at hout
  generalize (f.publishCall c).2 = f' at hout
  have hcounter : f.manifestCounter ≤ f.manifestCounter + 1 := Nat.le_succ _
  cases hout with
  | refused s ledger stale hrefuse => exact h.congr rfl rfl
  | aborted s res ledger start rc g f' hstart habort =>
      obtain ⟨m, n, hm, hn, hview⟩ := habort.catalog
      have hraised := h.raise (Nat.le_refl _) hm hn hcounter
      have hmanifests : f'.manifestView = ⟨f'.manifests, f.manifestCounter + 1⟩ := by
        rw [← habort.manifestCounter]
        rfl
      rw [Allocated, hview, hmanifests]
      refine ⟨hraised.positive, hraised.catalog, ?_, hraised.placements⟩
      obtain hsame | ⟨chunks, -, -, hadded⟩ := habort.manifests
      · exact hsame ▸ hraised.manifests
      · exact hadded ▸ hraised.manifests.insert (Nat.lt_succ_self _)
  | published res ledger start chunks desc t g f' hstart hpub =>
      have hraised := h.raise (Nat.le_refl _) (Nat.le_succ f.placementCounter)
        (Nat.le_succ f.replicaCounter) hcounter
      rw [Allocated, hpub.catalog, hpub.manifests]
      refine ⟨hraised.positive, ?_, hraised.manifests.insert (Nat.lt_succ_self _), ?_⟩
      · refine hraised.catalog.modify fun e he => ⟨he.1, ?_⟩
        exact below_attachPlacement he.2 (Nat.lt_succ_self _) (Nat.lt_succ_self _)
          (Nat.lt_succ_self _) _
      · exact hraised.placements.insert
          ⟨Nat.lt_succ_self _, Nat.lt_succ_self _, Nat.lt_succ_self _⟩

theorem Allocated.exec {f : Fabric β} (h : f.Allocated) (op : Op β) : (f.exec op).Allocated := by
  have heffect := exec_effect f op
  generalize f.exec op = f' at heffect
  cases heffect with
  | silent _ f' hviews => exact h.congr hviews.catalog hviews.manifests
  | registered _ t desc be f' _ _ hcatalog hmanifests _ =>
      rw [Allocated, hcatalog, hmanifests]
      exact ⟨h.positive, h.catalog, h.manifests, h.placements⟩
  | defined _ obj f' hid _ hcatalog hmanifests _ =>
      have hraised := h.raise (Nat.le_succ f.objectCounter) (Nat.le_refl _) (Nat.le_refl _)
        (Nat.le_refl _)
      rw [Allocated, hcatalog, hmanifests]
      refine ⟨hraised.positive, hraised.catalog.insert ⟨?_, ?_⟩, hraised.manifests,
        hraised.placements⟩
      · rw [hid]
        exact Nat.lt_succ_self _
      · exact below_newEntry obj h.positive
  | duplicate _ f' _ hcatalog hmanifests _ =>
      rw [Allocated, hcatalog, hmanifests]
      exact h.raise (Nat.le_succ f.objectCounter) (Nat.le_refl _) (Nat.le_refl _) (Nat.le_refl _)
  | called _ c g _ hviews _ => exact (h.congr hviews.catalog hviews.manifests).publishCall c
  | moved _ source c g p _ hviews _ _ _ =>
      have hpub := (h.congr hviews.catalog hviews.manifests).publishCall c
      exact ⟨hpub.positive, hpub.catalog, hpub.manifests, hpub.placements.modify fun _ hp => hp⟩
  | evicted id e hcheck =>
      rw [Allocated, catalogView_evict hcheck, manifestView_evict]
      exact ⟨h.positive, h.catalog.modify fun x hx => ⟨hx.1, below_detachReplica hx.2 _⟩,
        h.manifests, h.placements.modify fun _ hp => hp⟩

end Backend

/-! ### Recovery -/

/-- The ids in a snapshot are below the counters of the runtime. -/
structure Covers (f : Fabric β) (snap : MetadataSnapshot) : Prop where
  objects : ∀ o ∈ snap.objects, o.id.value < f.objectCounter
  manifests : ∀ m ∈ snap.manifests, m.id.value < f.manifestCounter
  placements : ∀ p ∈ snap.placements, p.id.value < f.placementCounter ∧
    p.replica.value < f.replicaCounter ∧ p.manifest.value < f.manifestCounter
  replicas : ∀ rs ∈ snap.replicaSets, ∀ r ∈ rs.replicas, r.id.value < f.replicaCounter

/-- A recovery draws no ids. -/
theorem counters_restore (f : Fabric β) (snap : MetadataSnapshot) (path : Bytes) (nonce : Nat) :
    (f.restore snap path nonce).objectCounter = f.objectCounter ∧
      (f.restore snap path nonce).manifestCounter = f.manifestCounter ∧
      (f.restore snap path nonce).placementCounter = f.placementCounter ∧
      (f.restore snap path nonce).replicaCounter = f.replicaCounter := by
  simp only [restore, downgradeBackends, account, rebuildBlobs]
  rw [foldl_recoverChunk]
  simp only [repopulate_eq, and_self]

theorem Allocated.restore {f : Fabric β} (h : f.Allocated) {snap : MetadataSnapshot}
    (hcovers : f.Covers snap) (path : Bytes) (nonce : Nat) :
    (f.restore snap path nonce).Allocated := by
  obtain ⟨hcatalog, hmanifests, hplacements, -⟩ := restore_tables f snap path nonce
  obtain ⟨hobject, hmanifest, hplacement, hreplica⟩ := counters_restore f snap path nonce
  constructor
  · show 0 < (f.restore snap path nonce).manifestCounter
    rw [hmanifest]
    exact h.positive
  · simp only [catalogView, manifestView, hcatalog, hobject, hmanifest, hplacement, hreplica,
      repopulate_eq]
    refine AList.All.modifyAll (AList.All.modifyAll (h.catalog.emplaceAll fun o ho => ?_) ?_) ?_
    · exact ⟨hcovers.objects o ho, h.positive, fun _ hid => absurd hid List.not_mem_nil,
        fun _ hr => absurd hr List.not_mem_nil⟩
    · exact fun rs hrs e he => ⟨he.1, he.2.manifest, he.2.placements, hcovers.replicas rs hrs⟩
    · intro p hp e he
      refine ⟨he.1, he.2.manifest, fun id hid => ?_, he.2.replicas⟩
      obtain hid | hid := List.mem_append.mp hid
      · exact he.2.placements id hid
      · obtain rfl := List.mem_singleton.mp hid
        exact (hcovers.placements p hp).1
  · simp only [manifestView, hmanifests, hmanifest, repopulate_eq]
    exact h.manifests.emplaceAll hcovers.manifests
  · simp only [catalogView, manifestView, hplacements, hmanifest, hplacement, hreplica,
      repopulate_eq]
    exact h.placements.emplaceAll hcovers.placements

end Fabric

/-! ### Identities that are taken -/

/-- The result does not say that an identity is taken. -/
def Undisputed {α : Type} (r : Result α) : Prop :=
  ∀ s, r = .error s → s.code ≠ .duplicateIdentity

theorem undisputed_ok {α : Type} (a : α) : Undisputed (.ok a : Result α) := by
  intro s h
  cases h

theorem undisputed_error {α : Type} {s : Status} (h : s.code ≠ .duplicateIdentity) :
    Undisputed (.error s : Result α) := by
  rintro _ ⟨⟩
  exact h

theorem undisputed_failure {α : Type} {code : StatusCode} {message : Bytes}
    (h : code ≠ .duplicateIdentity) : Undisputed (Result.failure code message : Result α) :=
  undisputed_error h

theorem undisputed_fail {α : Type} {code : StatusCode} {message : String}
    (h : code ≠ .duplicateIdentity) : Undisputed (Result.fail code message : Result α) :=
  undisputed_error h

theorem undisputed_ite {α : Type} {P : Prop} [Decidable P] {r r' : Result α} (hr : Undisputed r)
    (hr' : Undisputed r') : Undisputed (if P then r else r') := by
  split
  · exact hr
  · exact hr'

/-- The governed keys are turned down with codes of their own. -/
theorem code_validateGovernedKey (key : Bytes) :
    (validateGovernedKey key).code ≠ .duplicateIdentity := by
  have hcomponents : ∀ turns rest, (validateComponents turns rest).code ≠ .duplicateIdentity := by
    intro turns
    induction turns with
    | zero =>
        intro rest
        show StatusCode.ok ≠ .duplicateIdentity
        decide
    | succ turns ih =>
        intro rest
        cases rest with
        | nil =>
            show StatusCode.ok ≠ .duplicateIdentity
            decide
        | cons x rest =>
            rw [validateComponents]
            · split
              · decide
              · split
                · decide
                · exact ih _
            · exact nofun
  unfold validateGovernedKey
  repeat' split
  all_goals first | decide | exact hcomponents _ _

theorem undisputed_put_local (b : LocalBackend) (data key : Bytes) :
    Undisputed (b.put data key).1 := by
  unfold LocalBackend.put LocalBackend.resolveKey
  by_cases hk : (!(validateGovernedKey key).isOk) = true
  · simp only [hk, if_true]
    exact undisputed_error (code_validateGovernedKey key)
  · simp only [hk]
    cases b.writeFault with
    | none => exact undisputed_ok _
    | some msg => exact undisputed_failure (by decide)

theorem undisputed_put_synthetic (b : SyntheticBackend) (data key : Bytes) :
    Undisputed (b.put data key).1 := by
  have hcode : (b.ensureAvailable "write").code ≠ .duplicateIdentity := by
    unfold SyntheticBackend.ensureAvailable
    repeat' split
    all_goals decide
  unfold SyntheticBackend.put
  dsimp only
  split
  · exact undisputed_error hcode
  · split
    · exact undisputed_fail (by decide)
    · exact undisputed_ok _

/-- No backend that the runtime registers reports an identity. -/
theorem undisputed_put (be : AnyBackend) (data key : Bytes) :
    Undisputed (StorageBackend.put be data key).1 := by
  cases be with
  | onDisk b => exact undisputed_put_local b data key
  | inMemory b => exact undisputed_put_synthetic b data key

theorem undisputed_validateChunks (total : UInt64) (allowGaps : Bool)
    {cs : List ChunkDescriptor} (hcs : (cs.map ChunkDescriptor.id).Nodup) {ids : List ChunkId}
    (hids : ∀ c ∈ cs, c.id ∉ ids) (cursor : UInt64) :
    Undisputed (validateChunks total allowGaps ids cursor cs) := by
  induction cs generalizing ids cursor with
  | nil => exact undisputed_ok _
  | cons c cs ih =>
      rw [List.map_cons, List.nodup_cons] at hcs
      have hlater : ∀ c' ∈ cs, c'.id ∉ c.id :: ids := by
        intro c' hc' hmem
        obtain heq | hmem := List.mem_cons.mp hmem
        · exact hcs.1 (heq ▸ List.mem_map_of_mem hc')
        · exact hids c' (List.mem_cons_of_mem c hc') hmem
      rw [validateChunks, if_neg (hids c List.mem_cons_self)]
      refine undisputed_ite (undisputed_fail (by decide)) ?_
      refine undisputed_ite (undisputed_fail (by decide)) ?_
      refine undisputed_ite (undisputed_fail (by decide)) ?_
      refine undisputed_ite (undisputed_fail (by decide)) ?_
      refine undisputed_ite (undisputed_fail (by decide)) ?_
      refine undisputed_ite (undisputed_fail (by decide)) ?_
      refine undisputed_ite (undisputed_fail (by decide)) ?_
      exact undisputed_ite (undisputed_fail (by decide)) (ih hcs.2 hlater _)

theorem undisputed_validate {m : Manifest} (h : (m.chunks.map ChunkDescriptor.id).Nodup) :
    Undisputed m.validate := by
  unfold Manifest.validate validateManifest
  refine undisputed_ite (undisputed_fail (by decide)) ?_
  refine undisputed_ite (undisputed_fail (by decide)) ?_
  refine undisputed_ite (undisputed_fail (by decide)) ?_
  refine undisputed_ite (undisputed_fail (by decide)) ?_
  refine undisputed_ite (undisputed_fail (by decide)) ?_
  have hchunks := undisputed_validateChunks m.totalLogicalLength false h
    (fun _ _ => List.not_mem_nil) 0
  cases hrun : validateChunks m.totalLogicalLength false [] 0 m.chunks with
  | error s => exact undisputed_error (hchunks s hrun)
  | ok cursor =>
      refine undisputed_ite (undisputed_fail (by decide)) ?_
      exact undisputed_ite (undisputed_fail (by decide)) (undisputed_ok _)

namespace Fabric

section Backend

variable {β : Type} [StorageBackend β]

theorem Started.undisputed {f start g : Fabric β} {c : Call} {res : Reservation}
    {ledger : ReservationLedger} {chunks : List ChunkDescriptor}
    (h : Started f c res ledger start (.ok chunks) g) :
    Undisputed (f.manifestOf c chunks).validate := by
  obtain ⟨hids, hordered⟩ := h.ordered
  refine undisputed_validate ?_
  rw [chunks_manifestOf h]
  refine List.pairwise_map.mpr (hordered.imp_of_mem fun {a b} ha hb hlt heq => ?_)
  have hoffset := hids a ha
  rw [heq, hids b hb] at hoffset
  rw [UInt64.lt_iff_toNat_lt] at hlt
  omega

theorem undisputed_verifyChunks (f : Fabric β) (backend : StorageBackendId)
    (cs : List ChunkDescriptor) : Undisputed (f.verifyChunks backend cs) := by
  induction cs with
  | nil => exact undisputed_ok _
  | cons c cs ih =>
      rw [verifyChunks, getBackend]
      cases f.backends.lookup backend with
      | none => exact undisputed_error (by decide)
      | some be =>
          dsimp only
          cases StorageBackend.read be (blobKey c.blob) with
          | error s => exact undisputed_fail (by decide)
          | ok data => exact undisputed_ite (undisputed_fail (by decide)) ih

section Loop

variable (hput : ∀ (be : β) data key, Undisputed (StorageBackend.put be data key).1)
include hput

theorem undisputed_chunkLoop (backend : StorageBackendId) (dedupe : Bool)
    (chunk turns offset : Nat) (rest : Bytes) (f : Fabric β) :
    Undisputed (chunkLoop backend dedupe chunk turns offset rest f).1 := by
  refine chunkLoop_induction backend dedupe (Q := fun _ _ _ rc _ => Undisputed rc)
    (fun _ _ => undisputed_ok _) ?_ ?_ chunk turns offset rest f
  · intro offset slice parts f s g hstep
    have hfail := (chunkStep_error hstep).1
    refine undisputed_error ?_
    unfold putOn at hfail
    cases hbe : f.allocBlobId.2.backends.lookup backend with
    | none =>
        rw [hbe] at hfail
        exact undisputed_fail (by decide) s hfail
    | some be =>
        rw [hbe] at hfail
        exact hput be _ _ s hfail
  · intro offset slice parts f c k rc g _ ih
    cases rc with
    | error s => exact undisputed_error (ih s rfl)
    | ok cs => exact undisputed_ok _

omit [StorageBackend β] hput in
theorem undisputed_commitPlacement {f : Fabric β}
    (hfresh : (⟨f.placementCounter⟩ : PlacementId) ∉ f.placements) (guard : ReservationGuard)
    (obj : ObjectDescriptor) (backend : StorageBackendId) (auth : AuthorityEnvelope)
    (opts : PublishOptions) (man : Manifest) :
    Undisputed (f.commitPlacement guard obj backend auth opts man).1 := by
  unfold commitPlacement
  simp only [allocPlacementId, allocReplicaId, hfresh, if_false]
  cases f.backendDescriptors.lookup backend with
  | none => exact undisputed_fail (by decide)
  | some desc =>
      dsimp only
      cases f.tiers.lookup desc.tier with
      | none => exact undisputed_fail (by decide)
      | some t =>
          dsimp only
          by_cases hst : (guard.commit f.reservations ⟨f.placementCounter⟩).1.isOk = true
          · simp only [hst, account]
            cases f.catalog.lookup obj.id with
            | none => exact undisputed_fail (by decide)
            | some entry => exact undisputed_ok _
          · simp only [hst]
            exact undisputed_failure (by decide)

theorem undisputed_publishReserved {f : Fabric β}
    (hmanifest : (⟨f.manifestCounter⟩ : ManifestId) ∉ f.manifests)
    (hplacement : (⟨f.placementCounter⟩ : PlacementId) ∉ f.placements) (guard : ReservationGuard)
    (c : Call) (auth : AuthorityEnvelope)
    (hvalid : ∀ chunks g, chunkLoop c.backend c.opts.dedupe (chunkLength c.obj c.opts)
      c.content.length 0 c.content f.allocManifestId.2 = (.ok chunks, g) →
        Undisputed (f.manifestOf c chunks).validate) :
    Undisputed (f.publishReserved guard c.obj c.content c.backend auth c.opts).1 := by
  have hloop := undisputed_chunkLoop hput c.backend c.opts.dedupe (chunkLength c.obj c.opts)
    c.content.length 0 c.content f.allocManifestId.2
  have hcatalog := catalogView_chunkLoop c.backend c.opts.dedupe (chunkLength c.obj c.opts)
    c.content.length 0 c.content f.allocManifestId.2
  have hman := manifestView_chunkLoop c.backend c.opts.dedupe (chunkLength c.obj c.opts)
    c.content.length 0 c.content f.allocManifestId.2
  unfold publishReserved
  rcases hrun : chunkLoop c.backend c.opts.dedupe (chunkLength c.obj c.opts) c.content.length 0
    c.content f.allocManifestId.2 with ⟨rc, g⟩
  rw [hrun] at hloop hcatalog hman
  simp only [hrun]
  cases rc with
  | error s => exact undisputed_error (hloop s rfl)
  | ok chunks =>
      have hverify := undisputed_verifyChunks g c.backend chunks
      have hvalidate := hvalid chunks g hrun
      dsimp only
      cases hverified : (if c.opts.eagerVerify then g.verifyChunks c.backend chunks
        else .ok ()) with
      | error s =>
          refine undisputed_error ?_
          exact undisputed_ite hverify (undisputed_ok ()) s hverified
      | ok u =>
          dsimp only
          cases hvalidated : (buildManifest f.allocManifestId.1 c.obj chunks).validate with
          | error s => exact undisputed_error (hvalidate s hvalidated)
          | ok u =>
              -- the loop adds no manifest and no placement, so the new ids are still free
              have hmanifests : g.manifests = f.manifests := congrArg ManifestView.manifests hman
              have hfresh : (buildManifest f.allocManifestId.1 c.obj chunks).id ∉ g.manifests :=
                hmanifests ▸ hmanifest
              obtain ⟨-, -, -, hplacements, -, -, -, -, hcounter⟩ := CatalogView.mk.inj hcatalog
              simp only [hfresh, if_false]
              refine undisputed_commitPlacement ?_ guard c.obj c.backend auth c.opts _
              show (⟨g.placementCounter⟩ : PlacementId) ∉ g.placements
              rw [hplacements, hcounter]
              exact hplacement

/-- While the counters are ahead, no publication finds an identity taken. -/
theorem undisputed_publishCall {f : Fabric β} (h : f.Allocated) (c : Call) :
    Undisputed (f.publishCall c).1 := by
  have hmanifest : (⟨f.manifestCounter⟩ : ManifestId) ∉ f.manifests := by
    intro hmem
    obtain ⟨m, hm⟩ := AList.mem_iff_lookup.mp hmem
    exact Nat.lt_irrefl _ (h.manifests _ m hm)
  have hplacement : (⟨f.placementCounter⟩ : PlacementId) ∉ f.placements := by
    intro hmem
    obtain ⟨p, hp⟩ := AList.mem_iff_lookup.mp hmem
    exact Nat.lt_irrefl _ (h.placements _ p hp).1
  by_cases hrefuses : f.Refuses c
  · obtain ⟨⟨s, hs, hcode⟩, -⟩ := publishCall_refused hrefuses
    rw [hs]
    exact undisputed_error fun heq => absurd (heq ▸ hcode) (by decide)
  · obtain ⟨res, -, heq⟩ := publishCall_accepted hrefuses
    obtain ⟨res', hstart⟩ := started_holding hrefuses
    rw [heq]
    refine undisputed_publishReserved hput (f := f.holding c) hmanifest hplacement { res } c _ ?_
    intro chunks g hrun
    have hstored : f.storeChunks c = (.ok chunks, g) := hrun
    rw [hstored] at hstart
    exact hstart.undisputed

end Loop

omit [StorageBackend β] in
theorem undisputed_defineObject {f : Fabric β} (h : f.Allocated) (kind : EnumValue ObjectKind)
    (size : UInt64) (content : Bytes) (writer : AuthorityEnvelope)
    (durability : DurabilityRequirement) (priority : EnumValue RestorePriority) :
    Undisputed (f.defineObject kind size content writer durability priority).1 := by
  have hobject : (⟨f.objectCounter⟩ : ObjectId) ∉ f.catalog := by
    intro hmem
    obtain ⟨e, he⟩ := AList.mem_iff_lookup.mp hmem
    exact Nat.lt_irrefl _ (h.catalog _ e he).1
  unfold defineObject
  split
  · exact undisputed_fail (by decide)
  · split
    · exact undisputed_fail (by decide)
    · have hid : (describeObject f.allocObjectId.1 kind size content writer durability priority
          f.allocObjectId.2.policyGeneration).id ∉ f.allocObjectId.2.catalog := hobject
      simp only [hid, if_false]
      exact undisputed_ok _

end Backend

end Fabric

/-! ### Every process -/

namespace Host

variable {β : Type}

/-- A file that is recovered has no ids that the runtime has yet to draw. -/
def ReadsCovered (h : Host β) : HostOp β → Prop
  | .recover path _ => ∀ snap, Fabric.recorded h.files path = some snap → h.fabric.Covers snap
  | _ => True

variable [StorageBackend β]

theorem allocated_step {h : Host β} (hf : h.fabric.Allocated) {op : HostOp β}
    (hop : h.ReadsCovered op) : (h.step op).fabric.Allocated := by
  refine fabric_step (I := Fabric.Allocated) hf Fabric.allocated_empty
    (fun op _ => hf.exec op) (fun _ => hf.congr rfl rfl) ?_
  rintro path nowNs snap nonce rfl hsnap
  exact hf.restore (hop snap hsnap) path nonce

theorem allocated_run {ops : List (HostOp β)} (hops : Runs.Along step ReadsCovered {} ops) :
    (Runs.run step {} ops).fabric.Allocated :=
  Runs.invariant (I := fun h : Host β => h.fabric.Allocated) (fun _ _ hf hop => allocated_step hf hop)
    Fabric.allocated_empty hops

end Host

namespace Fabric

/-- In every history of a process in which no file brings ids that are still to be
drawn: the ids that are drawn next are fresh, and no identity is found taken, neither
by a definition nor by a publication of any operation. -/
theorem ids_stay_fresh (ops : List (HostOp AnyBackend))
    (hops : Runs.Along Host.step Host.ReadsCovered {} ops) :
    let f := (Runs.run Host.step {} ops).fabric
    f.FreshIds ∧
      (∀ kind size content writer durability priority,
        Undisputed (f.defineObject kind size content writer durability priority).1) ∧
      (∀ obj content backend opts, Undisputed (f.publishTo obj content backend opts).1) ∧
      ∀ op c g, f.call op = some (c, g) → Undisputed (g.publishCall c).1 := by
  intro f
  have hf : f.Allocated := Host.allocated_run hops
  refine ⟨hf.freshIds, undisputed_defineObject hf, fun obj content backend opts => ?_, ?_⟩
  · exact undisputed_publishCall undisputed_put hf ⟨obj, content, backend, opts⟩
  · intro op c g hcall
    obtain ⟨hviews, -⟩ := exec_of_call hcall
    exact undisputed_publishCall undisputed_put (hf.congr hviews.catalog hviews.manifests) c

theorem Recorded.covers {f : Fabric AnyBackend} (hf : Recorded f) (h : f.Allocated) :
    f.Covers f.snapshot where
  objects o ho := by
    obtain ⟨e, he, rfl⟩ := List.mem_map.mp ho
    obtain ⟨id, hid⟩ := AList.mem_values.mp he
    rw [(hf.identified.object_id id e hid).1]
    exact (h.catalog id e hid).1
  manifests m hm := by
    obtain ⟨id, hid⟩ := AList.mem_values.mp hm
    rw [hf.keyed id m hid]
    exact h.manifests id m hid
  placements p hp := by
    obtain ⟨id, hid⟩ := AList.mem_values.mp hp
    rw [hf.identified.placement_id id p hid]
    exact h.placements id p hid
  replicas rs hrs := by
    obtain ⟨e, he, rfl⟩ := List.mem_map.mp hrs
    obtain ⟨id, hid⟩ := AList.mem_values.mp he
    exact (h.catalog id e hid).2.replicas

theorem readsCovered_own {f : Fabric AnyBackend} (hf : Recorded f) (h : f.Allocated) {path : Bytes}
    (hkeeps : f.Keeps path) (nowNs : UInt64) :
    Runs.Along Host.step Host.ReadsCovered ⟨f, ∅⟩ [.save path .none, .recover path nowNs] := by
  refine ⟨trivial, fun snap hsnap => ?_, trivial⟩
  have hfile : recorded (f.save path .none ∅).2.2 path = some f.snapshot :=
    recorded_saved hkeeps.1 (distinct_snapshot hf.identified hf.keyed) hkeeps.short hkeeps.2.2
  obtain rfl : f.snapshot = snap := Option.some.inj (hfile.symm.trans hsnap)
  obtain ⟨last, hlast⟩ := Host.fabric_save f path .none ∅
  show (f.save path .none ∅).2.1.Covers f.snapshot
  rw [hlast]
  obtain ⟨hobjects, hmanifests, hplacements, hreplicas⟩ := hf.covers h
  exact ⟨hobjects, hmanifests, hplacements, hreplicas⟩

def storedOps : List (Op AnyBackend) :=
  [.registerSyntheticBackend (ascii "small") {} (.inMemory {}),
    .setAuthority { epoch := ⟨1⟩ },
    .defineObject (.known .genericAiState) 1 [7] {} {} (.known .normal),
    .publishTo Small.object [7] ⟨1⟩ { eagerVerify := false }]

def storedState : Fabric AnyBackend := Runs.run exec {} storedOps

set_option maxRecDepth 20000 in
theorem storedState_keeps : storedState.Keeps (ascii "m") ∧ ⟨1⟩ ∈ storedState.catalog := by
  decide +kernel

/-- The process that keeps running finds fresh ids after it has recovered its own
file. -/
theorem ids_stay_fresh_small :
    let f := (Runs.run Host.step {} (storedOps.map .exec ++
      [.save (ascii "m") .none, .recover (ascii "m") 0])).fabric
    f.FreshIds ∧
      (∀ kind size content writer durability priority,
        Undisputed (f.defineObject kind size content writer durability priority).1) ∧
      (∀ obj content backend opts, Undisputed (f.publishTo obj content backend opts).1) ∧
      ∀ op c g, f.call op = some (c, g) → Undisputed (g.publishCall c).1 := by
  refine ids_stay_fresh _ (Runs.along_append.mpr ⟨?_, ?_⟩)
  · refine Runs.along_of_mem fun h o ho => ?_
    obtain ⟨op, -, rfl⟩ := List.mem_map.mp ho
    trivial
  · rw [Host.run_exec]
    have hstored : storedState.Allocated :=
      Runs.invariant (P := fun _ _ => True) (fun _ op h _ => h.exec op) allocated_empty
        (Runs.along_of_forall (fun _ _ => trivial) _ storedOps)
    exact readsCovered_own (recorded_run storedOps) hstored storedState_keeps.1 0

theorem Blank.mem_catalog {β : Type} {f g : Fabric β} (hg : Blank g)
    (hf : f.catalogView.Identified) (path : Bytes) (nonce : Nat) {o : ObjectId}
    (ho : o ∈ f.catalog) : o ∈ (g.restore f.snapshot path nonce).catalog := by
  obtain ⟨e, he⟩ := AList.mem_iff_lookup.mp ho
  have hentry := hg.lookup_catalog path nonce hf o
  rw [he, Option.map_some] at hentry
  obtain ⟨e', he', -⟩ := Option.map_eq_some_iff.mp hentry
  exact AList.mem_iff_lookup.mpr ⟨e', he'⟩

theorem defineObject_taken {β : Type} {f : Fabric β}
    (h : (⟨f.objectCounter⟩ : ObjectId) ∈ f.catalog) :
    (f.defineObject (.known .genericAiState) 1 [7] {} {} (.known .normal)).1 =
      Result.fail .duplicateIdentity "duplicate object id" := by
  have hid : (describeObject f.allocObjectId.1 (.known .genericAiState) 1 [7] {} {}
      (.known .normal) f.allocObjectId.2.policyGeneration).id ∈ f.allocObjectId.2.catalog := h
  unfold defineObject
  rw [if_neg (by decide), if_neg (by decide)]
  simp only [hid, if_true]

/-- A new process that recovers the file draws the id of the object that is there. -/
theorem recovery_takes_ids :
    let f := (Runs.run Host.step {} (storedOps.map .exec ++
      [.save (ascii "m") .none, .restart, .recover (ascii "m") 0])).fabric
    ¬f.FreshIds ∧ (f.defineObject (.known .genericAiState) 1 [7] {} {} (.known .normal)).1 =
      Result.fail .duplicateIdentity "duplicate object id" := by
  intro f
  obtain ⟨hkeeps, hheld⟩ := storedState_keeps
  have hstored : Recorded storedState := recorded_run storedOps
  have hf : f = ({} : Fabric AnyBackend).restore storedState.snapshot (ascii "m")
      (workerBootNonce 0) := by
    show (Runs.run Host.step {} _).fabric = _
    rw [Runs.run_append, Host.run_exec]
    exact fabric_reopened hstored hkeeps [] 0
  have hcounter : f.objectCounter = 1 :=
    hf ▸ (counters_restore ({} : Fabric AnyBackend) storedState.snapshot (ascii "m")
      (workerBootNonce 0)).1
  have htaken : (⟨f.objectCounter⟩ : ObjectId) ∈ f.catalog := by
    rw [hcounter, hf]
    exact unused_empty.blank.mem_catalog hstored.identified _ _ hheld
  exact ⟨fun hfresh => hfresh.object (AList.mem_keys.mp htaken), defineObject_taken htaken⟩

end Fabric

end StorageFabric
