import StorageFabric.Runtime.Recovery
import StorageFabric.Runtime.Replicas

/-!
Reads after a recovery.

A recovery fills the maps of a runtime from a snapshot with loops over its
records. Each loop is one operation on one table, so the tables after a recovery
are known entry by entry. A read looks at one placement, its manifest and a
backend object; what it finds there after the recovery is what was there before
the save.
-/

namespace StorageFabric

open Persist

namespace Fabric

variable {β : Type}

/-! ### The loops -/

theorem foldl_recoverObject (f : Fabric β) (os : List ObjectDescriptor) :
    os.foldl recoverObject f =
      { f with
        catalog := AList.emplaceAll ObjectDescriptor.id
          (fun o => ({ object := o } : CatalogEntry)) f.catalog os } := by
  induction os generalizing f with
  | nil => rfl
  | cons o os ih =>
      rw [List.foldl_cons, ih]
      rfl

theorem foldl_recoverReplicaSet (f : Fabric β) (rss : List ReplicaSet) :
    rss.foldl recoverReplicaSet f =
      { f with
        catalog := AList.modifyAll ReplicaSet.object
          (fun rs e => { e with replicaSet := rs }) f.catalog rss } := by
  induction rss generalizing f with
  | nil => rfl
  | cons rs rss ih =>
      rw [List.foldl_cons, ih]
      rfl

theorem foldl_recoverManifest (f : Fabric β) (ms : List Manifest) :
    ms.foldl recoverManifest f =
      { f with manifests := AList.emplaceAll Manifest.id (fun m => m) f.manifests ms } := by
  induction ms generalizing f with
  | nil => rfl
  | cons m ms ih =>
      rw [List.foldl_cons, ih]
      rfl

theorem foldl_recoverPlacement (f : Fabric β) (ps : List PlacementRecord) :
    ps.foldl recoverPlacement f =
      { f with
        placements := AList.emplaceAll PlacementRecord.id (fun p => p) f.placements ps
        catalog := AList.modifyAll PlacementRecord.object
          (fun p e => { e with placements := e.placements ++ [p.id] }) f.catalog ps } := by
  induction ps generalizing f with
  | nil => rfl
  | cons p ps ih =>
      rw [List.foldl_cons, ih]
      rfl

theorem foldl_recoverBackend (f : Fabric β) (bs : List BackendDescriptor) :
    bs.foldl recoverBackend f =
      { f with
        backendDescriptors :=
          AList.emplaceAll BackendDescriptor.id (fun b => b) f.backendDescriptors bs } := by
  induction bs generalizing f with
  | nil => rfl
  | cons b bs ih =>
      rw [List.foldl_cons, ih]
      rfl

theorem foldl_recoverChunk (f : Fabric β) (cs : List ChunkDescriptor) :
    cs.foldl recoverChunk f =
      { f with
        blobDigest := cs.foldl (fun t c => t.insert c.blob c.digest) f.blobDigest
        blobSizes := cs.foldl (fun t c => t.insert c.blob c.physicalLength) f.blobSizes
        blobByDigest := cs.foldl (fun t c => t.insert c.digest c.blob) f.blobByDigest
        blobRefs := cs.foldl (fun t c => RefCount.retain c.blob t) f.blobRefs } := by
  induction cs generalizing f with
  | nil => rfl
  | cons c cs ih =>
      rw [List.foldl_cons, ih]
      rfl

theorem counter_foldl (bs : List BlobId) (counter : Nat) :
    counter ≤ bs.foldl (fun counter b => if counter ≤ b.value then b.value + 1 else counter)
        counter ∧
      ∀ b ∈ bs, b.value < bs.foldl
        (fun counter b => if counter ≤ b.value then b.value + 1 else counter) counter := by
  induction bs generalizing counter with
  | nil => simp
  | cons b bs ih =>
      obtain ⟨hle, hlt⟩ := ih (if counter ≤ b.value then b.value + 1 else counter)
      have hfirst : counter ≤ (if counter ≤ b.value then b.value + 1 else counter) ∧
          b.value < (if counter ≤ b.value then b.value + 1 else counter) := by
        split <;> omega
      rw [List.foldl_cons]
      refine ⟨Nat.le_trans hfirst.1 hle, fun k hk => ?_⟩
      rcases List.mem_cons.mp hk with rfl | hk
      · exact Nat.lt_of_lt_of_le hfirst.2 hle
      · exact hlt k hk

theorem lookup_foldl_offer {cs : List ChunkDescriptor} {t : Table ContentDigest BlobId}
    {d : ContentDigest} {b : BlobId}
    (h : (cs.foldl (fun t c => t.insert c.digest c.blob) t).lookup d = some b) :
    t.lookup d = some b ∨ ∃ c ∈ cs, c.digest = d ∧ c.blob = b := by
  induction cs generalizing t with
  | nil => exact .inl h
  | cons c cs ih =>
      obtain hold | ⟨c', hc', heq⟩ := ih h
      · obtain ⟨rfl, rfl⟩ | ⟨-, hold⟩ := AList.lookup_insert_eq_some.mp hold
        · exact .inr ⟨c, List.mem_cons_self, rfl, rfl⟩
        · exact .inl hold
      · exact .inr ⟨c', List.mem_cons_of_mem c hc', heq⟩

/-! ### The tables after a recovery -/

section Restore

variable (f : Fabric β) (snap : MetadataSnapshot) (path : Bytes) (nonce : Nat)

theorem repopulate_eq : f.repopulate snap =
    { f with
      catalog :=
        AList.modifyAll PlacementRecord.object
          (fun p e => { e with placements := e.placements ++ [p.id] })
          (AList.modifyAll ReplicaSet.object (fun rs e => { e with replicaSet := rs })
            (AList.emplaceAll ObjectDescriptor.id (fun o => ({ object := o } : CatalogEntry))
              f.catalog snap.objects) snap.replicaSets) snap.placements
      manifests := AList.emplaceAll Manifest.id (fun m => m) f.manifests snap.manifests
      placements :=
        AList.emplaceAll PlacementRecord.id (fun p => p) f.placements snap.placements
      backendDescriptors :=
        AList.emplaceAll BackendDescriptor.id (fun b => b) f.backendDescriptors snap.backends
      accounting := snap.accounting } := by
  simp only [repopulate, foldl_recoverObject, foldl_recoverReplicaSet, foldl_recoverManifest,
    foldl_recoverPlacement, foldl_recoverBackend]

theorem restore_tables :
    (f.restore snap path nonce).catalog = (f.repopulate snap).catalog ∧
      (f.restore snap path nonce).manifests = (f.repopulate snap).manifests ∧
      (f.restore snap path nonce).placements = (f.repopulate snap).placements ∧
      (f.restore snap path nonce).backends = f.backends := by
  simp only [restore, downgradeBackends, account, rebuildBlobs]
  rw [foldl_recoverChunk]
  exact ⟨rfl, rfl, rfl, by rw [repopulate_eq]⟩

/-- The dedup index after a recovery points to the chunks of all manifests. -/
theorem blobByDigest_restore : (f.restore snap path nonce).blobByDigest =
    ((f.restore snap path nonce).manifests.values.flatMap Manifest.chunks).foldl
      (fun t c => t.insert c.digest c.blob) f.blobByDigest := by
  obtain ⟨-, hmanifests, -, -⟩ := restore_tables f snap path nonce
  rw [hmanifests]
  simp only [restore, downgradeBackends, account, rebuildBlobs]
  rw [foldl_recoverChunk]
  simp only [repopulate_eq]

theorem blobRefs_restore : (f.restore snap path nonce).blobRefs =
    ((f.restore snap path nonce).manifests.values.flatMap Manifest.chunks).foldl
      (fun t c => RefCount.retain c.blob t) f.blobRefs := by
  obtain ⟨-, hmanifests, -, -⟩ := restore_tables f snap path nonce
  rw [hmanifests]
  simp only [restore, downgradeBackends, account, rebuildBlobs]
  rw [foldl_recoverChunk]
  simp only [repopulate_eq]

theorem blobCounter_restore : (f.restore snap path nonce).blobCounter =
    (f.restore snap path nonce).blobRefs.keys.foldl
      (fun counter b => if counter ≤ b.value then b.value + 1 else counter) f.blobCounter := by
  simp only [restore, downgradeBackends, account, rebuildBlobs]
  rw [foldl_recoverChunk]
  simp only [repopulate_eq]

theorem backendDescriptors_restore : (f.restore snap path nonce).backendDescriptors =
    f.backends.keys.foldl
      (fun t id => t.modify id fun b => { b with freshness := .known .revalidationRequired })
      (AList.emplaceAll BackendDescriptor.id (fun b => b) f.backendDescriptors snap.backends) := by
  simp only [restore, downgradeBackends, account, rebuildBlobs]
  rw [foldl_recoverChunk]
  simp only [repopulate_eq]

theorem lookup_placements_restore (id : PlacementId) :
    (f.restore snap path nonce).placements.lookup id =
      (f.placements.lookup id).or (snap.placements.find? fun p => p.id = id) := by
  obtain ⟨-, -, hplacements, -⟩ := restore_tables f snap path nonce
  rw [hplacements, repopulate_eq, AList.lookup_emplaceAll, Option.map_id']

theorem lookup_manifests_restore (id : ManifestId) :
    (f.restore snap path nonce).manifests.lookup id =
      (f.manifests.lookup id).or (snap.manifests.find? fun m => m.id = id) := by
  obtain ⟨-, hmanifests, -, -⟩ := restore_tables f snap path nonce
  rw [hmanifests, repopulate_eq, AList.lookup_emplaceAll, Option.map_id']

/-- The entry of an object is the one that was there or a new one for the first
record of the object, with the last replica set and all placements of the object
in the snapshot. -/
theorem lookup_catalog_restore (id : ObjectId) :
    (f.restore snap path nonce).catalog.lookup id =
      ((f.catalog.lookup id).or ((snap.objects.find? fun o => o.id = id).map
        fun o => ({ object := o } : CatalogEntry))).map fun e =>
          { e with
            replicaSet := (snap.replicaSets.filter fun rs => rs.object = id).getLast?.getD
              e.replicaSet
            placements := e.placements ++
              (snap.placements.filter fun p => p.object = id).map PlacementRecord.id } := by
  have hreplicaSet : ∀ (rss : List ReplicaSet) (e : CatalogEntry),
      rss.foldl (fun e rs => { e with replicaSet := rs }) e =
        { e with replicaSet := rss.getLast?.getD e.replicaSet } := by
    intro rss e
    induction rss generalizing e with
    | nil => rfl
    | cons rs rss ih =>
        rw [List.foldl_cons, ih, List.getLast?_cons]
        rfl
  have hplacements : ∀ (ps : List PlacementRecord) (e : CatalogEntry),
      ps.foldl (fun e p => { e with placements := e.placements ++ [p.id] }) e =
        { e with placements := e.placements ++ ps.map PlacementRecord.id } := by
    intro ps e
    induction ps generalizing e with
    | nil => simp
    | cons p ps ih =>
        rw [List.foldl_cons, ih]
        simp
  obtain ⟨hcatalog, -, -, -⟩ := restore_tables f snap path nonce
  rw [hcatalog, repopulate_eq, AList.lookup_modifyAll, AList.lookup_modifyAll,
    AList.lookup_emplaceAll, Option.map_map]
  simp only [hreplicaSet, hplacements, Function.comp_def]

end Restore

/-! ### The manifests -/

section Manifests

variable [StorageBackend β] {P : ManifestId → Manifest → Prop}

theorem manifests_publishCall_all {f : Fabric β} (h : f.manifests.All P) (c : Call)
    (hnew : ∀ res ledger start chunks g, Started f c res ledger start (.ok chunks) g →
      P ⟨f.manifestCounter⟩ (f.manifestOf c chunks)) : (f.publishCall c).2.manifests.All P := by
  have hout := publishCall_outcome f c
  generalize (f.publishCall c).1 = r at hout
  generalize (f.publishCall c).2 = f' at hout
  cases hout with
  | refused s ledger stale hrefuse => exact h
  | aborted s res ledger start rc g f' hstart habort =>
      obtain hsame | ⟨chunks, rfl, -, hadded⟩ := habort.manifests
      · exact hsame ▸ h
      · rw [hadded]
        exact h.insert (hnew res ledger start chunks g hstart)
  | published res ledger start chunks desc t g f' hstart hpub =>
      have hadded : f'.manifests =
          f.manifests.insert ⟨f.manifestCounter⟩ (f.manifestOf c chunks) :=
        congrArg ManifestView.manifests hpub.manifests
      rw [hadded]
      exact h.insert (hnew res ledger start chunks g hstart)

theorem manifests_exec_all {f : Fabric β} (h : f.manifests.All P)
    (hnew : ∀ (f : Fabric β) c res ledger start chunks g,
      Started f c res ledger start (.ok chunks) g →
        P ⟨f.manifestCounter⟩ (f.manifestOf c chunks)) (op : Op β) :
    (f.exec op).manifests.All P := by
  have hview : ∀ {f g : Fabric β}, g.manifestView = f.manifestView → f.manifests.All P →
      g.manifests.All P := by
    intro f g hview hf
    have hsame : g.manifests = f.manifests := congrArg ManifestView.manifests hview
    exact hsame ▸ hf
  have heffect := exec_effect f op
  generalize f.exec op = f' at heffect
  cases heffect with
  | silent _ f' hviews => exact hview hviews.manifests h
  | registered _ t desc be f' _ _ _ hmanifests _ => exact hview hmanifests h
  | defined _ obj f' _ _ _ hmanifests _ => exact hview hmanifests h
  | duplicate _ f' _ _ hmanifests _ => exact hview hmanifests h
  | called _ c g _ hviews _ =>
      exact manifests_publishCall_all (hview hviews.manifests h) c (hnew g c)
  | moved _ source c g p _ hviews _ _ _ =>
      exact hview rfl (manifests_publishCall_all (hview hviews.manifests h) c (hnew g c))
  | evicted id e hcheck => exact hview (manifestView_evict f e) h

end Manifests

/-- Every manifest is held under its own id. -/
def ManifestsKeyed (f : Fabric β) : Prop := ∀ id m, f.manifests.lookup id = some m → m.id = id

theorem manifestsKeyed_empty : ManifestsKeyed ({} : Fabric β) := by
  intro id m hm
  cases hm

theorem manifestsKeyed_exec [StorageBackend β] {f : Fabric β} (h : ManifestsKeyed f) (op : Op β) :
    ManifestsKeyed (f.exec op) :=
  manifests_exec_all (P := fun id m => m.id = id) h (fun _ _ _ _ _ _ _ _ => rfl) op

/-! ### Backends that are registered again -/

/-- The backend objects, in the order of their registration: the ids are drawn from
a counter that starts at one. -/
def registered (f : Fabric β) : List (Option β) :=
  (List.range' 1 (f.backendCounter - 1)).map fun n => f.backends.lookup ⟨n⟩

/-- The registered backends are those whose ids have been drawn. -/
structure Numbered (f : Fabric β) : Prop where
  pos : 0 < f.backendCounter
  mem_iff : ∀ id, id ∈ f.backends ↔ 0 < id.value ∧ id.value < f.backendCounter

theorem numbered_empty : Numbered ({} : Fabric β) where
  pos := Nat.one_pos
  mem_iff id := by
    show id ∈ (∅ : Table StorageBackendId β) ↔ 0 < id.value ∧ id.value < 1
    simp
    omega

theorem Numbered.emplace {f g : Fabric β} (h : Numbered f) {be : β}
    (hbackends : g.backends = f.backends.emplace ⟨f.backendCounter⟩ be)
    (hcounter : g.backendCounter = f.backendCounter + 1) :
    Numbered g ∧ g.registered = f.registered ++ [some be] := by
  have hnew : (⟨f.backendCounter⟩ : StorageBackendId) ∉ f.backends := fun hmem =>
    Nat.lt_irrefl _ ((h.mem_iff _).mp hmem).2
  have hlookup : ∀ id, g.backends.lookup id =
      if id = ⟨f.backendCounter⟩ then some be else f.backends.lookup id := by
    intro id
    rw [hbackends, AList.lookup_emplace_of_notMem hnew]
  have hpos := h.pos
  refine ⟨⟨by omega, fun id => ?_⟩, ?_⟩
  · rw [AList.mem_iff_lookup, hlookup]
    by_cases hid : id = ⟨f.backendCounter⟩
    · simp only [hid, if_true, Option.some.injEq, exists_eq', true_iff]
      omega
    · have hne : id.value ≠ f.backendCounter := fun heq => hid (StrongId.ext heq)
      rw [if_neg hid, ← AList.mem_iff_lookup, h.mem_iff]
      omega
  · obtain ⟨n, hn⟩ : ∃ n, f.backendCounter = n + 1 := ⟨f.backendCounter - 1, by omega⟩
    rw [registered, registered, hcounter, hn, Nat.add_sub_cancel, Nat.add_sub_cancel,
      List.range'_concat, List.map_append]
    congr 1
    · refine List.map_congr_left fun k hk => ?_
      have hlt := (List.mem_range'_1.mp hk).2
      have hne : (⟨k⟩ : StorageBackendId) ≠ ⟨f.backendCounter⟩ := by
        intro heq
        have heq' : k = f.backendCounter := congrArg StrongId.value heq
        omega
      rw [hlookup, if_neg hne]
    · have hlast : (⟨1 + 1 * n⟩ : StorageBackendId) = ⟨f.backendCounter⟩ := by
        apply StrongId.ext
        show 1 + 1 * n = f.backendCounter
        omega
      rw [List.map_singleton, hlookup, if_pos hlast]

/-! ### What the operations do to the registered ids -/

section Numbered

variable [StorageBackend β]

theorem keys_putOn (f : Fabric β) (k : StorageBackendId) (data key : Bytes) :
    (f.putOn k data key).2.backends.keys = f.backends.keys := by
  unfold putOn
  cases f.backends.lookup k with
  | none => rfl
  | some be => exact AList.keys_modify _ _ _

theorem keys_removeOn (f : Fabric β) (k : StorageBackendId) (key : Bytes) :
    (f.removeOn k key).backends.keys = f.backends.keys := by
  unfold removeOn
  cases f.backends.lookup k with
  | none => rfl
  | some be => exact AList.keys_modify _ _ _

theorem keys_removeBlobs (k : StorageBackendId) (bs : List BlobId) (f : Fabric β) :
    (removeBlobs k bs f).backends.keys = f.backends.keys := by
  induction bs generalizing f with
  | nil => rfl
  | cons b bs ih => rw [removeBlobs, ih, keys_removeOn]

theorem keys_evict (f : Fabric β) (e : Eviction) :
    ((f.evictRecord e).evictCommit e).2.backends.keys = f.backends.keys := by
  have hmetadata : ((f.evictRecord e).evictMetadata e).backends = (f.evictRecord e).backends :=
    congrArg BlobView.backends (blobView_evictMetadata _ e)
  rw [evictCommit, keys_removeBlobs, hmetadata, evictRecord, keys_removeOn]

theorem keys_publishCall (f : Fabric β) (c : Call) :
    (f.publishCall c).2.backends.keys = f.backends.keys := by
  refine publishCall_keeps (I := fun g => g.backends.keys = f.backends.keys) ?_ ?_ rfl c
  · intro g k hview hg
    have hsame : k.backends = g.backends := congrArg BlobView.backends hview
    rw [hsame, hg]
  · intro backend dedupe offset slice g hg
    obtain ⟨_, _, _, h⟩ | ⟨_, _, h⟩ | ⟨_, _, h⟩ := chunkStep_cases backend dedupe offset slice g
    · rw [h]
      exact hg
    · rw [h]
      exact (keys_putOn _ _ _ _).trans hg
    · rw [h]
      exact (keys_putOn _ _ _ _).trans hg

theorem counters_publishCall (f : Fabric β) (c : Call) :
    (f.publishCall c).2.backendCounter = f.backendCounter ∧
      (f.publishCall c).2.objectCounter = f.objectCounter := by
  have hout := publishCall_outcome f c
  generalize (f.publishCall c).1 = r at hout
  generalize (f.publishCall c).2 = f' at hout
  cases hout with
  | refused s ledger stale hrefuse => exact ⟨rfl, rfl⟩
  | aborted s res ledger start rc g f' hstart habort =>
      obtain ⟨m, n, -, -, hview⟩ := habort.catalog
      exact ⟨congrArg CatalogView.backendCounter hview,
        congrArg CatalogView.objectCounter hview⟩
  | published res ledger start chunks desc t g f' hstart hpub =>
      exact ⟨congrArg CatalogView.backendCounter hpub.catalog,
        congrArg CatalogView.objectCounter hpub.catalog⟩

theorem numbered_exec {f : Fabric β} (h : Numbered f) (op : Op β) : Numbered (f.exec op) := by
  have hsame : ∀ {f g : Fabric β}, g.backends.keys = f.backends.keys →
      g.backendCounter = f.backendCounter → Numbered f → Numbered g := by
    intro f g hkeys hcounter hf
    refine ⟨hcounter ▸ hf.pos, fun id => ?_⟩
    rw [AList.mem_keys, hkeys, ← AList.mem_keys, hcounter, hf.mem_iff]
  have hviews : ∀ {f g : Fabric β}, g.backendCounter = f.backendCounter →
      g.blobView = f.blobView → Numbered f → Numbered g := by
    intro f g hcounter hblobs hf
    have hbackends : g.backends = f.backends := congrArg BlobView.backends hblobs
    exact hsame (by rw [hbackends]) hcounter hf
  have hcall : ∀ {g : Fabric β} c, Numbered g → Numbered (g.publishCall c).2 := fun c hg =>
    hsame (keys_publishCall _ c) (counters_publishCall _ c).1 hg
  have heffect := exec_effect f op
  generalize f.exec op = f' at heffect
  cases heffect with
  | silent _ f' hv => exact hviews (congrArg CatalogView.backendCounter hv.catalog) hv.blobs h
  | registered _ t desc be f' _ _ hcatalog _ hblobs =>
      have hcounter : f'.backendCounter = f.backendCounter + 1 :=
        congrArg CatalogView.backendCounter hcatalog
      exact (h.emplace (congrArg BlobView.backends hblobs) hcounter).1
  | defined _ obj f' _ _ hcatalog _ hblobs =>
      have hcounter : f'.backendCounter = f.backendCounter :=
        congrArg CatalogView.backendCounter hcatalog
      exact hviews hcounter hblobs h
  | duplicate _ f' _ hcatalog _ hblobs =>
      have hcounter : f'.backendCounter = f.backendCounter :=
        congrArg CatalogView.backendCounter hcatalog
      exact hviews hcounter hblobs h
  | called _ c g _ hv _ =>
      exact hcall c (hviews (congrArg CatalogView.backendCounter hv.catalog) hv.blobs h)
  | moved _ source c g p _ hv _ _ _ =>
      have hg := hviews (congrArg CatalogView.backendCounter hv.catalog) hv.blobs h
      exact hsame (f := (g.publishCall c).2) rfl rfl (hcall c hg)
  | evicted id e hcheck =>
      exact hsame (keys_evict f e)
        (congrArg CatalogView.backendCounter (catalogView_evict hcheck)) h

end Numbered

/-! ### A runtime with nothing but backends -/

structure Blank (f : Fabric β) : Prop where
  catalog : f.catalog = ∅
  manifests : f.manifests = ∅
  placements : f.placements = ∅

section Blank

variable [StorageBackend β]

theorem exec_registers {f : Fabric β} {op : Op β} {be : β} (h : op.registers = some be) :
    (f.exec op).backends = f.backends.emplace ⟨f.backendCounter⟩ be ∧
      (f.exec op).backendCounter = f.backendCounter + 1 ∧ (f.exec op).catalog = f.catalog ∧
      (f.exec op).manifests = f.manifests ∧ (f.exec op).placements = f.placements := by
  cases op with
  | registerLocalBackend name storageClass be' probe =>
      cases h
      exact ⟨rfl, rfl, rfl, rfl, rfl⟩
  | registerSyntheticBackend name profile be' =>
      cases h
      exact ⟨rfl, rfl, rfl, rfl, rfl⟩
  | _ => cases h

theorem run_registers {regs : List (Op β)} {bes : List β}
    (hregs : regs.map Op.registers = bes.map some) {f : Fabric β} (hblank : Blank f)
    (hnumbered : Numbered f) :
    Blank (Runs.run exec f regs) ∧ Numbered (Runs.run exec f regs) ∧
      (Runs.run exec f regs).registered = f.registered ++ bes.map some := by
  induction regs generalizing f bes with
  | nil =>
      obtain rfl : bes = [] := List.map_eq_nil_iff.mp hregs.symm
      exact ⟨hblank, hnumbered, (List.append_nil _).symm⟩
  | cons op regs ih =>
      cases bes with
      | nil => cases hregs
      | cons be bes =>
          obtain ⟨hop, hothers⟩ := List.cons.inj hregs
          obtain ⟨hbackends, hcounter, hcatalog, hmanifests, hplacements⟩ :=
            exec_registers (f := f) hop
          obtain ⟨hnext, hlist⟩ := hnumbered.emplace hbackends hcounter
          have hstill : Blank (f.exec op) :=
            ⟨hcatalog.trans hblank.catalog, hmanifests.trans hblank.manifests,
              hplacements.trans hblank.placements⟩
          obtain ⟨hrunBlank, hrunNumbered, hrun⟩ := ih hothers hstill hnext
          refine ⟨hrunBlank, hrunNumbered, ?_⟩
          rw [Runs.run_cons, hrun, hlist, List.append_assoc]
          rfl

end Blank

theorem Numbered.registered_some {f : Fabric β} (h : Numbered f) :
    ∃ bes : List β, f.registered = bes.map some := by
  have hall : ∀ o ∈ f.registered, o.isSome := by
    intro o ho
    obtain ⟨n, hn, rfl⟩ := List.mem_map.mp ho
    obtain ⟨hpos, hlt⟩ := List.mem_range'_1.mp hn
    rw [AList.lookup_isSome, h.mem_iff]
    have hcounter := h.pos
    show 0 < n ∧ n < f.backendCounter
    omega
  generalize f.registered = l at hall
  induction l with
  | nil => exact ⟨[], rfl⟩
  | cons o l ih =>
      obtain ⟨be, hbe⟩ := Option.isSome_iff_exists.mp (hall o List.mem_cons_self)
      obtain ⟨bes, hbes⟩ := ih fun o' ho' => hall o' (List.mem_cons_of_mem o ho')
      exact ⟨be :: bes, by rw [hbe, hbes]; rfl⟩

theorem Numbered.lookup_eq {f g : Fabric β} (hf : Numbered f) (hg : Numbered g)
    (h : g.registered = f.registered) (id : StorageBackendId) :
    g.backends.lookup id = f.backends.lookup id := by
  have hposf := hf.pos
  have hposg := hg.pos
  have hcounter : g.backendCounter = f.backendCounter := by
    have hlength := congrArg List.length h
    simp only [registered, List.length_map, List.length_range'] at hlength
    omega
  by_cases hid : 0 < id.value ∧ id.value < f.backendCounter
  · rw [registered, registered, hcounter, List.map_inj_left] at h
    have hmem : id.value ∈ List.range' 1 (f.backendCounter - 1) := by
      rw [List.mem_range'_1]
      omega
    exact h id.value hmem
  · have hnotf : id ∉ f.backends := fun hmem => hid ((hf.mem_iff id).mp hmem)
    have hnotg : id ∉ g.backends := fun hmem => hid (hcounter ▸ (hg.mem_iff id).mp hmem)
    rw [AList.lookup_eq_none.mpr hnotf, AList.lookup_eq_none.mpr hnotg]

/-! ### Reads -/

section Reads

variable [StorageBackend β]

/-- A read of a placement depends on the placement, its manifest and its backend
object, and on nothing else. -/
theorem read_congr {f g : Fabric β} (object : ObjectId) {id : PlacementId}
    (hplacement : g.placements.lookup id = f.placements.lookup id)
    (hmanifest : ∀ m, g.manifests.lookup m = f.manifests.lookup m)
    (hbackend : ∀ k, g.backends.lookup k = f.backends.lookup k) :
    (g.read object (some id)).1 = (f.read object (some id)).1 := by
  have hlookup : g.lookupForRead object (some id) = f.lookupForRead object (some id) := by
    simp only [lookupForRead, hplacement, hmanifest]
  unfold read
  rw [hlookup]
  cases hfound : f.lookupForRead object (some id) with
  | error s => rfl
  | ok found =>
      have hget : ∀ h : Fabric β, ∀ u, (h.account u).getBackend found.1.backend =
          h.getBackend found.1.backend := fun _ _ => rfl
      have hsame : g.getBackend found.1.backend = f.getBackend found.1.backend := by
        simp only [getBackend, hbackend]
      simp only [hget, hsame]
      cases f.getBackend found.1.backend with
      | error s => rfl
      | ok be =>
          dsimp only
          cases reserveOut found.2 with
          | error s => rfl
          | ok u =>
              dsimp only
              cases readChunks (found.2.chunks.map fun c => (be, c)) <;> rfl

end Reads

/-! ### Save, then recover -/

section Recover

variable {f g : Fabric β} (path : Bytes) (nonce : Nat)

theorem distinct_snapshot (hf : f.catalogView.Identified) (hkeyed : ManifestsKeyed f) :
    f.snapshot.Distinct where
  objects := by
    show ((f.catalog.values.map CatalogEntry.object).map ObjectDescriptor.id).Nodup
    rw [List.map_map]
    refine AList.nodup_map_values fun o o' e e' he he' heq => ?_
    exact ((hf.object_id o e he).1.symm.trans heq).trans (hf.object_id o' e' he').1
  manifests := AList.nodup_map_values fun k k' m m' hm hm' heq =>
    ((hkeyed k m hm).symm.trans heq).trans (hkeyed k' m' hm')
  placements := AList.nodup_map_values fun k k' p p' hp hp' heq =>
    ((hf.placement_id k p hp).symm.trans heq).trans (hf.placement_id k' p' hp')
  replicas := AList.nodup_map_values fun k k' p p' hp hp' heq => hf.replica_inj k k' p p' hp hp' heq

theorem Blank.lookup_placements (hg : Blank g) (hf : f.catalogView.Identified) (id : PlacementId) :
    (g.restore f.snapshot path nonce).placements.lookup id = f.placements.lookup id := by
  rw [lookup_placements_restore, hg.placements, AList.lookup_empty, Option.none_or]
  exact AList.find?_values hf.placement_id id

theorem Blank.lookup_manifests (hg : Blank g) (hkeyed : ManifestsKeyed f) (id : ManifestId) :
    (g.restore f.snapshot path nonce).manifests.lookup id = f.manifests.lookup id := by
  rw [lookup_manifests_restore, hg.manifests, AList.lookup_empty, Option.none_or]
  exact AList.find?_values hkeyed id

theorem find?_objects (hf : f.catalog.All fun id e => e.object.id = id) (id : ObjectId) :
    (f.snapshot.objects.find? fun o => o.id = id) =
      (f.catalog.lookup id).map CatalogEntry.object := by
  have hfind : (f.catalog.values.find? fun e => e.object.id = id) = f.catalog.lookup id :=
    AList.find?_values hf id
  rw [← hfind]
  exact List.find?_map

theorem filter_replicaSets (hf : f.catalogView.Identified) (id : ObjectId) :
    (f.snapshot.replicaSets.filter fun rs => rs.object = id) =
      (f.catalog.lookup id).toList.map CatalogEntry.replicaSet := by
  have hfilter : (f.catalog.values.filter fun e => e.replicaSet.object = id) =
      (f.catalog.lookup id).toList :=
    AList.filter_values (fun o e he => (hf.object_id o e he).2) id
  rw [← hfilter]
  exact List.filter_map

theorem Blank.lookup_catalog (hg : Blank g) (hf : f.catalogView.Identified) (id : ObjectId) :
    ((g.restore f.snapshot path nonce).catalog.lookup id).map
        (fun e => (e.object, e.replicaSet)) =
      (f.catalog.lookup id).map fun e => (e.object, e.replicaSet) := by
  have hobjects : f.catalog.All fun id e => e.object.id = id :=
    fun o e he => (hf.object_id o e he).1
  rw [lookup_catalog_restore, hg.catalog, AList.lookup_empty, Option.none_or,
    find?_objects hobjects, filter_replicaSets hf]
  cases f.catalog.lookup id <;> rfl

theorem Blank.records_perm (hg : Blank g) (hf : f.catalogView.Identified) :
    (g.restore f.snapshot path nonce).objects.Perm f.objects ∧
      (g.restore f.snapshot path nonce).placementRecords.Perm f.placementRecords ∧
      (g.restore f.snapshot path nonce).replicaSets.Perm f.replicaSets := by
  refine ⟨?_, ?_, ?_⟩
  · refine AList.perm_values_map fun id => ?_
    have hentry := congrArg (Option.map Prod.fst) (hg.lookup_catalog path nonce hf id)
    rw [Option.map_map, Option.map_map] at hentry
    exact hentry
  · have hperm : ((g.restore f.snapshot path nonce).placements.values.map fun p => p).Perm
        (f.placements.values.map fun p => p) :=
      AList.perm_values_map fun id => by rw [hg.lookup_placements path nonce hf]
    rwa [List.map_id', List.map_id'] at hperm
  · refine AList.perm_values_map fun id => ?_
    have hentry := congrArg (Option.map Prod.snd) (hg.lookup_catalog path nonce hf id)
    rw [Option.map_map, Option.map_map] at hentry
    exact hentry

theorem recorded_saved {path : Bytes} {fault : SaveFault} {files : Table Bytes Bytes}
    (hstorable : f.snapshot.Storable) (hdistinct : f.snapshot.Distinct)
    (hshort : ∀ payload, encPayload f.snapshot = some payload → payload.length < 2 ^ 32)
    (hsave : (f.save path fault files).1.isOk = true) :
    recorded (f.save path fault files).2.2 path = some f.snapshot := by
  obtain ⟨res, blob, hserial, -, hfile⟩ := save_ok hsave
  obtain ⟨payload, hpayload⟩ : ∃ payload, encPayload f.snapshot = some payload := by
    cases hp : encPayload f.snapshot with
    | some payload => exact ⟨payload, rfl⟩
    | none =>
        rw [serializeSnapshot, hp] at hserial
        cases hserial
  have hread := deserialize_serialize hstorable hdistinct hpayload (hshort payload hpayload) hserial
  rw [recorded, hfile, Option.bind_some, hread]
  rfl

/-- Every runtime recovers what a file holds. -/
theorem recover_recorded {path : Bytes} {files : Table Bytes Bytes} {snap : MetadataSnapshot}
    (h : recorded files path = some snap) (nowNs : UInt64) :
    g.recover path files nowNs = (.okStatus, g.restore snap path (workerBootNonce nowNs)) := by
  obtain ⟨snap', hsnap, heq⟩ | ⟨hnone, -, -⟩ := recover_cases g path files nowNs
  · obtain rfl := Option.some.inj (h.symm.trans hsnap)
    exact heq
  · rw [h] at hnone
    cases hnone

theorem recover_saved {path : Bytes} {fault : SaveFault} {files : Table Bytes Bytes}
    (hstorable : f.snapshot.Storable) (hdistinct : f.snapshot.Distinct)
    (hshort : ∀ payload, encPayload f.snapshot = some payload → payload.length < 2 ^ 32)
    (hsave : (f.save path fault files).1.isOk = true) (nowNs : UInt64) :
    g.recover path (f.save path fault files).2.2 nowNs =
      (.okStatus, g.restore f.snapshot path (workerBootNonce nowNs)) :=
  recover_recorded (recorded_saved hstorable hdistinct hshort hsave) nowNs

end Recover

variable [StorageBackend β]

/-- Reads survive a recovery: if a reachable state is saved, a fresh runtime with
the same backends recovers the file, has the same objects, placements and replica
sets, and reads from every placement what was read from it before. -/
theorem reads_survive_recovery (ops : List (Op β))
    (hstorable : (Runs.run exec {} ops).snapshot.Storable)
    (hshort : ∀ payload, encPayload (Runs.run exec {} ops).snapshot = some payload →
      payload.length < 2 ^ 32)
    (path : Bytes) (fault : SaveFault) (files : Table Bytes Bytes)
    (hsave : ((Runs.run exec {} ops).save path fault files).1.isOk = true)
    (regs : List (Op β))
    (hregs : regs.map Op.registers = (Runs.run exec {} ops).registered) (nowNs : UInt64) :
    let f : Fabric β := Runs.run exec {} ops
    let saved := (f.save path fault files).2.2
    let out := (Runs.run exec ({} : Fabric β) regs).recover path saved nowNs
    out.1.isOk = true ∧ out.2.objects.Perm f.objects ∧
      out.2.placementRecords.Perm f.placementRecords ∧ out.2.replicaSets.Perm f.replicaSets ∧
      ∀ object id, (out.2.read object (some id)).1 = (f.read object (some id)).1 := by
  intro f saved out
  have hf : f.catalogView.Identified :=
    Runs.invariant (P := fun _ _ => True) (I := fun f : Fabric β => f.catalogView.Identified)
      (fun _ op h _ => identified_exec h op) catalogInv_empty.identified
      (Runs.along_of_forall (fun _ _ => trivial) _ _)
  have hkeyed : ManifestsKeyed f :=
    Runs.invariant (P := fun _ _ => True) (I := ManifestsKeyed)
      (fun _ op h _ => manifestsKeyed_exec h op) manifestsKeyed_empty
      (Runs.along_of_forall (fun _ _ => trivial) _ _)
  have hnumbered : Numbered f :=
    Runs.invariant (P := fun _ _ => True) (I := Numbered)
      (fun _ op h _ => numbered_exec h op) numbered_empty
      (Runs.along_of_forall (fun _ _ => trivial) _ _)
  -- the fresh runtime has the backends and nothing else
  obtain ⟨bes, hbes⟩ := hnumbered.registered_some
  obtain ⟨hblank, hagain, hsame⟩ :=
    run_registers (f := ({} : Fabric β)) (hregs.trans hbes) ⟨rfl, rfl, rfl⟩ numbered_empty
  have hbackends := hnumbered.lookup_eq hagain (hsame.trans hbes.symm)
  have hout : out = _ := recover_saved hstorable (distinct_snapshot hf hkeyed) hshort hsave nowNs
  obtain ⟨hobjects, hplacements, hreplicaSets⟩ :=
    hblank.records_perm path (workerBootNonce nowNs) hf
  rw [hout]
  refine ⟨rfl, hobjects, hplacements, hreplicaSets, fun object id => ?_⟩
  refine read_congr object (hblank.lookup_placements _ _ hf id)
    (fun m => hblank.lookup_manifests _ _ hkeyed m) fun k => ?_
  obtain ⟨-, -, -, hkept⟩ := restore_tables (Runs.run exec {} regs) f.snapshot path
    (workerBootNonce nowNs)
  rw [hkept]
  exact hbackends k

def publishedStore : Fabric SyntheticBackend :=
  Runs.run exec {} (Small.opening ++ [Small.publication])

def reopening : List (Op SyntheticBackend) :=
  [.registerSyntheticBackend (ascii "small") {} ((publishedStore.backends.lookup ⟨1⟩).getD {})]

theorem registers_reopening : reopening.map Op.registers = publishedStore.registered := by
  have hrun : publishedStore.backendCounter = 2 ∧
      (publishedStore.backends.lookup ⟨1⟩).isSome = true := by decide +kernel
  obtain ⟨be, hbe⟩ := Option.isSome_iff_exists.mp hrun.2
  rw [registered, hrun.1, reopening, hbe]
  show [some be] = [publishedStore.backends.lookup ⟨1⟩]
  rw [hbe]

set_option maxRecDepth 20000 in
/-- The store is saved and recovered, and read. -/
theorem reads_survive_recovery_small :
    let saved := (publishedStore.save (ascii "m") .none ∅).2.2
    let out := (Runs.run exec {} reopening).recover (ascii "m") saved 0
    out.1.isOk = true ∧ out.2.objects.Perm publishedStore.objects ∧
      out.2.placementRecords.Perm publishedStore.placementRecords ∧
      out.2.replicaSets.Perm publishedStore.replicaSets ∧
      ∀ object id, (out.2.read object (some id)).1 =
        (publishedStore.read object (some id)).1 := by
  have hshort : (encPayload publishedStore.snapshot).all
      fun payload => decide (payload.length < 2 ^ 32) := by decide +kernel
  refine reads_survive_recovery (Small.opening ++ [Small.publication]) (by decide +kernel) ?_
    (ascii "m") .none ∅ (by decide +kernel) reopening registers_reopening 0
  intro payload hpayload
  have hpayload' : encPayload publishedStore.snapshot = some payload := hpayload
  rw [hpayload'] at hshort
  exact of_decide_eq_true hshort

end Fabric

end StorageFabric
