import StorageFabric.Persist.Decoded
import StorageFabric.Runtime.Restore
import StorageFabric.Runtime.Slices

/-!
States that can be saved and recovered.

Whether a file can be read back depends on the records that were saved. `Savable`
says of every record in the tables what its decoder wants, and each operation is
looked at for the records that it adds. Only two of these depend on a caller: the
kind of an object, and the envelope under which something is published.
-/

namespace StorageFabric

open Persist

namespace Fabric

variable {β : Type}

/-- No counter has run over its 64 bits. -/
@[mk_iff]
structure Room (f : Fabric β) : Prop where
  backend : f.backendCounter ≤ 2 ^ 64
  tier : f.tierCounter ≤ 2 ^ 64
  object : f.objectCounter ≤ 2 ^ 64
  manifest : f.manifestCounter ≤ 2 ^ 64
  replica : f.replicaCounter ≤ 2 ^ 64
  placement : f.placementCounter ≤ 2 ^ 64
  blob : f.blobCounter ≤ 2 ^ 64

instance (f : Fabric β) : Decidable f.Room := decidable_of_iff _ (room_iff f).symm

structure Savable (f : Fabric β) : Prop where
  objects : f.catalog.All fun id e =>
    e.object.id = id ∧ e.object.Storable ∧ e.replicaSet.Storable
  manifests : f.manifests.All fun id m => m.id = id ∧ m.Storable
  placements : f.placements.All fun id p => p.id = id ∧ p.Storable
  replicas : ∀ id id' p p', f.placements.lookup id = some p → f.placements.lookup id' = some p' →
    p.replica = p'.replica → id = id'
  backends : f.backendDescriptors.All fun id b => b.id = id ∧ b.Storable
  blobs : f.blobByDigest.All fun _ b => b.value < 2 ^ 64

theorem savable_empty : Savable ({} : Fabric β) where
  objects := AList.all_empty
  manifests := AList.all_empty
  placements := AList.all_empty
  replicas _ _ _ _ hp := nomatch hp
  backends := AList.all_empty
  blobs := AList.all_empty

/-- What is saved of such a state is what a decoder admits. -/
theorem Savable.snapshot {f : Fabric β} (h : f.Savable) (hauthority : f.authority.Storable) :
    f.snapshot.Storable ∧ f.snapshot.Distinct := by
  constructor
  · refine ⟨hauthority, ?_, ?_, ?_, ?_, ?_, nofun, nofun⟩
    · intro o ho
      obtain ⟨e, he, rfl⟩ := List.mem_map.mp ho
      obtain ⟨id, hid⟩ := AList.mem_values.mp he
      exact (h.objects id e hid).2.1
    · intro m hm
      obtain ⟨id, hid⟩ := AList.mem_values.mp hm
      exact (h.manifests id m hid).2
    · intro p hp
      obtain ⟨id, hid⟩ := AList.mem_values.mp hp
      exact (h.placements id p hid).2
    · intro rs hrs
      obtain ⟨e, he, rfl⟩ := List.mem_map.mp hrs
      obtain ⟨id, hid⟩ := AList.mem_values.mp he
      exact (h.objects id e hid).2.2
    · intro b hb
      obtain ⟨id, hid⟩ := AList.mem_values.mp hb
      exact (h.backends id b hid).2
  · refine ⟨?_, ?_, ?_, ?_⟩
    · show ((f.catalog.values.map CatalogEntry.object).map ObjectDescriptor.id).Nodup
      rw [List.map_map]
      exact AList.nodup_map_values fun k k' e e' he he' heq =>
        ((h.objects k e he).1.symm.trans heq).trans (h.objects k' e' he').1
    · exact AList.nodup_map_values fun k k' m m' hm hm' heq =>
        ((h.manifests k m hm).1.symm.trans heq).trans (h.manifests k' m' hm').1
    · exact AList.nodup_map_values fun k k' p p' hp hp' heq =>
        ((h.placements k p hp).1.symm.trans heq).trans (h.placements k' p' hp').1
    · exact AList.nodup_map_values h.replicas

theorem Savable.of_views {f g : Fabric β} (h : f.Savable) (hviews : SameViews f g) :
    g.Savable := by
  obtain ⟨-, hdescriptors, hcatalog, hplacements, -⟩ := CatalogView.mk.inj hviews.catalog
  have hmanifests : g.manifests = f.manifests := congrArg ManifestView.manifests hviews.manifests
  have hblobs : g.blobByDigest = f.blobByDigest := congrArg BlobView.blobByDigest hviews.blobs
  exact ⟨hcatalog ▸ h.objects, hmanifests ▸ h.manifests, hplacements ▸ h.placements,
    hplacements ▸ h.replicas, hdescriptors ▸ h.backends, hblobs ▸ h.blobs⟩

/-! ### Registration and definition -/

theorem Savable.registerLocalBackend {f : Fabric β} (h : f.Savable) (name : Bytes)
    (storageClass : EnumValue StorageClass) (be : β) (probe : Result BackendCapacity)
    (hroom : (f.registerLocalBackend name storageClass be probe).2.Room) :
    (f.registerLocalBackend name storageClass be probe).2.Savable where
  objects := h.objects
  manifests := h.manifests
  placements := h.placements
  replicas := h.replicas
  backends := by
    have hbackend : f.backendCounter + 1 ≤ 2 ^ 64 := hroom.backend
    have htier : f.tierCounter + 1 ≤ 2 ^ 64 := hroom.tier
    refine h.backends.emplace ⟨rfl, ?_, ?_, ?_, trivial, trivial, trivial⟩
    · simp only [List.forall_mem_cons, List.not_mem_nil, IsEmpty.forall_iff,
        implies_true, and_true]
      omega
    · dsimp only
      decide
    · dsimp only
      decide
  blobs := h.blobs

theorem Savable.defineObject {f : Fabric β} (h : f.Savable) {kind : EnumValue ObjectKind}
    {size : UInt64} {content : Bytes} (hkind : f.Defines size content → kind.Declared)
    {writer : AuthorityEnvelope} (hworker : writer.worker.value < 2 ^ 64)
    (hboot : writer.boot.value < 2 ^ 64) (durability : DurabilityRequirement)
    (priority : EnumValue RestorePriority)
    (hroom : (f.defineObject kind size content writer durability priority).2.objectCounter ≤
      2 ^ 64) : (f.defineObject kind size content writer durability priority).2.Savable := by
  obtain ⟨hdefines, obj, hobj, heq⟩ | ⟨-, s, n, -, heq⟩ :=
    f.defineObject_cases kind size content writer durability priority
  · rw [heq] at hroom ⊢
    have hcounter : f.objectCounter + 1 ≤ 2 ^ 64 := hroom
    have hstorable : obj.Storable := by
      rw [hobj]
      refine ⟨?_, (fun _ hd => absurd hd List.not_mem_nil), hkind hdefines⟩
      simp only [describeObject, List.forall_mem_cons, List.not_mem_nil, IsEmpty.forall_iff,
        implies_true, and_true]
      omega
    refine ⟨?_, h.manifests, h.placements, h.replicas, h.backends, h.blobs⟩
    refine h.objects.insert ⟨rfl, hstorable, ?_, trivial, fun _ hr => absurd hr List.not_mem_nil⟩
    exact hstorable.ids _ List.mem_cons_self
  · rw [heq]
    exact ⟨h.objects, h.manifests, h.placements, h.replicas, h.backends, h.blobs⟩

/-! ### The chunk loop -/

section Chunks

variable [StorageBackend β]

/-- The index points to ids below `n` or ids that were drawn. -/
def Below (n : Nat) (f : Fabric β) : Prop :=
  f.blobByDigest.All fun _ b => b.value < max n f.blobCounter

theorem Below.chunkStep {n : Nat} {f : Fabric β} (h : Below n f) (backend : StorageBackendId)
    (dedupe : Bool) (offset : Nat) (slice : Bytes) :
    Below n (chunkStep backend dedupe offset slice f).2 ∧
      f.blobCounter ≤ (chunkStep backend dedupe offset slice f).2.blobCounter ∧
      ∀ c, (chunkStep backend dedupe offset slice f).1 = .ok c →
        ∃ blob, c = chunkAt offset slice blob ∧
          blob.value < max n (chunkStep backend dedupe offset slice f).2.blobCounter := by
  have hput : Below n (f.allocBlobId.2.putOn backend slice (blobKey ⟨f.blobCounter⟩)).2 ∧
      (f.allocBlobId.2.putOn backend slice (blobKey ⟨f.blobCounter⟩)).2.blobCounter =
        f.blobCounter + 1 := by
    -- a failed `put` has drawn an id and indexes nothing
    have hnext : ∀ d b, f.blobByDigest.lookup d = some b →
        b.value < max n (f.blobCounter + 1) := by
      intro d b hb
      have := h d b hb
      omega
    unfold putOn
    cases f.allocBlobId.2.backends.lookup backend
    all_goals exact ⟨hnext, rfl⟩
  obtain ⟨blob, -, hhit, heq⟩ | ⟨s, -, heq⟩ | ⟨_, -, heq⟩ :=
    chunkStep_cases backend dedupe offset slice f
  · rw [heq]
    refine ⟨h, Nat.le_refl _, ?_⟩
    rintro c ⟨⟩
    exact ⟨blob, rfl, h _ blob hhit⟩
  · rw [heq]
    refine ⟨hput.1, ?_, fun c hc => nomatch hc⟩
    exact hput.2 ▸ Nat.le_succ f.blobCounter
  · rw [heq]
    obtain ⟨hbelow, hcounter⟩ := hput
    generalize (f.allocBlobId.2.putOn backend slice (blobKey ⟨f.blobCounter⟩)).2 = g at *
    have hdrawn : f.blobCounter < max n (g.recordBlob ⟨f.blobCounter⟩ slice).blobCounter := by
      show f.blobCounter < max n g.blobCounter
      omega
    refine ⟨AList.All.insert hbelow hdrawn, ?_, ?_⟩
    · show f.blobCounter ≤ g.blobCounter
      omega
    · rintro c ⟨⟩
      exact ⟨_, rfl, hdrawn⟩

/-- The loop on a content keeps the index below, and each of its chunks is one of
the content. -/
theorem Below.chunkLoop {n : Nat} {backend : StorageBackendId} {dedupe : Bool}
    {chunk turns offset : Nat} {rest : Bytes} {f g : Fabric β}
    {rc : Result (List ChunkDescriptor)} (hf : Below n f)
    (h : chunkLoop backend dedupe chunk turns offset rest f = (rc, g)) :
    Below n g ∧ f.blobCounter ≤ g.blobCounter ∧ ∀ cs, rc = .ok cs → ∀ c ∈ cs,
      ∃ o slice blob, c = chunkAt o slice blob ∧ o < offset + rest.length ∧
        blob.value < max n g.blobCounter := by
  induction turns generalizing offset rest f rc with
  | zero =>
      cases h
      refine ⟨hf, Nat.le_refl _, ?_⟩
      rintro cs ⟨⟩ c hc
      cases hc
  | succ turns ih =>
      by_cases hrest : rest = []
      · subst hrest
        rw [chunkLoop_nil] at h
        cases h
        refine ⟨hf, Nat.le_refl _, ?_⟩
        rintro cs ⟨⟩ c hc
        cases hc
      · have hturnBelow := hf.chunkStep backend dedupe offset (rest.take chunk)
        rcases hturn : Fabric.chunkStep backend dedupe offset (rest.take chunk) f with ⟨r, k⟩
        rw [hturn] at hturnBelow
        dsimp only at hturnBelow
        obtain ⟨hk, hcounter, hown⟩ := hturnBelow
        cases r with
        | error s =>
            rw [chunkLoop_error hrest hturn] at h
            cases h
            exact ⟨hk, hcounter, fun cs hcs => nomatch hcs⟩
        | ok c =>
            rw [chunkLoop_ok hrest hturn] at h
            rcases htail : Fabric.chunkLoop backend dedupe chunk turns
              (offset + (rest.take chunk).length) (rest.drop chunk) k with ⟨r', g'⟩
            rw [htail] at h
            obtain ⟨rfl, rfl⟩ := Prod.mk.inj h
            obtain ⟨hg, hlater, hothers⟩ := ih hk htail
            refine ⟨hg, Nat.le_trans hcounter hlater, fun cs hcs c' hc' => ?_⟩
            cases r' with
            | error s => cases hcs
            | ok cs' =>
                cases hcs
                -- the first chunk is this turn's, the others start behind it
                have hpos : 0 < rest.length := List.length_pos_iff.mpr hrest
                have hlength : (rest.take chunk).length + (rest.drop chunk).length =
                    rest.length := by
                  rw [← List.length_append, List.take_append_drop]
                obtain rfl | hc' := List.mem_cons.mp hc'
                · obtain ⟨blob, heq, hblob⟩ := hown c' rfl
                  exact ⟨offset, _, blob, heq, by omega, by omega⟩
                · obtain ⟨o, slice, blob, heq, ho, hblob⟩ := hothers cs' rfl c' hc'
                  exact ⟨o, slice, blob, heq, by omega, hblob⟩

theorem Started.storable {f start g : Fabric β} {c : Call} {res : Reservation}
    {ledger : ReservationLedger} {rc : Result (List ChunkDescriptor)}
    (h : Started f c res ledger start rc g)
    (hblobs : f.blobByDigest.All fun _ b => b.value < 2 ^ 64) (hroom : g.blobCounter ≤ 2 ^ 64) :
    (g.blobByDigest.All fun _ b => b.value < 2 ^ 64) ∧
      ∀ chunks, rc = .ok chunks → ∀ ch ∈ chunks, ch.Storable := by
  have hsize : c.content.length = c.obj.logicalSize.toNat := size_of_accepts h.accepted
  have hindex : start.blobByDigest = f.blobByDigest := congrArg BlobView.blobByDigest h.blobs
  have hstart : Below (2 ^ 64) start := by
    intro d b hb
    have := hblobs d b (hindex ▸ hb)
    omega
  have hmax : max (2 ^ 64) g.blobCounter = 2 ^ 64 := Nat.max_eq_left hroom
  obtain ⟨hg, -, hchunks⟩ := hstart.chunkLoop h.loop
  rw [Below, hmax] at hg
  refine ⟨hg, fun chunks hrc ch hch => ?_⟩
  obtain ⟨o, slice, blob, rfl, ho, hblob⟩ := hchunks chunks hrc ch hch
  rw [hmax] at hblob
  have hlt := c.obj.logicalSize.toNat_lt
  refine ⟨?_, trivial⟩
  simp only [chunkAt, List.forall_mem_cons, List.not_mem_nil, IsEmpty.forall_iff, implies_true,
    and_true]
  omega

/-! ### Publication -/

theorem storable_attachPlacement {entry : CatalogEntry} (h : entry.replicaSet.Storable)
    (man : Manifest) (p : PlacementRecord) {r : ReplicaInfo} (hr : r.Storable)
    (auth : AuthorityEnvelope) : (attachPlacement man p r auth entry).replicaSet.Storable := by
  refine ⟨h.ids, trivial, ?_⟩
  show ∀ r' ∈ (if entry.replicaSet.replicas.any fun rp => rp.id = p.replica then
    entry.replicaSet.replicas else entry.replicaSet.replicas ++ [r]), r'.Storable
  split
  · exact h.replicas
  · intro r' hr'
    obtain hold | hnew := List.mem_append.mp hr'
    · exact h.replicas r' hold
    · obtain rfl := List.mem_singleton.mp hnew
      exact hr

theorem Savable.publishCall {f : Fabric β} (h : f.Savable) (c : Call)
    (hobj : c.obj.id.value < 2 ^ 64)
    (hworker : (f.publishAuthority c.opts).worker.value < 2 ^ 64)
    (hboot : (f.publishAuthority c.opts).boot.value < 2 ^ 64)
    (hreplica : (f.publishCall c).1.toOption ≠ none → ∀ id q, f.placements.lookup id = some q →
      q.replica.value ≠ f.replicaCounter)
    (hroom : (f.publishCall c).2.Room) : (f.publishCall c).2.Savable := by
  have hout := publishCall_outcome f c
  generalize (f.publishCall c).1 = r at hout hreplica
  generalize (f.publishCall c).2 = f' at hout hroom
  -- the manifest that is added
  have hmanifest : ∀ {res ledger start chunks g}, Started f c res ledger start (.ok chunks) g →
      (∀ ch ∈ chunks, ch.Storable) → f.manifestCounter + 1 ≤ 2 ^ 64 →
      (f.manifests.insert ⟨f.manifestCounter⟩ (f.manifestOf c chunks)).All
        fun id m => m.id = id ∧ m.Storable := by
    intro res ledger start chunks g hstart hchunks hcounter
    refine h.manifests.insert ⟨rfl, ?_, ?_⟩
    · simp only [manifestOf, buildManifest, Manifest.sortChunks, List.forall_mem_cons,
        List.not_mem_nil, IsEmpty.forall_iff, implies_true, and_true]
      omega
    · rw [chunks_manifestOf hstart]
      exact hchunks
  cases hout with
  | refused s ledger stale hrefuse =>
      exact ⟨h.objects, h.manifests, h.placements, h.replicas, h.backends, h.blobs⟩
  | aborted s res ledger start rc g f' hstart habort =>
      obtain ⟨m, n, -, -, hview⟩ := habort.catalog
      obtain ⟨-, hdescriptors, hcatalog, hplacements, -⟩ := CatalogView.mk.inj hview
      obtain ⟨-, hindex, -, -, -, hcounter⟩ := BlobView.mk.inj habort.blobs
      obtain ⟨hblobs, hchunks⟩ := hstart.storable h.blobs (hcounter ▸ hroom.blob)
      refine ⟨hcatalog ▸ h.objects, ?_, hplacements ▸ h.placements, hplacements ▸ h.replicas,
        hdescriptors ▸ h.backends, hindex ▸ hblobs⟩
      obtain hsame | ⟨chunks, rfl, -, hnew⟩ := habort.manifests
      · exact hsame ▸ h.manifests
      · rw [hnew]
        exact hmanifest hstart (hchunks chunks rfl) (habort.manifestCounter ▸ hroom.manifest)
  | published res ledger start chunks desc t g f' hstart hpub =>
      obtain ⟨-, hdescriptors, hcatalog, hplacements, -, -, -, hreplicas, hdrawn⟩ :=
        CatalogView.mk.inj hpub.catalog
      obtain ⟨htables, hcount⟩ := ManifestView.mk.inj hpub.manifests
      obtain ⟨-, hindex, -, -, -, hcounter⟩ := BlobView.mk.inj hpub.blobs
      obtain ⟨hblobs, hchunks⟩ := hstart.storable h.blobs (hcounter ▸ hroom.blob)
      have hplacementRoom : f.placementCounter + 1 ≤ 2 ^ 64 := hdrawn ▸ hroom.placement
      have hreplicaRoom : f.replicaCounter + 1 ≤ 2 ^ 64 := hreplicas ▸ hroom.replica
      have hmanifestRoom : f.manifestCounter + 1 ≤ 2 ^ 64 := hcount ▸ hroom.manifest
      obtain ⟨hdesc, hdescStorable⟩ := h.backends _ _ hpub.descriptor
      have hids := hdescStorable.ids
      simp only [List.forall_mem_cons] at hids
      have hbackend : c.backend.value < 2 ^ 64 := hdesc ▸ hids.1
      have hplacement : (f.placementOf c desc t).Storable := by
        refine ⟨?_⟩
        simp only [placementOf, buildPlacement, List.forall_mem_cons, List.not_mem_nil,
          IsEmpty.forall_iff, implies_true, and_true]
        omega
      have hreplicaOf : (replicaOf (f.placementOf c desc t) desc t).Storable := by
        refine ⟨?_, trivial⟩
        simp only [replicaOf, placementOf, buildPlacement, List.forall_mem_cons, List.not_mem_nil,
          IsEmpty.forall_iff, implies_true, and_true]
        omega
      refine ⟨?_, ?_, ?_, ?_, hdescriptors ▸ h.backends, hindex ▸ hblobs⟩
      · rw [hcatalog]
        exact h.objects.modify fun e he =>
          ⟨he.1, he.2.1, storable_attachPlacement he.2.2 _ _ hreplicaOf _⟩
      · rw [htables]
        exact hmanifest hstart (hchunks chunks rfl) hmanifestRoom
      · rw [hplacements]
        exact h.placements.insert ⟨rfl, hplacement⟩
      · have hfree := hreplica (by simp [Except.toOption])
        rw [hplacements]
        intro id id' q q' hq hq' heq
        obtain ⟨rfl, rfl⟩ | ⟨-, hold⟩ := AList.lookup_insert_eq_some.mp hq
        · obtain ⟨rfl, rfl⟩ | ⟨-, hold'⟩ := AList.lookup_insert_eq_some.mp hq'
          · rfl
          · exact absurd (congrArg StrongId.value heq.symm) (hfree id' q' hold')
        · obtain ⟨rfl, rfl⟩ | ⟨-, hold'⟩ := AList.lookup_insert_eq_some.mp hq'
          · exact absurd (congrArg StrongId.value heq) (hfree id q hold)
          · exact h.replicas id id' q q' hold hold' heq

end Chunks

/-! ### Recovery -/

/-- The placements that a recovery adds bring their own replica ids. -/
def Brings (f : Fabric β) (snap : MetadataSnapshot) : Prop :=
  ∀ p ∈ snap.placements, p.id ∉ f.placements →
    ∀ q ∈ f.placementRecords, q.replica ≠ p.replica

instance (f : Fabric β) (snap : MetadataSnapshot) : Decidable (f.Brings snap) := by
  unfold Brings
  infer_instance

theorem Savable.restore {f : Fabric β} (h : f.Savable) {snap : MetadataSnapshot}
    (hstorable : snap.Storable) (hdistinct : snap.Distinct) (hbrings : f.Brings snap)
    (path : Bytes) (nonce : Nat) : (f.restore snap path nonce).Savable := by
  obtain ⟨hcatalog, hmanifests, hplacements, -⟩ := restore_tables f snap path nonce
  have hmanifestsAll : (f.restore snap path nonce).manifests.All fun id m =>
      m.id = id ∧ m.Storable := by
    rw [hmanifests, repopulate_eq]
    exact h.manifests.emplaceAll fun m hm => ⟨rfl, hstorable.manifests m hm⟩
  refine ⟨?_, hmanifestsAll, ?_, ?_, ?_, ?_⟩
  · rw [hcatalog, repopulate_eq]
    refine AList.All.modifyAll (AList.All.modifyAll (h.objects.emplaceAll fun o ho => ?_) ?_) ?_
    · exact ⟨rfl, hstorable.objects o ho, Nat.two_pow_pos 64, trivial, fun _ hr => absurd hr List.not_mem_nil⟩
    · exact fun rs hrs e he => ⟨he.1, he.2.1, hstorable.replicaSets rs hrs⟩
    · exact fun p hp e he => he
  · rw [hplacements, repopulate_eq]
    exact h.placements.emplaceAll fun p hp => ⟨rfl, hstorable.placements p hp⟩
  -- a placement is an old one, or the file brings it under an id that was free
  · have hcases : ∀ id q, (f.restore snap path nonce).placements.lookup id = some q →
        f.placements.lookup id = some q ∨
          (f.placements.lookup id = none ∧ q ∈ snap.placements ∧ q.id = id) := by
      intro id q hq
      rw [lookup_placements_restore] at hq
      cases hold : f.placements.lookup id with
      | some p =>
          rw [hold] at hq
          exact .inl hq
      | none =>
          rw [hold, Option.none_or] at hq
          have hid := List.find?_some hq
          exact .inr ⟨rfl, List.mem_of_find?_eq_some hq, of_decide_eq_true hid⟩
    have hapart : ∀ id id' q q', f.placements.lookup id = some q →
        f.placements.lookup id' = none → q' ∈ snap.placements → q'.id = id' →
        q.replica ≠ q'.replica := by
      intro id id' q q' hq hnone hq' hid
      refine hbrings q' hq' ?_ q (AList.mem_values_of_lookup hq)
      rw [hid]
      exact AList.lookup_eq_none.mp hnone
    -- two with one replica: both old, both from the file, or one of each
    intro id id' q q' hq hq' heq
    obtain hold | ⟨hnone, hmem, hid⟩ := hcases id q hq
    · obtain hold' | ⟨hnone', hmem', hid'⟩ := hcases id' q' hq'
      · exact h.replicas id id' q q' hold hold' heq
      · exact absurd heq (hapart id id' q q' hold hnone' hmem' hid')
    · obtain hold' | ⟨hnone', hmem', hid'⟩ := hcases id' q' hq'
      · exact absurd heq.symm (hapart id' id q' q hold' hnone hmem hid)
      · have hsame : q = q' := List.inj_on_of_nodup_map hdistinct.replicas hmem hmem' heq
        rw [← hid, ← hid', hsame]
  · rw [backendDescriptors_restore]
    refine AList.All.foldl (fun t id _ ht => ht.modify fun b hb => ?_)
      (h.backends.emplaceAll fun b hb => ⟨rfl, hstorable.backends b hb⟩)
    exact ⟨hb.1, hb.2.ids, hb.2.few, hb.2.capabilities, hb.2.health, trivial, hb.2.provenance⟩
  · rw [blobByDigest_restore]
    refine AList.All.foldl (fun t c hc ht => ht.insert ?_) h.blobs
    obtain ⟨m, hm, hc⟩ := List.mem_flatMap.mp hc
    obtain ⟨id, hid⟩ := AList.mem_values.mp hm
    have hids := ((hmanifestsAll id m hid).2.chunks c hc).ids
    simp only [List.forall_mem_cons] at hids
    exact hids.2.1

/-- The file of every save that succeeds is accepted by the decoder and recovered by
every runtime. -/
def Recoverable (f : Fabric β) : Prop :=
  ∀ path fault files, (f.save path fault files).1.isOk = true →
    ∃ bytes, (f.save path fault files).2.2.lookup path = some bytes ∧
      (deserializeSnapshot bytes {}).isOk = true ∧
      ∀ (g : Fabric β) nowNs, (g.recover path (f.save path fault files).2.2 nowNs).1.isOk = true

theorem Recoverable.accepted {f : Fabric β} (h : f.Recoverable) {payload : Bytes}
    (hpayload : encPayload f.snapshot = some payload) :
    ∃ res out, serializeSnapshot f.snapshot = .ok (res, out) ∧
      (deserializeSnapshot out {}).isOk = true := by
  have hsave : (f.save [] .none ∅).1.isOk = true := by
    rw [save, serializeSnapshot, hpayload]
    rfl
  obtain ⟨res, out, hserial, -, hfile⟩ := save_ok hsave
  obtain ⟨bytes, hbytes, hok, -⟩ := h [] .none ∅ hsave
  obtain rfl := Option.some.inj (hfile.symm.trans hbytes)
  exact ⟨res, out, hserial, hok⟩

/-- The payload fits the header, and its decoder turns it down. -/
def Unreadable (f : Fabric β) : Prop :=
  (encPayload f.snapshot).any
    fun payload => payload.length < 2 ^ 32 && !((decPayload {}).run payload).isOk

instance (f : Fabric β) : Decidable f.Unreadable := by
  unfold Unreadable
  infer_instance

theorem Unreadable.not_recoverable {f : Fabric β} (h : f.Unreadable) : ¬f.Recoverable := by
  intro hrecoverable
  unfold Unreadable at h
  cases hpayload : encPayload f.snapshot with
  | none =>
      rw [hpayload] at h
      cases h
  | some payload =>
      rw [hpayload, Option.any_some, Bool.and_eq_true, decide_eq_true_eq] at h
      obtain ⟨res, out, hserial, hok⟩ := hrecoverable.accepted hpayload
      rw [serializeSnapshot_eq hpayload] at hserial
      obtain ⟨-, rfl⟩ := Prod.mk.inj (Except.ok.inj hserial)
      rw [deserialize_payload h.1] at hok
      cases hread : (decPayload {}).run payload with
      | error s =>
          rw [hread] at hok
          cases hok
      | ok r =>
          rw [hread] at h
          cases h.2

/-- A payload too long for the length field of its header is written all the same,
and not read back. -/
theorem Savable.recoverable_iff {f : Fabric β} (h : f.Savable)
    (hauthority : f.authority.Storable) :
    f.Recoverable ↔ ∀ payload, encPayload f.snapshot = some payload → payload.length < 2 ^ 32 := by
  obtain ⟨hstorable, hdistinct⟩ := h.snapshot hauthority
  constructor
  · intro hrecoverable payload hpayload
    by_contra hlong
    obtain ⟨res, out, hserial, hok⟩ := hrecoverable.accepted hpayload
    obtain ⟨s, herror⟩ := deserialize_long hpayload (not_lt.mp hlong) hserial
    rw [herror] at hok
    cases hok
  · intro hshort path fault files hsave
    obtain ⟨res, blob, hserial, -, hfile⟩ := save_ok hsave
    refine ⟨blob, hfile, ?_, fun g nowNs => ?_⟩
    · cases hpayload : encPayload f.snapshot with
      | none =>
          rw [serializeSnapshot, hpayload] at hserial
          cases hserial
      | some payload =>
          rw [deserialize_serialize hstorable hdistinct hpayload (hshort payload hpayload) hserial]
          rfl
    · rw [recover_saved hstorable hdistinct hshort hsave nowNs]
      rfl

end Fabric

end StorageFabric
