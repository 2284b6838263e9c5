import StorageFabric.Persist.Decoded
import StorageFabric.Runtime.Lifecycle
import StorageFabric.Runtime.Reads

/-!
What a recovery makes of the references to the blobs.

It takes one reference for every chunk of every manifest, whether or not the
placement of the manifest was evicted, and on top of those that are there. So the
counts are those of the live placements only where every manifest is that of a
live placement, and a recovery of a runtime's own file is harmless only where there
is nothing to count and nothing to list, or where the file is refused.
-/

namespace StorageFabric

open Persist

namespace Fabric

variable {β : Type}

/-! ### Counting the chunks of the manifests -/

def refsIn (b : BlobId) (m : Manifest) : Nat := (m.chunks.map ChunkDescriptor.blob).count b

def manifestRefs (f : Fabric β) (b : BlobId) : Nat := f.manifests.sumBy (refsIn b)

theorem count_blobRefs_restore (f : Fabric β) (snap : MetadataSnapshot) (path : Bytes)
    (nonce : Nat) (b : BlobId) :
    RefCount.count (f.restore snap path nonce).blobRefs b =
      RefCount.count f.blobRefs b + (f.restore snap path nonce).manifestRefs b := by
  rw [blobRefs_restore, RefCount.count_foldl_retain, List.map_flatMap, List.count_flatMap]
  rfl

def liveManifests (f : Fabric β) : List ManifestId :=
  (f.placements.values.filter fun p => !isEvicted p).map PlacementRecord.manifest

theorem mem_liveManifests {f : Fabric β} {m : ManifestId} :
    m ∈ f.liveManifests ↔
      ∃ id p, f.placements.lookup id = some p ∧ isEvicted p = false ∧ p.manifest = m := by
  simp only [liveManifests, List.mem_map, List.mem_filter, AList.mem_values, Bool.not_eq_true']
  constructor
  · rintro ⟨p, ⟨⟨id, hp⟩, hkept⟩, rfl⟩
    exact ⟨id, p, hp, hkept, rfl⟩
  · rintro ⟨id, p, hp, hkept, rfl⟩
    exact ⟨p, ⟨⟨id, hp⟩, hkept⟩, rfl⟩

theorem liveRefs_eq (f : Fabric β) (b : BlobId) :
    f.liveRefs b =
      (f.liveManifests.map fun m => ((f.manifests.lookup m).map (refsIn b)).getD 0).sum := by
  have hheld : ∀ p, f.heldBy b p =
      if isEvicted p then 0 else ((f.manifests.lookup p.manifest).map (refsIn b)).getD 0 := by
    intro p
    rw [heldBy, blobIds]
    cases f.manifests.lookup p.manifest <;> rfl
  rw [liveRefs, liveManifests, AList.sumBy]
  generalize f.placements.values = ps
  induction ps with
  | nil => rfl
  | cons p ps ih =>
      rw [List.map_cons, List.sum_cons, ih, hheld, List.filter_cons]
      cases isEvicted p <;> simp

/-- Every placement has a manifest of its own. -/
structure Attached (f : Fabric β) : Prop where
  held : ∀ id p, f.placements.lookup id = some p → p.manifest ∈ f.manifests
  own : ∀ id id' p p', f.placements.lookup id = some p → f.placements.lookup id' = some p' →
    p.manifest = p'.manifest → id = id'

/-- Every manifest has a chunk. -/
def Chunked (f : Fabric β) : Prop := f.manifests.All fun _ m => m.chunks ≠ []

/-- The manifests hold as many references as the live placements exactly if each is
that of a live placement. -/
theorem Attached.refs_iff {f : Fabric β} (h : Attached f) (hchunked : Chunked f) :
    (∀ b, f.manifestRefs b = f.liveRefs b) ↔ ∀ m ∈ f.manifests, m ∈ f.liveManifests := by
  have hnodup : f.liveManifests.Nodup := by
    have hall : (f.placements.values.map PlacementRecord.manifest).Nodup :=
      AList.nodup_map_values h.own
    exact hall.sublist (List.filter_sublist.map _)
  have hmem : ∀ m ∈ f.liveManifests, m ∈ f.manifests := by
    intro m hm
    obtain ⟨id, p, hp, -, rfl⟩ := mem_liveManifests.mp hm
    exact h.held id p hp
  have hsplit : ∀ b, f.manifestRefs b = f.liveRefs b +
      ((f.manifests.keys.filter (· ∉ f.liveManifests)).map fun m =>
        ((f.manifests.lookup m).map (refsIn b)).getD 0).sum := by
    intro b
    rw [manifestRefs, AList.sumBy_split hnodup hmem, liveRefs_eq]
  constructor
  · intro heq m hm
    by_contra hdead
    obtain ⟨man, hman⟩ := AList.mem_iff_lookup.mp hm
    obtain ⟨ch, hch⟩ := List.exists_mem_of_ne_nil _ (hchunked m man hman)
    -- the blob of a chunk that nobody needs is counted too often
    have hrest : ((f.manifests.keys.filter (· ∉ f.liveManifests)).map fun m =>
        ((f.manifests.lookup m).map (refsIn ch.blob)).getD 0).sum = 0 := by
      have hsum := hsplit ch.blob
      have hsame := heq ch.blob
      omega
    have hkey : m ∈ f.manifests.keys.filter (· ∉ f.liveManifests) :=
      List.mem_filter.mpr ⟨AList.mem_keys.mp hm, decide_eq_true hdead⟩
    have hzero := List.sum_eq_zero_iff.mp hrest _ (List.mem_map_of_mem hkey)
    rw [hman, Option.map_some, Option.getD_some, refsIn] at hzero
    exact List.count_pos_iff.mpr (List.mem_map_of_mem hch) |>.ne' hzero
  · intro hlive b
    have hnone : f.manifests.keys.filter (· ∉ f.liveManifests) = [] := by
      refine List.filter_eq_nil_iff.mpr fun m hm => ?_
      simpa using hlive m (AList.mem_keys.mpr hm)
    rw [hsplit, hnone, List.map_nil, List.sum_nil, Nat.add_zero]

/-! ### Every history -/

theorem attached_empty : Attached ({} : Fabric β) where
  held id p hp := by simp at hp
  own id id' p p' hp := by simp at hp

theorem Attached.congr {f g : Fabric β} (h : Attached f)
    (hplacements : ∀ id, g.placements.lookup id = f.placements.lookup id)
    (hmanifests : ∀ m, g.manifests.lookup m = f.manifests.lookup m) : Attached g where
  held id p hp := by
    rw [hplacements] at hp
    obtain ⟨man, hman⟩ := AList.mem_iff_lookup.mp (h.held id p hp)
    exact AList.mem_iff_lookup.mpr ⟨man, (hmanifests _).trans hman⟩
  own id id' p p' hp hp' := h.own id id' p p' (hplacements id ▸ hp) (hplacements id' ▸ hp')

section Backend

variable [StorageBackend β]

theorem manifest_created {f : Fabric β} {op : Op β} {p : PlacementRecord}
    (h : f.created op = some p) :
    p.manifest ∉ f.manifests ∧ p.manifest ∈ (f.exec op).manifests := by
  unfold created at h
  cases hcall : f.call op with
  | none =>
      rw [hcall] at h
      cases h
  | some called =>
      obtain ⟨c, g⟩ := called
      rw [hcall] at h
      obtain ⟨hviews, hexec⟩ := exec_of_call hcall
      have hmanifests : (f.exec op).manifests = (g.publishCall c).2.manifests := by
        rcases hexec with heq | ⟨source, -, -, heq⟩
        · rw [heq]
        · rw [heq]
          rfl
      have hsame : g.manifests = f.manifests := congrArg ManifestView.manifests hviews.manifests
      rw [hmanifests, ← hsame]
      have hout := publishCall_outcome g c
      dsimp only at h
      generalize (g.publishCall c).1 = r at hout h
      generalize (g.publishCall c).2 = f' at hout ⊢
      cases hout with
      | refused s ledger stale _ => cases h
      | aborted s res ledger start rc k _ _ _ => cases h
      | published res ledger start chunks desc t k _ hstart hpub =>
          obtain rfl := Option.some.inj h
          -- its manifest is the one that was inserted, under an id that was free
          have hadded : f'.manifests =
              g.manifests.insert ⟨g.manifestCounter⟩ (g.manifestOf c chunks) :=
            congrArg ManifestView.manifests hpub.manifests
          rw [hadded]
          exact ⟨hpub.freshManifest, (AList.mem_insert _).mpr (.inl rfl)⟩

theorem placements_exec_cases {f : Fabric β} {op : Op β} {id : PlacementId}
    {q : PlacementRecord} (hq : (f.exec op).placements.lookup id = some q) :
    (∃ p, f.placements.lookup id = some p ∧ q.manifest = p.manifest) ∨
      f.created op = some q ∧ q.id = id := by
  rw [lookup_placements_exec] at hq
  cases hp : f.placements.lookup id with
  | some p =>
      rw [hp] at hq
      obtain rfl := Option.some.inj hq
      refine .inl ⟨p, rfl, ?_⟩
      unfold recordAfter
      split
      · rfl
      · split <;> rfl
  | none =>
      rw [hp] at hq
      obtain ⟨hcreated, hnew⟩ := Option.filter_eq_some_iff.mp hq
      exact .inr ⟨hcreated, (of_decide_eq_true hnew).1⟩

theorem Attached.exec {f : Fabric β} (h : Attached f) (op : Op β) : Attached (f.exec op) where
  held id q hq := by
    obtain ⟨p, hp, heq⟩ | ⟨hcreated, -⟩ := placements_exec_cases hq
    · have hmem := h.held id p hp
      obtain ⟨man, hman⟩ := AList.mem_iff_lookup.mp hmem
      rw [heq]
      exact AList.mem_iff_lookup.mpr ⟨man, (manifests_exec f op hmem).trans hman⟩
    · exact (manifest_created hcreated).2
  own id id' q q' hq hq' heq := by
    obtain ⟨p, hp, hsame⟩ | ⟨hcreated, hid⟩ := placements_exec_cases hq
    · obtain ⟨p', hp', hsame'⟩ | ⟨hcreated', -⟩ := placements_exec_cases hq'
      · exact h.own id id' p p' hp hp' ((hsame.symm.trans heq).trans hsame')
      · refine absurd (h.held id p hp) ?_
        rw [← hsame, heq]
        exact (manifest_created hcreated').1
    · obtain ⟨p', hp', hsame'⟩ | ⟨hcreated', hid'⟩ := placements_exec_cases hq'
      · refine absurd (h.held id' p' hp') ?_
        rw [← hsame', ← heq]
        exact (manifest_created hcreated).1
      · obtain rfl := Option.some.inj (hcreated.symm.trans hcreated')
        exact hid.symm.trans hid'

theorem Chunked.exec {f : Fabric β} (h : Chunked f) (op : Op β) : Chunked (f.exec op) := by
  refine manifests_exec_all h ?_ op
  intro f c res ledger start chunks g hstart hnil
  rw [chunks_manifestOf hstart] at hnil
  have hsize : c.content.length = c.obj.logicalSize.toNat := size_of_accepts hstart.accepted
  -- without chunks there would be no slices, and no content
  have hslices : c.slices = [] := by
    have hall := describes_chunkLoop hstart.loop
    rw [hnil] at hall
    exact List.forall₂_nil_left_iff.mp hall
  have hcontent : c.content = [] := by rw [← Call.flatten_slices hsize, hslices, List.flatten_nil]
  have hzero : c.obj.logicalSize = 0 := by
    rw [hcontent] at hsize
    exact UInt64.toNat_inj.mp hsize.symm
  refine hstart.accepted (.inr (.inr (.inr (.inr ?_))))
  unfold ReservationLedger.Refuses
  split
  · trivial
  · exact .inl hzero

/-- What holds of the records in every history: their identities, and how placements
and manifests belong together. -/
structure Recorded (f : Fabric β) : Prop where
  identified : f.catalogView.Identified
  keyed : ManifestsKeyed f
  attached : Attached f
  chunked : Chunked f

theorem recorded_run (ops : List (Op β)) : Recorded (Runs.run exec {} ops) := by
  refine Runs.invariant (P := fun _ _ => True) (I := Recorded) (fun f op h _ => ?_) ?_
    (Runs.along_of_forall (fun _ _ => trivial) _ _)
  · exact ⟨identified_exec h.identified op, manifestsKeyed_exec h.keyed op, h.attached.exec op,
      h.chunked.exec op⟩
  · exact ⟨catalogInv_empty.identified, manifestsKeyed_empty, attached_empty, AList.all_empty⟩

/-! ### Keys -/

/-- Placements and manifests are held under their own ids. -/
structure Keyed (f : Fabric β) : Prop where
  placements : ∀ id p, f.placements.lookup id = some p → p.id = id
  manifests : ManifestsKeyed f

omit [StorageBackend β] in
theorem keyed_empty : Keyed ({} : Fabric β) where
  placements id p hp := by cases hp
  manifests := manifestsKeyed_empty

theorem Keyed.exec {f : Fabric β} (h : Keyed f) (op : Op β) : Keyed (f.exec op) where
  placements id q hq := by
    rw [lookup_placements_exec] at hq
    cases hp : f.placements.lookup id with
    | none =>
        rw [hp] at hq
        obtain ⟨-, hnew⟩ := Option.filter_eq_some_iff.mp hq
        exact (of_decide_eq_true hnew).1
    | some p =>
        rw [hp] at hq
        obtain rfl := Option.some.inj hq
        rw [← h.placements id p hp]
        unfold recordAfter
        split
        · rfl
        · split <;> rfl
  manifests := manifestsKeyed_exec h.manifests op

omit [StorageBackend β] in
theorem Keyed.recovered {f : Fabric β} (h : Keyed f) (snap : MetadataSnapshot) (path : Bytes)
    (nonce : Nat) : Keyed (f.restore snap path nonce) := by
  obtain ⟨-, hmanifests, hplacements, -⟩ := restore_tables f snap path nonce
  rw [repopulate_eq] at hmanifests hplacements
  constructor
  · rw [hplacements]
    exact AList.All.emplaceAll h.placements fun _ _ => rfl
  · rw [ManifestsKeyed, hmanifests]
    exact AList.All.emplaceAll h.manifests fun _ _ => rfl

omit [StorageBackend β] in
theorem Keyed.lookup_placements {f g : Fabric β} (hf : Keyed f) (hg : Blank g) (path : Bytes)
    (nonce : Nat) (id : PlacementId) :
    (g.restore f.snapshot path nonce).placements.lookup id = f.placements.lookup id := by
  rw [lookup_placements_restore, hg.placements, AList.lookup_empty, Option.none_or]
  exact AList.find?_values hf.placements id

omit [StorageBackend β] in
theorem Keyed.restore {f g : Fabric β} (hf : Keyed f) (hg : Blank g) (path : Bytes) (nonce : Nat) :
    Keyed (g.restore f.snapshot path nonce) where
  placements id p hp := hf.placements id p (hf.lookup_placements hg path nonce id ▸ hp)
  manifests id m hm := hf.manifests id m (hg.lookup_manifests path nonce hf.manifests id ▸ hm)

/-- Every object is held under its own id. -/
def ObjectsKeyed (f : Fabric β) : Prop := f.catalog.All fun id e => e.object.id = id

omit [StorageBackend β] in
theorem ObjectsKeyed.congr {f g : Fabric β} (h : ObjectsKeyed f) (hcatalog : g.catalog = f.catalog) :
    ObjectsKeyed g := by
  rw [ObjectsKeyed, hcatalog]
  exact h

theorem objectsKeyed_publishCall {f : Fabric β} (h : ObjectsKeyed f) (c : Call) :
    ObjectsKeyed (f.publishCall c).2 := by
  have hout := publishCall_outcome f c
  generalize (f.publishCall c).1 = r at hout
  generalize (f.publishCall c).2 = f' at hout
  cases hout with
  | refused s ledger stale hrefuse => exact h
  | aborted s res ledger start rc g f' hstart habort =>
      obtain ⟨m, n, -, -, hview⟩ := habort.catalog
      exact h.congr (congrArg CatalogView.catalog hview)
  | published res ledger start chunks desc t g f' hstart hpub =>
      have hcatalog := congrArg CatalogView.catalog hpub.catalog
      rw [ObjectsKeyed, show f'.catalog = _ from hcatalog]
      exact AList.All.modify h fun _ he => he

theorem objectsKeyed_exec {f : Fabric β} (h : ObjectsKeyed f) (op : Op β) :
    ObjectsKeyed (f.exec op) := by
  have heffect := exec_effect f op
  generalize f.exec op = f' at heffect
  cases heffect with
  | silent _ f' hviews => exact h.congr (congrArg CatalogView.catalog hviews.catalog)
  | registered _ t desc be f' _ _ hcatalog _ _ =>
      exact h.congr (congrArg CatalogView.catalog hcatalog)
  | defined _ obj f' _ _ hcatalog _ _ =>
      have hsame := congrArg CatalogView.catalog hcatalog
      rw [ObjectsKeyed, show f'.catalog = _ from hsame]
      exact AList.All.insert h rfl
  | duplicate _ f' _ hcatalog _ _ => exact h.congr (congrArg CatalogView.catalog hcatalog)
  | called _ c g _ hviews _ =>
      exact objectsKeyed_publishCall (h.congr (congrArg CatalogView.catalog hviews.catalog)) c
  | moved _ source c g p _ hviews _ _ _ =>
      exact objectsKeyed_publishCall (h.congr (congrArg CatalogView.catalog hviews.catalog)) c
  | evicted id e hcheck =>
      have hcatalog := congrArg CatalogView.catalog (catalogView_evict hcheck)
      rw [ObjectsKeyed, show Fabric.catalog _ = _ from hcatalog]
      exact AList.All.modify h fun _ he => he

omit [StorageBackend β] in
theorem objectsKeyed_restore {f : Fabric β} (h : ObjectsKeyed f) (snap : MetadataSnapshot)
    (path : Bytes) (nonce : Nat) : ObjectsKeyed (f.restore snap path nonce) := by
  obtain ⟨hcatalog, -, -, -⟩ := restore_tables f snap path nonce
  rw [ObjectsKeyed, hcatalog, repopulate_eq]
  have hobjects : (AList.emplaceAll ObjectDescriptor.id (fun o => ({ object := o } : CatalogEntry))
      f.catalog snap.objects).All fun id e => e.object.id = id := h.emplaceAll fun _ _ => rfl
  refine AList.All.modifyAll (AList.All.modifyAll hobjects ?_) ?_
  · exact fun _ _ _ he => he
  · exact fun _ _ _ he => he

/-- Whatever files a process recovers, its records are held under their own ids. -/
theorem keyed_fabric (ops : List (HostOp β)) :
    ObjectsKeyed (Runs.run Host.step {} ops).fabric ∧ Keyed (Runs.run Host.step {} ops).fabric := by
  refine Host.fabric_invariant (I := fun f => ObjectsKeyed f ∧ Keyed f) (P := fun _ => True)
    ⟨AList.all_empty, keyed_empty⟩ (fun f op h _ => ⟨objectsKeyed_exec h.1 op, h.2.exec op⟩)
    (fun _ _ h => ⟨h.1, h.2.placements, h.2.manifests⟩) (fun f snap path nonce h => ⟨objectsKeyed_restore h.1 snap path nonce,
      h.2.recovered snap path nonce⟩) fun _ _ => trivial

end Backend

/-! ### The counts of a runtime that has recovered -/

/-- A runtime that has nothing to count yet. -/
structure Unused (f : Fabric β) : Prop where
  blank : Blank f
  refs : f.blobRefs = ∅
  index : f.blobByDigest = ∅

theorem unused_empty : Unused ({} : Fabric β) := ⟨⟨rfl, rfl, rfl⟩, rfl, rfl⟩

/-- The counts are the references of the placements that are not evicted, and the
dedup index offers a blob only if there is such a reference. -/
structure ExactRefs (f : Fabric β) : Prop where
  counts : ∀ b, RefCount.count f.blobRefs b = f.liveRefs b
  index : ∀ d b, f.blobByDigest.lookup d = some b → 0 < f.liveRefs b

theorem manifestRefs_pos {f : Fabric β} {id : ManifestId} {m : Manifest} {c : ChunkDescriptor}
    (hm : f.manifests.lookup id = some m) (hc : c ∈ m.chunks) : 0 < f.manifestRefs c.blob := by
  have hpos : 0 < refsIn c.blob m := List.count_pos_iff.mpr (List.mem_map_of_mem hc)
  exact Nat.lt_of_lt_of_le hpos (AList.le_sumBy hm (refsIn c.blob))

variable [StorageBackend β]

/-- What holds of the records of processes that recover nothing but what they have saved. -/
structure Paired (f : Fabric β) : Prop where
  keyed : Keyed f
  attached : Attached f
  chunked : Chunked f

omit [StorageBackend β] in
theorem paired_empty : Paired ({} : Fabric β) := ⟨keyed_empty, attached_empty, AList.all_empty⟩

omit [StorageBackend β] in
theorem Recorded.paired {f : Fabric β} (h : Recorded f) : Paired f :=
  ⟨⟨h.identified.placement_id, h.keyed⟩, h.attached, h.chunked⟩

theorem Paired.exec {f : Fabric β} (h : Paired f) (op : Op β) : Paired (f.exec op) :=
  ⟨h.keyed.exec op, h.attached.exec op, h.chunked.exec op⟩

omit [StorageBackend β] in
theorem Paired.restore {f g : Fabric β} (hf : Paired f) (hg : Blank g) (path : Bytes)
    (nonce : Nat) : Paired (g.restore f.snapshot path nonce) where
  keyed := hf.keyed.restore hg path nonce
  attached := hf.attached.congr (hf.keyed.lookup_placements hg path nonce)
    (hg.lookup_manifests path nonce hf.keyed.manifests)
  chunked id m hm :=
    hf.chunked id m (hg.lookup_manifests path nonce hf.keyed.manifests id ▸ hm)

omit [StorageBackend β] in
theorem Paired.exactRefs_iff {f g : Fabric β} (hf : Paired f) (hg : Unused g) (path : Bytes)
    (nonce : Nat) :
    ExactRefs (g.restore f.snapshot path nonce) ↔ ∀ m ∈ f.manifests, m ∈ f.liveManifests := by
  have hplacements := hf.keyed.lookup_placements hg.blank path nonce
  have hmanifests := hg.blank.lookup_manifests path nonce hf.keyed.manifests
  have hcount : ∀ b, RefCount.count (g.restore f.snapshot path nonce).blobRefs b =
      (g.restore f.snapshot path nonce).manifestRefs b := by
    intro b
    rw [count_blobRefs_restore, hg.refs]
    exact Nat.zero_add _
  have hindex := blobByDigest_restore g f.snapshot path nonce
  rw [hg.index] at hindex
  have hpaired := hf.restore hg.blank path nonce
  generalize g.restore f.snapshot path nonce = h at hplacements hmanifests hcount hindex hpaired
  have hlive : (∀ m ∈ h.manifests, m ∈ h.liveManifests) ↔
      ∀ m ∈ f.manifests, m ∈ f.liveManifests := by
    simp only [AList.mem_iff_lookup, mem_liveManifests, hplacements, hmanifests]
  rw [← hlive, ← hpaired.attached.refs_iff hpaired.chunked]
  constructor
  · intro hexact b
    rw [← hcount, hexact.counts]
  · intro hrefs
    refine ⟨fun b => (hcount b).trans (hrefs b), fun d b hb => ?_⟩
    rw [hindex] at hb
    obtain hold | ⟨c, hc, -, rfl⟩ := lookup_foldl_offer hb
    · cases hold
    · obtain ⟨m, hm, hc⟩ := List.mem_flatMap.mp hc
      obtain ⟨id, hid⟩ := AList.mem_values.mp hm
      rw [← hrefs]
      exact manifestRefs_pos hid hc

omit [StorageBackend β] in
/-- The file of a save that succeeds holds the snapshot, or is refused. -/
theorem recorded_own {f : Fabric β} (hwide : f.snapshot.Wide) {path : Bytes} {fault : SaveFault}
    {files : Table Bytes Bytes} (hsave : (f.save path fault files).1.isOk = true) :
    f.snapshot.Legible ∧ recorded (f.save path fault files).2.2 path = some f.snapshot ∨
      ¬f.snapshot.Legible ∧ recorded (f.save path fault files).2.2 path = none := by
  obtain ⟨res, blob, hserial, -, hfile⟩ := save_ok hsave
  obtain ⟨hlegible, hread⟩ | ⟨hnot, s, hread⟩ := deserialize_own hwide hserial
  · refine .inl ⟨hlegible, ?_⟩
    rw [recorded, hfile, Option.bind_some, hread]
    rfl
  · refine .inr ⟨hnot, ?_⟩
    rw [recorded, hfile, Option.bind_some, hread]
    rfl

end Fabric

namespace Host

open Fabric

variable [StorageBackend β]

/-- The process alone writes its files, and recovers one only in an unused runtime, and never
the temporary file of a save. -/
def OwnFiles (h : Host β) : HostOp β → Prop
  | .save _ _ => h.fabric.snapshot.Wide
  | .recover path _ => Unused h.fabric ∧ path ∈ metadataPaths
  | .write _ _ => False
  | .exec _ | .restart => True

/-- The records of the runtime, and those in the files. -/
structure Own (h : Host β) : Prop where
  live : Paired h.fabric
  saved : ∀ path ∈ metadataPaths, ∀ snap, recorded h.files path = some snap →
    ∃ f : Fabric β, snap = f.snapshot ∧ Paired f

theorem Own.save {h : Host β} (ho : Own h) (hwide : h.fabric.snapshot.Wide) (path : Bytes)
    (fault : SaveFault) : Own (h.step (.save path fault)) where
  live := by
    obtain ⟨last, hlast⟩ := fabric_save h.fabric path fault h.files
    show Paired (h.fabric.save path fault h.files).2.1
    rw [hlast]
    exact ⟨⟨ho.live.keyed.placements, ho.live.keyed.manifests⟩,
      ⟨ho.live.attached.held, ho.live.attached.own⟩, ho.live.chunked⟩
  saved p hp snap hsnap := by
    replace hsnap : recorded (h.fabric.save path fault h.files).2.2 p = some snap := hsnap
    cases hserial : serializeSnapshot h.fabric.snapshot with
    | error s =>
        rw [Fabric.save, hserial] at hsnap
        exact ho.saved p hp snap hsnap
    | ok r =>
        have hlookup := lookup_save path hserial fault h.files hp
        by_cases hwritten : fault = .none ∧ p = path
        · obtain ⟨rfl, rfl⟩ := hwritten
          have hok : (h.fabric.save p .none h.files).1.isOk = true := by
            rw [Fabric.save, hserial]
            rfl
          obtain ⟨-, hfile⟩ | ⟨-, hfile⟩ := recorded_own hwide hok
          · exact ⟨h.fabric, Option.some.inj (hsnap.symm.trans hfile), ho.live⟩
          · rw [hfile] at hsnap
            cases hsnap
        · rw [if_neg hwritten] at hlookup
          rw [recorded, hlookup] at hsnap
          exact ho.saved p hp snap hsnap

theorem own_run {ops : List (HostOp β)} (hops : Runs.Along step OwnFiles {} ops) :
    Own (Runs.run step ({} : Host β) ops) := by
  refine Runs.invariant (I := Own) (fun h o ho hown => ?_)
    ⟨paired_empty, fun path _ snap hsnap => by cases hsnap⟩ hops
  cases o with
  | exec op => exact ⟨ho.live.exec op, ho.saved⟩
  | save path fault => exact ho.save hown path fault
  | recover path nowNs =>
      refine ⟨?_, ho.saved⟩
      obtain ⟨snap, hsnap, heq⟩ | ⟨-, -, hsame⟩ := h.fabric.recover_cases path h.files nowNs
      · obtain ⟨f, rfl, hf⟩ := ho.saved path hown.2 snap hsnap
        show Paired (h.fabric.recover path h.files nowNs).2
        rw [heq]
        exact hf.restore hown.1.blank path _
      · show Paired (h.fabric.recover path h.files nowNs).2
        rw [hsame]
        exact ho.live
  | restart => exact ⟨paired_empty, ho.saved⟩
  | write path data => exact hown.elim

end Host

namespace Fabric

variable [StorageBackend β]

/-- If a process, which may itself have recovered what it saved, saves its state and an unused
runtime recovers the file, the counts are exact precisely if every manifest is that of a
placement that is not evicted. -/
theorem recovery_refcounts_iff (ops : List (HostOp β))
    (hops : Runs.Along Host.step Host.OwnFiles {} ops)
    (hwide : (Runs.run Host.step {} ops).fabric.snapshot.Wide)
    (path : Bytes) (fault : SaveFault) (files : Table Bytes Bytes)
    (hsave : ((Runs.run Host.step {} ops).fabric.save path fault files).1.isOk = true)
    {g : Fabric β} (hg : Unused g) (nowNs : UInt64) :
    let f : Fabric β := (Runs.run Host.step {} ops).fabric
    let out := g.recover path (f.save path fault files).2.2 nowNs
    (out.1.isOk = true ↔ f.snapshot.Legible) ∧
      (out.1.isOk = true → (ExactRefs out.2 ↔ ∀ m ∈ f.manifests, ∃ id p,
        f.placements.lookup id = some p ∧ isEvicted p = false ∧ p.manifest = m)) := by
  intro f out
  have hf : Paired f := (Host.own_run hops).live
  obtain ⟨hlegible, hfile⟩ | ⟨hnot, hfile⟩ := recorded_own hwide hsave
  · have hout : out = _ := recover_recorded hfile nowNs
    rw [hout]
    refine ⟨iff_of_true rfl hlegible, fun _ => (hf.exactRefs_iff hg path _).trans ?_⟩
    simp only [mem_liveManifests]
  · obtain ⟨snap, hsnap, -⟩ | ⟨-, hfails, -⟩ := g.recover_cases path
      (f.save path fault files).2.2 nowNs
    · rw [hfile] at hsnap
      cases hsnap
    · have hfails' : ¬out.1.isOk = true := by
        rw [hfails]
        exact Bool.false_ne_true
      exact ⟨iff_of_false hfails' hnot, fun hok => absurd hok hfails'⟩

/-- What a recovery of the file of a store wants. -/
def Keeps (f : Fabric β) (path : Bytes) : Prop :=
  f.snapshot.Storable ∧ ((encPayload f.snapshot).all
    fun payload => decide (payload.length < 2 ^ 32)) = true ∧
  (f.save path .none ∅).1.isOk = true

instance (f : Fabric β) (path : Bytes) : Decidable (f.Keeps path) :=
  inferInstanceAs (Decidable (_ ∧ _ ∧ _))

omit [StorageBackend β] in
theorem Keeps.short {f : Fabric β} {path : Bytes} (h : f.Keeps path) :
    ∀ payload, encPayload f.snapshot = some payload → payload.length < 2 ^ 32 := by
  intro payload hpayload
  have hall := h.2.1
  rw [hpayload] at hall
  exact of_decide_eq_true hall

/-- A runtime is saved, and a new process registers backends and recovers the file. -/
theorem fabric_reopened {f : Fabric β} (hf : Recorded f) {path : Bytes} (hkeeps : f.Keeps path)
    (regs : List (Op β)) (nowNs : UInt64) :
    (Runs.run Host.step ⟨f, ∅⟩ ([.save path .none, .restart] ++ regs.map .exec ++
      [.recover path nowNs])).fabric =
        (Runs.run exec ({} : Fabric β) regs).restore f.snapshot path (workerBootNonce nowNs) := by
  rw [Runs.run_append, Runs.run_append, Host.run_exec]
  show ((Runs.run exec ({} : Fabric β) regs).recover path (f.save path .none ∅).2.2 nowNs).2 = _
  rw [recover_saved hkeeps.1 (distinct_snapshot hf.identified hf.keyed) hkeeps.short hkeeps.2.2]

/-- The small store is saved, and a new process recovers it. -/
def restartedOps : List (HostOp SyntheticBackend) :=
  (Small.opening ++ [Small.publication]).map .exec ++
    ([.save (ascii "m") .none, .restart] ++ [].map .exec ++ [.recover (ascii "m") 0])

theorem not_tmp_small : ascii "m" ∈ metadataPaths := by
  show ¬ascii ".tmp" <:+ ascii "m"
  decide

set_option maxRecDepth 20000 in
/-- When the new process saves it once more, and another one recovers that file, the one
publication is counted once. -/
theorem recovery_refcounts_small :
    ExactRefs (({} : Fabric SyntheticBackend).recover (ascii "m")
      ((Runs.run Host.step {} restartedOps).fabric.save (ascii "m") .none ∅).2.2 0).2 := by
  have hrun : publishedStore.Keeps (ascii "m") ∧
      let g := ({} : Fabric SyntheticBackend).restore publishedStore.snapshot (ascii "m")
        (workerBootNonce 0)
      g.Keeps (ascii "m") ∧ g.snapshot.Distinct ∧ (g.manifests.keys.all
        fun m => decide (m ∈ g.liveManifests)) = true := by decide +kernel
  obtain ⟨hstored, hkeeps, hdistinct, hlive⟩ := hrun
  have hf : (Runs.run Host.step {} restartedOps).fabric =
      ({} : Fabric SyntheticBackend).restore publishedStore.snapshot (ascii "m")
        (workerBootNonce 0) := by
    rw [restartedOps, Runs.run_append, Host.run_exec]
    exact fabric_reopened (recorded_run (Small.opening ++ [Small.publication])) hstored [] 0
  rw [← hf] at hkeeps hdistinct hlive
  have hops : Runs.Along Host.step Host.OwnFiles {} restartedOps := by
    refine Runs.along_append.mpr ⟨Runs.along_of_mem fun h o ho => ?_, ?_⟩
    · obtain ⟨op, -, rfl⟩ := List.mem_map.mp ho
      trivial
    · rw [Host.run_exec]
      exact ⟨hstored.1.wide, trivial, ⟨unused_empty, not_tmp_small⟩, trivial⟩
  obtain ⟨hok, hexact⟩ := recovery_refcounts_iff restartedOps hops hkeeps.1.wide (ascii "m") .none ∅
    hkeeps.2.2 unused_empty 0
  have hlegible : (Runs.run Host.step {} restartedOps).fabric.snapshot.Legible :=
    ⟨hkeeps.1, hdistinct, hkeeps.short⟩
  refine (hexact (hok.mpr hlegible)).mpr fun m hm => ?_
  exact mem_liveManifests.mp (of_decide_eq_true (List.all_eq_true.mp hlive m (AList.mem_keys.mp hm)))

/-- The small store with two publications of its object, the first of them evicted. -/
def evictedStore : Fabric SyntheticBackend :=
  Runs.run exec {} (Small.opening ++ [Small.publication, Small.publication, .evict ⟨1⟩])

set_option maxRecDepth 20000 in
/-- The evicted placement is counted again. -/
theorem recovery_counts_evicted :
    ¬ExactRefs (({} : Fabric SyntheticBackend).recover (ascii "m")
      (evictedStore.save (ascii "m") .none ∅).2.2 0).2 := by
  intro h
  have hrun : evictedStore.Keeps (ascii "m") ∧ ⟨1⟩ ∈ evictedStore.manifests ∧
      ⟨1⟩ ∉ evictedStore.liveManifests := by decide +kernel
  obtain ⟨hkeeps, hheld, hdead⟩ := hrun
  have hf : Recorded evictedStore := recorded_run _
  rw [recover_saved hkeeps.1 (distinct_snapshot hf.identified hf.keyed) hkeeps.short
    hkeeps.2.2] at h
  exact hdead ((hf.paired.exactRefs_iff unused_empty _ _).mp h ⟨1⟩ hheld)

/-! ### Recovering one's own file -/

omit [StorageBackend β]

/-- The same entries, records and references under all keys. -/
structure SameRecords (f g : Fabric β) : Prop where
  catalog : ∀ id, g.catalog.lookup id = f.catalog.lookup id
  manifests : ∀ id, g.manifests.lookup id = f.manifests.lookup id
  placements : ∀ id, g.placements.lookup id = f.placements.lookup id
  blobByDigest : ∀ d, g.blobByDigest.lookup d = f.blobByDigest.lookup d
  blobRefs : ∀ b, g.blobRefs.lookup b = f.blobRefs.lookup b

def recoverAll (f : Fabric β) (path : Bytes) (files : Table Bytes Bytes) (times : List UInt64) :
    Fabric β :=
  times.foldl (fun g nowNs => (g.recover path files nowNs).2) f

/-- The replica set that a recovery of the file of `f` assigns to an entry: the last one in
it that names the object. -/
def assigned (f : Fabric β) (id : ObjectId) (rs : ReplicaSet) : ReplicaSet :=
  (f.replicaSets.filter fun rs => rs.object = id).getLast?.getD rs

theorem assigned_assigned (f : Fabric β) (id : ObjectId) (rs : ReplicaSet) :
    f.assigned id (f.assigned id rs) = f.assigned id rs := by
  unfold assigned
  cases (f.replicaSets.filter fun rs => rs.object = id).getLast? <;> rfl

/-- A recovery of its own file has nothing to do: no chunk to count, no placement to list,
no replica set to replace. -/
structure Settled (f : Fabric β) : Prop where
  chunks : f.manifests.All fun _ m => m.chunks = []
  placements : f.placements.All fun _ p => p.object ∉ f.catalog
  replicaSets : f.catalog.All fun id e => f.assigned id e.replicaSet = e.replicaSet

theorem lookup_catalog_own {f g : Fabric β} {id : ObjectId} {e : CatalogEntry}
    (he : g.catalog.lookup id = some e) (path : Bytes) (nonce : Nat) :
    (g.restore f.snapshot path nonce).catalog.lookup id =
      some { e with
        replicaSet := f.assigned id e.replicaSet
        placements := e.placements ++
          (f.placements.values.filter fun p => p.object = id).map PlacementRecord.id } := by
  rw [lookup_catalog_restore, he]
  rfl

theorem assigned_restore {f g : Fabric β} {path : Bytes} {nonce : Nat} {id : ObjectId}
    {e : CatalogEntry} (he : (g.restore f.snapshot path nonce).catalog.lookup id = some e) :
    f.assigned id e.replicaSet = e.replicaSet := by
  rw [lookup_catalog_restore] at he
  obtain ⟨old, -, rfl⟩ := Option.map_eq_some_iff.mp he
  exact assigned_assigned f id old.replicaSet

theorem SameRecords.restore {f g : Fabric β} (hobjects : ObjectsKeyed f) (hkeyed : Keyed f)
    (hsettled : f.Settled) (h : SameRecords f g) (path : Bytes) (nonce : Nat) :
    SameRecords f (g.restore f.snapshot path nonce) := by
  have hmanifests : ∀ id, (g.restore f.snapshot path nonce).manifests.lookup id =
      f.manifests.lookup id := by
    intro id
    rw [lookup_manifests_restore, h.manifests]
    exact (congrArg _ (AList.find?_values hkeyed.manifests id)).trans (Option.or_self)
  have hchunks : (g.restore f.snapshot path nonce).manifests.values.flatMap Manifest.chunks =
      [] := by
    refine List.flatMap_eq_nil_iff.mpr fun m hm => ?_
    obtain ⟨id, hid⟩ := AList.mem_values.mp hm
    exact hsettled.chunks id m (hmanifests id ▸ hid)
  constructor
  · intro id
    cases he : f.catalog.lookup id with
    | none =>
        rw [lookup_catalog_restore, h.catalog, he, find?_objects hobjects, he]
        rfl
    | some e =>
        -- no placement is of an object in the catalog, so none is listed again
        have hnone : (f.placements.values.filter fun p => p.object = id) = [] := by
          refine List.filter_eq_nil_iff.mpr fun p hp hobject => ?_
          obtain ⟨k, hk⟩ := AList.mem_values.mp hp
          obtain rfl := of_decide_eq_true hobject
          exact hsettled.placements k p hk (AList.mem_iff_lookup.mpr ⟨e, he⟩)
        rw [lookup_catalog_own ((h.catalog id).trans he), hsettled.replicaSets id e he, hnone,
          List.map_nil, List.append_nil]
  · exact hmanifests
  · intro id
    rw [lookup_placements_restore, h.placements]
    exact (congrArg _ (AList.find?_values hkeyed.placements id)).trans (Option.or_self)
  · intro d
    rw [blobByDigest_restore, hchunks]
    exact h.blobByDigest d
  · intro b
    rw [blobRefs_restore, hchunks]
    exact h.blobRefs b

theorem count_lt_restore {f : Fabric β} {m : ManifestId} {man : Manifest}
    (hman : f.manifests.lookup m = some man) {c : ChunkDescriptor} (hc : c ∈ man.chunks)
    (snap : MetadataSnapshot) (path : Bytes) (nonce : Nat) :
    RefCount.count f.blobRefs c.blob <
      RefCount.count (f.restore snap path nonce).blobRefs c.blob := by
  have hkept : (f.restore snap path nonce).manifests.lookup m = some man := by
    rw [lookup_manifests_restore, hman]
    rfl
  rw [count_blobRefs_restore]
  have hpos := manifestRefs_pos hkept hc
  omega

theorem mem_catalog_own {f g : Fabric β} {id : ObjectId} (hid : id ∈ g.catalog) (path : Bytes)
    (nonce : Nat) : id ∈ (g.restore f.snapshot path nonce).catalog := by
  obtain ⟨e, he⟩ := AList.mem_iff_lookup.mp hid
  exact AList.mem_iff_lookup.mpr ⟨_, lookup_catalog_own he path nonce⟩

/-- How many placements the entry of `id` lists. -/
def listedOf (f : Fabric β) (id : ObjectId) : Nat :=
  ((f.catalog.lookup id).map fun e => e.placements.length).getD 0

theorem listedOf_restore {f g : Fabric β} {id : ObjectId} (hid : id ∈ g.catalog) (path : Bytes)
    (nonce : Nat) : (g.restore f.snapshot path nonce).listedOf id =
      g.listedOf id + (f.placements.values.filter fun p => p.object = id).length := by
  obtain ⟨e, he⟩ := AList.mem_iff_lookup.mp hid
  rw [listedOf, listedOf, lookup_catalog_own he, he]
  simp

section Again

variable {f : Fabric β} {path : Bytes} {files : Table Bytes Bytes}

theorem recoverAll_refused (hfile : recorded files path = none) (g : Fabric β)
    (times : List UInt64) : g.recoverAll path files times = g := by
  induction times with
  | nil => rfl
  | cons nowNs later ih =>
      obtain ⟨snap, hsnap, -⟩ | ⟨-, -, hsame⟩ := g.recover_cases path files nowNs
      · rw [hfile] at hsnap
        cases hsnap
      · rw [recoverAll, List.foldl_cons, hsame]
        exact ih

variable (hfile : recorded files path = some f.snapshot)

include hfile

theorem recoverAll_cons (g : Fabric β) (nowNs : UInt64) (later : List UInt64) :
    g.recoverAll path files (nowNs :: later) =
      (g.restore f.snapshot path (workerBootNonce nowNs)).recoverAll path files later :=
  congrArg (fun r => recoverAll r.2 path files later) (recover_recorded hfile nowNs)

/-- What one recovery of the file keeps, all of them keep. -/
theorem recoverAll_invariant {I : Fabric β → Prop}
    (hI : ∀ g nonce, I g → I (g.restore f.snapshot path nonce)) (times : List UInt64)
    {g : Fabric β} (h : I g) : I (g.recoverAll path files times) := by
  induction times generalizing g with
  | nil => exact h
  | cons nowNs later ih =>
      rw [recoverAll_cons hfile]
      exact ih (hI g _ h)

/-- A runtime with the records of its file keeps them through recoveries exactly if there is
nothing to do for a recovery. -/
theorem sameRecords_recoverAll_iff (hobjects : ObjectsKeyed f) (hkeyed : Keyed f) {g : Fabric β}
    (h : SameRecords f g) (nowNs : UInt64) (later : List UInt64) :
    SameRecords f (g.recoverAll path files (nowNs :: later)) ↔ f.Settled := by
  constructor
  · intro hsame
    rw [recoverAll_cons hfile] at hsame
    refine ⟨fun m man hman => ?_, fun id p hp hmem => ?_, fun id e he => ?_⟩
    · -- later recoveries only add to what the first has added
      by_contra hchunks
      obtain ⟨c, hc⟩ := List.exists_mem_of_ne_nil _ hchunks
      have hlt := count_lt_restore ((h.manifests m).trans hman) hc f.snapshot path
        (workerBootNonce nowNs)
      have hle := recoverAll_invariant hfile
        (I := fun k => RefCount.count (g.restore f.snapshot path (workerBootNonce nowNs)).blobRefs
          c.blob ≤ RefCount.count k.blobRefs c.blob)
        (fun k nonce hk => hk.trans (count_blobRefs_restore k _ path nonce _ ▸
          Nat.le_add_right _ _)) later (Nat.le_refl _)
      rw [RefCount.count, RefCount.count, hsame.blobRefs, ← h.blobRefs] at hle
      exact Nat.not_lt.mpr hle hlt
    -- the placement was listed once more by the first recovery
    · have hlisted : 0 < (f.placements.values.filter fun q => q.object = p.object).length :=
        List.length_pos_iff.mpr <| List.ne_nil_of_mem <|
          List.mem_filter.mpr ⟨AList.mem_values.mpr ⟨id, hp⟩, decide_eq_true rfl⟩
      obtain ⟨e, he⟩ := AList.mem_iff_lookup.mp hmem
      have hg : p.object ∈ g.catalog :=
        AList.mem_iff_lookup.mpr ⟨e, (h.catalog p.object).trans he⟩
      have hfirst := listedOf_restore hg (f := f) path (workerBootNonce nowNs)
      have hle := recoverAll_invariant hfile
        (I := fun k => p.object ∈ k.catalog ∧
          (g.restore f.snapshot path (workerBootNonce nowNs)).listedOf p.object ≤
            k.listedOf p.object)
        (fun k nonce hk => ⟨mem_catalog_own hk.1 path nonce, by
          rw [listedOf_restore hk.1]
          exact hk.2.trans (Nat.le_add_right _ _)⟩)
        later ⟨mem_catalog_own hg path _, Nat.le_refl _⟩
      have hend := hle.2
      rw [hfirst, listedOf, listedOf, hsame.catalog, h.catalog] at hend
      omega
    -- every recovery assigns the recovered sets, and they stay so
    · have hall := recoverAll_invariant hfile
        (I := fun k => ∀ e, k.catalog.lookup id = some e →
          f.assigned id e.replicaSet = e.replicaSet)
        (fun _ _ _ _ he => assigned_restore he) later
        (g := g.restore f.snapshot path (workerBootNonce nowNs)) fun _ he => assigned_restore he
      exact hall e ((hsame.catalog id).trans he)
  · intro hsettled
    exact recoverAll_invariant hfile (fun k nonce hk => hk.restore hobjects hkeyed hsettled path nonce)
      _ h

end Again

theorem sameRecords_save {f : Fabric β} {path : Bytes} {fault : SaveFault}
    {files : Table Bytes Bytes} (hsave : (f.save path fault files).1.isOk = true) :
    SameRecords f (f.save path fault files).2.1 := by
  obtain ⟨-, -, -, hsaved, -⟩ := save_ok hsave
  rw [hsaved]
  exact ⟨fun _ => rfl, fun _ => rfl, fun _ => rfl, fun _ => rfl, fun _ => rfl⟩

/-- If a process, whatever it has recovered before, saves its state and recovers its own
file, once or more often, the records are the same as at the save exactly if the file is
refused or there is nothing to do for a recovery. -/
theorem recover_own_file_iff [StorageBackend β] (ops : List (HostOp β))
    (hwide : (Runs.run Host.step {} ops).fabric.snapshot.Wide)
    (path : Bytes) (fault : SaveFault) (files : Table Bytes Bytes)
    (hsave : ((Runs.run Host.step {} ops).fabric.save path fault files).1.isOk = true)
    (nowNs : UInt64) (later : List UInt64) :
    let f : Fabric β := (Runs.run Host.step {} ops).fabric
    let saved := f.save path fault files
    SameRecords f (saved.2.1.recoverAll path saved.2.2 (nowNs :: later)) ↔
      (f.snapshot.Legible → f.Settled) := by
  intro f saved
  obtain ⟨hobjects, hkeyed⟩ := keyed_fabric ops
  obtain ⟨hlegible, hfile⟩ | ⟨hnot, hfile⟩ := recorded_own hwide hsave
  · rw [sameRecords_recoverAll_iff hfile hobjects hkeyed (sameRecords_save hsave)]
    exact ⟨fun hsettled _ => hsettled, fun h => h hlegible⟩
  · rw [recoverAll_refused hfile]
    exact iff_of_true (sameRecords_save hsave) fun h => absurd h hnot

set_option maxRecDepth 20000 in
/-- Before the first publication they are. -/
theorem recover_own_file_small :
    let f : Fabric SyntheticBackend :=
      (Runs.run Host.step {} (Small.opening.map .exec)).fabric
    let saved := f.save (ascii "m") .none ∅
    SameRecords f (saved.2.1.recoverAll (ascii "m") saved.2.2 [0, 1]) := by
  have hfabric : (Runs.run Host.step ({} : Host SyntheticBackend)
      (Small.opening.map .exec)).fabric = Runs.run exec {} Small.opening := by
    rw [Host.run_exec]
  have hrun : (Runs.run exec ({} : Fabric SyntheticBackend) Small.opening).Keeps (ascii "m") ∧
      (Runs.run exec ({} : Fabric SyntheticBackend) Small.opening).manifests.keys = [] ∧
      (Runs.run exec ({} : Fabric SyntheticBackend) Small.opening).placements.keys = [] ∧
      ((Runs.run exec ({} : Fabric SyntheticBackend) Small.opening).catalog.keys.all fun id =>
        ((Runs.run exec ({} : Fabric SyntheticBackend) Small.opening).catalog.lookup id).all
          fun e => decide ((Runs.run exec ({} : Fabric SyntheticBackend) Small.opening).assigned id
            e.replicaSet = e.replicaSet)) = true := by
    decide +kernel
  rw [← hfabric] at hrun
  obtain ⟨hkeeps, hmanifests, hplacements, hsets⟩ := hrun
  refine (recover_own_file_iff (Small.opening.map .exec) hkeeps.1.wide (ascii "m") .none ∅
    hkeeps.2.2 0 [1]).mpr fun _ => ⟨fun id m hm => ?_, fun id p hp => ?_, fun id e he => ?_⟩
  · have hmem := AList.mem_keys.mp (AList.mem_iff_lookup.mpr ⟨m, hm⟩)
    exact absurd (hmanifests ▸ hmem) List.not_mem_nil
  · have hmem := AList.mem_keys.mp (AList.mem_iff_lookup.mpr ⟨p, hp⟩)
    exact absurd (hplacements ▸ hmem) List.not_mem_nil
  · have hmem := AList.mem_keys.mp (AList.mem_iff_lookup.mpr ⟨e, he⟩)
    have hall := List.all_eq_true.mp hsets id hmem
    rw [he] at hall
    exact of_decide_eq_true hall

set_option maxRecDepth 20000 in
/-- After it, the blob of the publication is counted twice. -/
theorem recover_own_file_counts_twice :
    ¬SameRecords publishedStore ((publishedStore.save (ascii "m") .none ∅).2.1.recoverAll
      (ascii "m") (publishedStore.save (ascii "m") .none ∅).2.2 [0]) := by
  intro h
  have hrun : publishedStore.Keeps (ascii "m") ∧ ((publishedStore.manifests.lookup ⟨1⟩).any
      fun man => !man.chunks.isEmpty) = true := by
    decide +kernel
  obtain ⟨hkeeps, hheld⟩ := hrun
  obtain ⟨man, hman, hchunks⟩ := (Option.any_eq_true _ _).mp hheld
  have hf : Recorded publishedStore := recorded_run _
  have hfile := recorded_saved hkeeps.1 (distinct_snapshot hf.identified hf.keyed) hkeeps.short
    hkeeps.2.2
  have hobjects : ObjectsKeyed publishedStore :=
    fun o e he => (hf.identified.object_id o e he).1
  have hsettled := (sameRecords_recoverAll_iff hfile hobjects
    ⟨hf.identified.placement_id, hf.keyed⟩ (sameRecords_save hkeeps.2.2) 0 []).mp h
  rw [hsettled.chunks ⟨1⟩ man hman] at hchunks
  cases hchunks

end Fabric

end StorageFabric
