import StorageFabric.Runtime.Stored

/-!
The dedup index.

An entry of the index offers a blob for a digest. It is sound if the blob is
counted, is known under that digest, and its bytes are still on some backend. A
publication keeps every entry sound; an eviction does as long as it leaves a
reference to every blob that the index offers, because it removes the bytes of
a blob at its last reference and never looks at the index.
-/

namespace StorageFabric

open StorageBackend

namespace Fabric

variable {β : Type}

/-- The index offers `b` for `d`, and rightly so. -/
structure Offered [KeyValueBackend β] (f : Fabric β) (d : ContentDigest) (b : BlobId) : Prop where
  counted : ∃ n, f.blobRefs.lookup b = some n ∧ 0 < n
  digest : f.blobDigest.lookup b = some d
  bytes : ∃ k data, f.stored k (blobKey b) = some data ∧ ContentDigest.of data = d

/-- Every entry of the index is sound. -/
def Coherent [KeyValueBackend β] (f : Fabric β) : Prop :=
  ∀ d b, f.blobByDigest.lookup d = some b → Offered f d b

/-- An eviction that is allowed leaves a reference to every blob that the index
offers: the count exceeds the references of the placement. Other operations are
not restricted. -/
def SparesIndex (f : Fabric β) : Op β → Prop
  | .evict id =>
      (f.canEvict id).allowed = true → ∀ p ∈ f.placements.lookup id,
        ∀ entry ∈ f.blobByDigest.entries,
          (f.blobIds p).count entry.2 < RefCount.count f.blobRefs entry.2
  | _ => True

instance (f : Fabric β) : ∀ op, Decidable (SparesIndex f op)
  | .evict id =>
      inferInstanceAs (Decidable ((f.canEvict id).allowed = true → ∀ p ∈ f.placements.lookup id,
        ∀ entry ∈ f.blobByDigest.entries,
          (f.blobIds p).count entry.2 < RefCount.count f.blobRefs entry.2))
  | .registerLocalBackend _ _ _ _ => .isTrue trivial
  | .registerSyntheticBackend _ _ _ => .isTrue trivial
  | .defineObject _ _ _ _ _ _ => .isTrue trivial
  | .publishTo _ _ _ _ => .isTrue trivial
  | .publish _ _ _ _ => .isTrue trivial
  | .replicate _ _ _ => .isTrue trivial
  | .move _ _ _ => .isTrue trivial
  | .read _ _ => .isTrue trivial
  | .verify _ => .isTrue trivial
  | .setAuthority _ => .isTrue trivial
  | .newCoordinatorEpoch => .isTrue trivial

section Contents

variable [KeyValueBackend β]

/-! ### Publication -/

theorem mem_of_stored {f : Fabric β} {k : StorageBackendId} {key data : Bytes}
    (h : f.stored k key = some data) : k ∈ f.backends := by
  by_contra hk
  rw [stored, AList.lookup_eq_none.mpr hk] at h
  cases h

/-- An offer of an old blob stays sound while the store grows, if its count and
its digest do. -/
theorem Offered.grows {f g : Fabric β} {d : ContentDigest} {b : BlobId} (h : Offered f d b)
    (hb : b.value < f.blobCounter) (hgrows : Grows f g)
    (hcounted : 0 < RefCount.count g.blobRefs b)
    (hdigest : g.blobDigest.lookup b = f.blobDigest.lookup b) : Offered g d b where
  counted := RefCount.count_pos_iff.mp hcounted
  digest := hdigest.trans h.digest
  bytes := by
    obtain ⟨k, data, hstored, hd⟩ := h.bytes
    exact ⟨k, data, (hgrows.stored k (mem_of_stored hstored) b hb).trans hstored, hd⟩

theorem Coherent.of_blobs {f g : Fabric β} (h : Coherent f) (hview : g.blobView = f.blobView) :
    Coherent g := by
  obtain ⟨hbackends, hindex, hdigest, hrefs, -, -⟩ := BlobView.mk.inj hview
  intro d b hb
  rw [show g.blobByDigest = f.blobByDigest from hindex] at hb
  obtain ⟨hcounted, hknown, k, data, hstored, hd⟩ := h d b hb
  constructor
  · rw [show g.blobRefs = f.blobRefs from hrefs]
    exact hcounted
  · rw [show g.blobDigest = f.blobDigest from hdigest]
    exact hknown
  · exact ⟨k, data, (stored_congr hbackends k _).trans hstored, hd⟩

omit [KeyValueBackend β] in
theorem Indexed.of_eq {f g : Fabric β} (h : Indexed f) (hindex : g.blobByDigest = f.blobByDigest)
    (hcounter : g.blobCounter = f.blobCounter) : Indexed g := by
  intro d b hb
  rw [hindex] at hb
  rw [hcounter]
  exact h d b hb

omit [KeyValueBackend β] in
theorem Indexed.of_blobs {f g : Fabric β} (h : Indexed f) (hview : g.blobView = f.blobView) :
    Indexed g :=
  h.of_eq (congrArg BlobView.blobByDigest hview) (congrArg BlobView.blobCounter hview)

theorem blobRefs_putOn (f : Fabric β) (id : StorageBackendId) (data key : Bytes) :
    (f.putOn id data key).2.blobRefs = f.blobRefs ∧
      (f.putOn id data key).2.blobDigest = f.blobDigest := by
  unfold putOn
  cases f.backends.lookup id <;> exact ⟨rfl, rfl⟩

/-- A turn of the chunk loop keeps the index sound: a hit counts its blob once
more, and what is stored enters the index with its count and its bytes. -/
theorem Coherent.chunkStep {f : Fabric β} (h : Coherent f) (hindexed : Indexed f)
    (backend : StorageBackendId) (dedupe : Bool) (offset : Nat) (slice : Bytes) :
    Coherent (chunkStep backend dedupe offset slice f).2 := by
  have hgrows := grows_chunkStep backend dedupe offset slice f
  obtain ⟨hputRefs, hputDigest⟩ :=
    blobRefs_putOn f.allocBlobId.2 backend slice (blobKey ⟨f.blobCounter⟩)
  obtain ⟨blob, -, -, heq⟩ | ⟨s, -, heq⟩ | ⟨n, hput, heq⟩ :=
    chunkStep_cases backend dedupe offset slice f
  · rw [heq] at hgrows ⊢
    intro d b hb
    have hold := h d b hb
    refine hold.grows (hindexed d b hb) hgrows ?_ rfl
    -- a hit only counts its blob once more
    show 0 < RefCount.count (RefCount.retain blob f.blobRefs) b
    have hpos := RefCount.count_pos_iff.mpr hold.counted
    rw [RefCount.count_retain]
    omega
  · rw [heq] at hgrows ⊢
    intro d b hb
    rw [blobByDigest_putOn] at hb
    have hold := h d b hb
    refine hold.grows (hindexed d b hb) hgrows ?_ (congrArg _ hputDigest)
    rw [hputRefs]
    exact RefCount.count_pos_iff.mpr hold.counted
  · rw [heq] at hgrows ⊢
    intro d b hb
    obtain ⟨rfl, rfl⟩ | ⟨-, hb⟩ := AList.lookup_insert_eq_some.mp hb
    · -- the entry of the blob that was just stored
      refine ⟨⟨1, AList.lookup_insert _, Nat.one_pos⟩, AList.lookup_insert _, backend, slice, ?_,
        rfl⟩
      have hstored := stored_putOn_ok hput backend (blobKey ⟨f.blobCounter⟩)
      rw [if_pos ⟨rfl, rfl⟩] at hstored
      exact hstored
    · rw [blobByDigest_putOn] at hb
      have hold := h d b hb
      -- an older entry is about another blob
      have hlt : b.value < f.blobCounter := hindexed d b hb
      have hne : b ≠ ⟨f.blobCounter⟩ := by
        rintro rfl
        exact Nat.lt_irrefl _ hlt
      refine hold.grows hlt hgrows ?_ ?_
      · show 0 < RefCount.count (AList.insert _ 1 _) b
        rw [RefCount.count_insert, if_neg hne, hputRefs]
        exact RefCount.count_pos_iff.mpr hold.counted
      · show (AList.insert _ _ _).lookup b = _
        rw [AList.lookup_insert_ne hne, hputDigest]
        rfl

/-! ### Eviction -/

/-- What an eviction leaves of a sound index is sound, if it spares the blobs
that the index offers. -/
theorem Coherent.evict {f : Fabric β} (h : Coherent f) {id : PlacementId} {e : Eviction}
    (hcheck : f.evictCheck id = .inr e) (hspares : SparesIndex f (.evict id)) :
    Coherent ((f.evictRecord e).evictCommit e).2 := by
  obtain ⟨entry, hp, -, -, -, -, hblobs⟩ := evictCheck_inr hcheck
  obtain ⟨-, hindex, hdigest, hrefs, -, -⟩ := BlobView.mk.inj (blobView_evict f e)
  intro d b hb
  rw [show ((f.evictRecord e).evictCommit e).2.blobByDigest = f.blobByDigest from hindex] at hb
  obtain ⟨hcounted, hknown, k, data, hstored, hd⟩ := h d b hb
  have hleft : e.blobs.count b < RefCount.count f.blobRefs b := by
    rw [hblobs]
    exact hspares ((allowed_canEvict_iff f id).mpr ⟨e, hcheck⟩) _ hp ⟨d, b⟩
      (AList.mem_lookup_iff.mp hb)
  constructor
  · apply RefCount.count_pos_iff.mp
    rw [show ((f.evictRecord e).evictCommit e).2.blobRefs = _ from hrefs, RefCount.count_dropAll]
    omega
  · rw [show ((f.evictRecord e).evictCommit e).2.blobDigest = f.blobDigest from hdigest]
    exact hknown
  · refine ⟨k, data, ?_, hd⟩
    rw [← evictPartly_length]
    obtain heq | ⟨-, hmem, -⟩ :=
      stored_evictPartly f e ((f.evictRecord e).reclaimed e).length k b
    · exact heq.trans hstored
    · -- only a blob without a reference left is reclaimed
      have hgiven := RefCount.count_le_of_mem_dropAll hmem
      omega

/-! ### Runs -/

theorem Coherent.register {f g : Fabric β} (h : Coherent f) {id : StorageBackendId} {be : β}
    (hblobs : g.blobView = { f.blobView with backends := f.backends.emplace id be }) :
    Coherent g := by
  obtain ⟨hbackends, hindex, hdigest, hrefs, -, -⟩ := BlobView.mk.inj hblobs
  intro d b hb
  rw [show g.blobByDigest = f.blobByDigest from hindex] at hb
  obtain ⟨hcounted, hknown, k, data, hstored, hd⟩ := h d b hb
  constructor
  · rw [show g.blobRefs = f.blobRefs from hrefs]
    exact hcounted
  · rw [show g.blobDigest = f.blobDigest from hdigest]
    exact hknown
  · refine ⟨k, data, ?_, hd⟩
    have hkeep : g.backends.lookup k = f.backends.lookup k := by
      rw [show g.backends = _ from hbackends]
      exact AList.lookup_emplace_of_mem (mem_of_stored hstored)
    rw [stored, hkeep]
    exact hstored

theorem Indexed.exec {f : Fabric β} (h : Indexed f) (op : Op β) : Indexed (f.exec op) := by
  refine exec_keeps (I := Indexed) ?_ ?_ ?_ ?_ h
  · exact fun f g hview hf => hf.of_blobs hview
  · exact fun backend dedupe offset slice f hf => hf.chunkStep backend dedupe offset slice
  · intro g be hblobs
    obtain ⟨-, hindex, -, -, -, hcounter⟩ := BlobView.mk.inj hblobs
    exact h.of_eq hindex hcounter
  · intro id e _ _
    obtain ⟨-, hindex, -, -, -, hcounter⟩ := BlobView.mk.inj (blobView_evict f e)
    exact h.of_eq hindex hcounter

theorem Coherent.exec {f : Fabric β} (hindexed : Indexed f) (h : Coherent f) {op : Op β}
    (hop : SparesIndex f op) : Indexed (f.exec op) ∧ Coherent (f.exec op) := by
  refine exec_keeps (I := fun f => Indexed f ∧ Coherent f) ?_ ?_ ?_ ?_ ⟨hindexed, h⟩
  · rintro f g hview ⟨hf, hcoherent⟩
    exact ⟨hf.of_blobs hview, hcoherent.of_blobs hview⟩
  · rintro backend dedupe offset slice f ⟨hf, hcoherent⟩
    exact ⟨hf.chunkStep backend dedupe offset slice,
      hcoherent.chunkStep hf backend dedupe offset slice⟩
  · intro g be hblobs
    obtain ⟨-, hindex, -, -, -, hcounter⟩ := BlobView.mk.inj hblobs
    exact ⟨hindexed.of_eq hindex hcounter, h.register hblobs⟩
  · rintro id e rfl hcheck
    obtain ⟨-, hindex, -, -, -, hcounter⟩ := BlobView.mk.inj (blobView_evict f e)
    exact ⟨hindexed.of_eq hindex hcounter, h.evict hcheck hop⟩

/-- The dedup index is sound in every state of a run whose evictions all spare
the blobs that the index offers. -/
theorem index_coherent (ops : List (Op β)) (hops : Runs.Along exec SparesIndex {} ops) :
    Coherent (Runs.run exec ({} : Fabric β) ops) :=
  (Runs.invariant (I := fun f => Indexed f ∧ Coherent f)
    (fun _ _ h hop => Coherent.exec h.1 h.2 hop)
    ⟨fun d b hb => by simp at hb, fun d b hb => by simp at hb⟩ hops).2

end Contents

/-- Two placements that share their blob, of which one is evicted. -/
theorem index_coherent_small :
    Coherent (Runs.run exec {}
      (Small.opening ++ [Small.publication, Small.publication, .evict ⟨1⟩])) :=
  index_coherent _ (by decide +kernel)

/-- The object published twice without deduplication, and the placement whose
blob the index offers evicted. -/
def danglingOps : List (Op SyntheticBackend) :=
  Small.opening ++
    [.publishTo Small.object [7] ⟨1⟩ { dedupe := false },
      .publishTo Small.object [7] ⟨1⟩ { dedupe := false }, .evict ⟨2⟩]

/-- The index goes on offering a blob that was reclaimed. -/
theorem index_dangles : ¬Coherent (Runs.run exec {} danglingOps) := by
  intro h
  have hrun : (Runs.run exec {} danglingOps).blobByDigest.lookup (ContentDigest.of [7]) =
        some ⟨2⟩ ∧
      (Runs.run exec {} danglingOps).blobRefs.lookup ⟨2⟩ = none := by decide +kernel
  obtain ⟨n, hn, -⟩ := (h _ _ hrun.1).counted
  rw [hrun.2] at hn
  cases hn

end Fabric

end StorageFabric
