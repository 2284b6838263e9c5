import StorageFabric.Runtime.Redundancy
import StorageFabric.Runtime.Slices

/-!
The reference counts of the blobs, and why an eviction reclaims no blob that
another placement needs.

The count of a blob is at least the number of chunks, in manifests of
placements that are not evicted, that refer to it. It may be more: a publication
that fails leaves the references it took behind. The invariant breaks when a
movement turns an evicted placement into a stale one, whose references were
given back already.
-/

namespace StorageFabric

open StorageBackend

namespace Fabric

variable {β : Type}

def isEvicted (p : PlacementRecord) : Bool := p.lifecycle = .known .evicted

/-- The references to `b` that a placement holds. -/
def heldBy (f : Fabric β) (b : BlobId) (p : PlacementRecord) : Nat :=
  if isEvicted p then 0 else (f.blobIds p).count b

/-- The references to `b` that all placements hold. -/
def liveRefs (f : Fabric β) (b : BlobId) : Nat := f.placements.sumBy (f.heldBy b)

/-- The counts cover the references `held`, and no id that is still to be drawn
is in use. -/
structure Counted (held : BlobId → Nat) (f : Fabric β) : Prop where
  covered : ∀ b, held b ≤ RefCount.count f.blobRefs b
  fresh : ∀ b : BlobId, f.blobCounter ≤ b.value → held b = 0
  indexed : Indexed f

/-- The reference invariant. -/
structure Referenced (f : Fabric β) : Prop where
  manifest : ∀ id p, f.placements.lookup id = some p → p.manifest ∈ f.manifests
  counted : Counted f.liveRefs f

/-! ### Frames -/

theorem Counted.congr {held : BlobId → Nat} {f g : Fabric β} (h : Counted held f)
    (hrefs : g.blobRefs = f.blobRefs) (hcounter : g.blobCounter = f.blobCounter)
    (hindex : g.blobByDigest = f.blobByDigest) : Counted held g where
  covered b := hrefs ▸ h.covered b
  fresh b hb := h.fresh b (hcounter ▸ hb)
  indexed d b hb := hcounter ▸ h.indexed d b (hindex ▸ hb)

theorem Counted.of_blobs {held : BlobId → Nat} {f g : Fabric β} (h : Counted held f)
    (hview : g.blobView = f.blobView) : Counted held g := by
  obtain ⟨-, hindex, -, hrefs, -, hcounter⟩ := BlobView.mk.inj hview
  exact h.congr hrefs hcounter hindex

theorem heldBy_of_manifests {f g : Fabric β} {p : PlacementRecord}
    (h : g.manifests.lookup p.manifest = f.manifests.lookup p.manifest) (b : BlobId) :
    g.heldBy b p = f.heldBy b p := by
  rw [heldBy, heldBy, blobIds, blobIds, h]

theorem liveRefs_congr {f g : Fabric β} (hplacements : g.placements = f.placements)
    (hmanifests : ∀ id p, f.placements.lookup id = some p →
      g.manifests.lookup p.manifest = f.manifests.lookup p.manifest) : g.liveRefs = f.liveRefs := by
  funext b
  rw [liveRefs, liveRefs, hplacements]
  refine AList.sumBy_congr fun id p hp => ?_
  exact heldBy_of_manifests (hmanifests id p hp) b

theorem Referenced.congr {f g : Fabric β} (h : Referenced f)
    (hplacements : g.placements = f.placements) (hmanifests : g.manifests = f.manifests)
    (hrefs : g.blobRefs = f.blobRefs) (hcounter : g.blobCounter = f.blobCounter)
    (hindex : g.blobByDigest = f.blobByDigest) : Referenced g := by
  have hlive : g.liveRefs = f.liveRefs :=
    liveRefs_congr hplacements fun _ _ _ => by rw [hmanifests]
  constructor
  · rw [hplacements, hmanifests]
    exact h.manifest
  · rw [hlive]
    exact h.counted.congr hrefs hcounter hindex

theorem Referenced.of_views {f g : Fabric β} (h : Referenced f)
    (hplacements : g.placements = f.placements) (hmanifests : g.manifestView = f.manifestView)
    {backends : Table StorageBackendId β}
    (hblobs : g.blobView = { f.blobView with backends }) : Referenced g := by
  obtain ⟨-, hindex, -, hrefs, -, hcounter⟩ := BlobView.mk.inj hblobs
  exact h.congr hplacements (congrArg ManifestView.manifests hmanifests) hrefs hcounter hindex

/-! ### Publication -/

def oneMore (held : BlobId → Nat) (b : BlobId) (k : BlobId) : Nat := held k + [b].count k

theorem count_chunks_manifestOf (f : Fabric β) (c : Call) (chunks : List ChunkDescriptor)
    (b : BlobId) :
    ((f.manifestOf c chunks).chunks.map ChunkDescriptor.blob).count b =
      (chunks.map ChunkDescriptor.blob).count b :=
  ((List.perm_insertionSort Manifest.chunkLe chunks).map ChunkDescriptor.blob).count_eq b

section Chunks

variable [StorageBackend β]

theorem Counted.chunkStep {held : BlobId → Nat} {f : Fabric β} (h : Counted held f)
    (backend : StorageBackendId) (dedupe : Bool) (offset : Nat) (slice : Bytes) :
    match chunkStep backend dedupe offset slice f with
    | (.error _, g) => Counted held g
    | (.ok c, g) => Counted (oneMore held c.blob) g := by
  have hindexed := h.indexed.chunkStep backend dedupe offset slice
  -- drawing an id and writing to the backend changes no count
  have hput : (f.allocBlobId.2.putOn backend slice (blobKey ⟨f.blobCounter⟩)).2.blobRefs =
        f.blobRefs ∧
      (f.allocBlobId.2.putOn backend slice (blobKey ⟨f.blobCounter⟩)).2.blobCounter =
        f.blobCounter + 1 := by
    unfold putOn
    cases f.allocBlobId.2.backends.lookup backend <;> exact ⟨rfl, rfl⟩
  rcases chunkStep_cases backend dedupe offset slice f with
    ⟨b, -, hb, heq⟩ | ⟨s, -, heq⟩ | ⟨n, -, heq⟩
  · rw [heq] at hindexed ⊢
    have hlt := h.indexed _ b hb
    constructor
    · intro k
      have hcount : RefCount.count (f.reuseBlob b slice).blobRefs k = _ :=
        RefCount.count_retain f.blobRefs b k
      have hle := h.covered k
      rw [hcount, oneMore, List.count_singleton]
      by_cases hk : k = b
      · subst hk
        simp only [chunkAt, beq_self_eq_true, if_true]
        omega
      · have hne : ¬(chunkAt offset slice b).blob = k := fun heq => hk heq.symm
        simp only [beq_iff_eq, hne, hk, if_false]
        omega
    · intro k hk
      have hne : ¬(chunkAt offset slice b).blob = k := by
        rintro rfl
        exact Nat.lt_irrefl _ (Nat.lt_of_lt_of_le hlt hk)
      rw [oneMore, h.fresh k hk, List.count_singleton]
      simp [hne]
    · exact hindexed
  · rw [heq] at hindexed ⊢
    exact
      { covered := fun k => hput.1 ▸ h.covered k
        fresh := fun k hk => by
          have hcounter := hput.2
          exact h.fresh k (by omega)
        indexed := hindexed }
  · rw [heq] at hindexed ⊢
    obtain ⟨hrefs, hcounter⟩ := hput
    generalize (f.allocBlobId.2.putOn backend slice (blobKey ⟨f.blobCounter⟩)).2 = g at *
    constructor
    · intro k
      have hcount : RefCount.count (g.recordBlob ⟨f.blobCounter⟩ slice).blobRefs k = _ :=
        RefCount.count_insert g.blobRefs ⟨f.blobCounter⟩ k 1
      have hle := h.covered k
      rw [hcount, oneMore, List.count_singleton, hrefs]
      by_cases hk : k = ⟨f.blobCounter⟩
      · subst hk
        rw [h.fresh _ (Nat.le_refl _)]
        simp [chunkAt]
      · have hne : ¬(chunkAt offset slice ⟨f.blobCounter⟩).blob = k := fun heq => hk heq.symm
        simp only [beq_iff_eq, hne, hk, if_false]
        omega
    · intro k hk
      have hk' : f.blobCounter + 1 ≤ k.value := hcounter ▸ hk
      have hne : ¬(chunkAt offset slice ⟨f.blobCounter⟩).blob = k := by
        rintro rfl
        exact Nat.lt_irrefl _ hk'
      rw [oneMore, h.fresh k (by omega), List.count_singleton]
      simp [hne]
    · exact hindexed

/-- The chunk loop takes the references of its chunks; if it stops before the
end, those taken so far stay on top. -/
theorem Counted.chunkLoop {held : BlobId → Nat} {f : Fabric β} (h : Counted held f)
    (backend : StorageBackendId) (dedupe : Bool) (chunk turns offset : Nat) (rest : Bytes) :
    match chunkLoop backend dedupe chunk turns offset rest f with
    | (.error _, g) => Counted held g
    | (.ok cs, g) => Counted (fun b => held b + (cs.map ChunkDescriptor.blob).count b) g := by
  have hloop := chunkLoop_induction backend dedupe (Q := fun _ _ f rc g => ∀ held, Counted held f →
    (∀ s, rc = .error s → Counted held g) ∧
      ∀ cs, rc = .ok cs → Counted (fun b => held b + (cs.map ChunkDescriptor.blob).count b) g)
    ?_ ?_ ?_ chunk turns offset rest f held h
  · generalize Fabric.chunkLoop backend dedupe chunk turns offset rest f = out at hloop ⊢
    obtain ⟨r, g⟩ := out
    cases r with
    | error s => exact hloop.1 s rfl
    | ok cs => exact hloop.2 cs rfl
  · refine fun _ f held h => ⟨nofun, ?_⟩
    rintro _ ⟨⟩
    simpa using h
  · intro offset slice parts f s g hstep held h
    have hnext := h.chunkStep backend dedupe offset slice
    rw [hstep] at hnext
    exact ⟨fun _ _ => hnext, nofun⟩
  · intro offset slice parts f c k rc g hstep ih held h
    have hnext := h.chunkStep backend dedupe offset slice
    rw [hstep] at hnext
    obtain ⟨herror, hok⟩ := ih _ hnext
    cases rc with
    | error s =>
        -- the reference of the first chunk is one of those left behind
        have hlast := herror s rfl
        refine ⟨fun _ _ => ⟨fun b => ?_, fun b hb => ?_, hlast.indexed⟩, nofun⟩
        · exact Nat.le_trans (Nat.le_add_right _ _) (hlast.covered b)
        · exact Nat.eq_zero_of_add_eq_zero_right (hlast.fresh b hb)
    | ok cs =>
        refine ⟨nofun, ?_⟩
        rintro _ ⟨⟩
        have heq : (fun b => oneMore held c.blob b + (cs.map ChunkDescriptor.blob).count b) =
            fun b => held b + ((c :: cs).map ChunkDescriptor.blob).count b := by
          funext b
          rw [oneMore, List.map_cons, List.count_cons, List.count_cons, List.count_nil]
          omega
        rw [← heq]
        exact hok cs rfl

theorem Started.counted {f start g : Fabric β} {c : Call} {res : Reservation}
    {ledger : ReservationLedger} {chunks : List ChunkDescriptor}
    (h : Started f c res ledger start (.ok chunks) g) (hf : Counted f.liveRefs f) :
    Counted (fun b => f.liveRefs b + (chunks.map ChunkDescriptor.blob).count b) g := by
  have hloop := (hf.of_blobs h.blobs).chunkLoop c.backend c.opts.dedupe
    (chunkLength c.obj c.opts) c.content.length 0 c.content
  rwa [h.loop] at hloop

theorem Started.counted_of_any {f start g : Fabric β} {c : Call} {res : Reservation}
    {ledger : ReservationLedger} {rc : Result (List ChunkDescriptor)}
    (h : Started f c res ledger start rc g) (hf : Counted f.liveRefs f) :
    Counted f.liveRefs g := by
  cases rc with
  | ok chunks =>
      have hcounted := h.counted hf
      exact
        { covered := fun b => Nat.le_trans (Nat.le_add_right _ _) (hcounted.covered b)
          fresh := fun b hb => Nat.eq_zero_of_add_eq_zero_right (hcounted.fresh b hb)
          indexed := hcounted.indexed }
  | error s =>
      have hloop := (hf.of_blobs h.blobs).chunkLoop c.backend c.opts.dedupe
        (chunkLength c.obj c.opts) c.content.length 0 c.content
      rwa [h.loop] at hloop

theorem Referenced.publishCall {f : Fabric β} (h : Referenced f) (c : Call) :
    Referenced (f.publishCall c).2 := by
  have hout := publishCall_outcome f c
  generalize (f.publishCall c).1 = r at hout
  generalize (f.publishCall c).2 = f' at hout
  -- a manifest under a new id is not that of a placement
  have hkeep : ∀ man : Manifest, (⟨f.manifestCounter⟩ : ManifestId) ∉ f.manifests → ∀ id p,
      f.placements.lookup id = some p →
        (f.manifests.insert ⟨f.manifestCounter⟩ man).lookup p.manifest =
          f.manifests.lookup p.manifest := by
    intro man hfresh id p hp
    refine AList.lookup_insert_ne fun heq => ?_
    exact hfresh (heq ▸ h.manifest id p hp)
  cases hout with
  | refused s ledger stale hrefuse => exact h.congr rfl rfl rfl rfl rfl
  | aborted s res ledger start rc g f' hstart habort =>
      obtain ⟨m, n, -, -, hcatalog⟩ := habort.catalog
      have hplacements : f'.placements = f.placements := congrArg CatalogView.placements hcatalog
      have hcounted := (hstart.counted_of_any h.counted).of_blobs habort.blobs
      rcases habort.manifests with hman | ⟨chunks, -, hfresh, hman⟩
      · constructor
        · rw [hplacements, hman]
          exact h.manifest
        · rw [liveRefs_congr hplacements fun _ _ _ => by rw [hman]]
          exact hcounted
      · constructor
        · intro id p hp
          rw [hman, AList.mem_insert]
          exact .inr (h.manifest id p (hplacements ▸ hp))
        · rw [liveRefs_congr hplacements fun id p hp => by rw [hman]; exact hkeep _ hfresh id p hp]
          exact hcounted
  | published res ledger start chunks desc t g f' hstart hpub =>
      obtain ⟨hman, -⟩ := ManifestView.mk.inj hpub.manifests
      obtain ⟨-, -, -, hplacements, -⟩ := CatalogView.mk.inj hpub.catalog
      have hcounted := (hstart.counted h.counted).of_blobs hpub.blobs
      constructor
      · intro id p hp
        rw [hplacements] at hp
        rw [hman, AList.mem_insert]
        rcases AList.lookup_insert_eq_some.mp hp with ⟨-, rfl⟩ | ⟨-, hold⟩
        · exact .inl rfl
        · exact .inr (h.manifest id p hold)
      · have hlive : f'.liveRefs =
            fun b => f.liveRefs b + (chunks.map ChunkDescriptor.blob).count b := by
          funext b
          have hnew : f'.heldBy b (f.placementOf c desc t) =
              (chunks.map ChunkDescriptor.blob).count b := by
            have hlookup : f'.manifests.lookup (f.placementOf c desc t).manifest =
                some (f.manifestOf c chunks) := by
              rw [hman]
              exact AList.lookup_insert _
            have hkept : isEvicted (f.placementOf c desc t) = false := rfl
            rw [heldBy, blobIds, hlookup, hkept]
            exact count_chunks_manifestOf f c chunks b
          have hold : AList.sumBy (f'.heldBy b) f.placements = f.liveRefs b := by
            apply AList.sumBy_congr
            intro id p hp
            apply heldBy_of_manifests
            rw [hman]
            exact hkeep _ hpub.freshManifest id p hp
          rw [liveRefs, hplacements]
          refine (AList.sumBy_insert_of_notMem hpub.freshPlacement _).trans ?_
          rw [hnew, hold, Nat.add_comm]
        rw [hlive]
        exact hcounted

end Chunks

/-! ### Eviction and demotion -/

/-- Changing one record takes its references out and puts those of the new
record in. -/
theorem liveRefs_modify {f g : Fabric β} {id : PlacementId} {p : PlacementRecord}
    {u : PlacementRecord → PlacementRecord} (hp : f.placements.lookup id = some p)
    (hplacements : g.placements = f.placements.modify id u) (hmanifests : g.manifests = f.manifests)
    (b : BlobId) : g.liveRefs b + f.heldBy b p = f.liveRefs b + f.heldBy b (u p) := by
  have hheld : g.heldBy b = f.heldBy b := by
    funext q
    exact heldBy_of_manifests (by rw [hmanifests]) b
  rw [liveRefs, hplacements, hheld]
  exact AList.sumBy_modify hp _ _

theorem Referenced.demote {f : Fabric β} (h : Referenced f) {id : PlacementId}
    (hid : (f.placements.lookup id).any isEvicted = false) :
    Referenced (f.demote id) := by
  have hmanifest : ∀ k p, (f.demote id).placements.lookup k = some p →
      p.manifest ∈ (f.demote id).manifests := by
    intro k p hp
    obtain ⟨q, hq, rfl⟩ := AList.lookup_modify_eq_some.mp hp
    have hmem := h.manifest k q hq
    split <;> exact hmem
  have hlive : (f.demote id).liveRefs = f.liveRefs := by
    funext b
    have hplacements : (f.demote id).placements =
        f.placements.modify id fun p => { p with lifecycle := .known .stale } := rfl
    cases hp : f.placements.lookup id with
    | none =>
        have hsame : (f.demote id).placements = f.placements :=
          hplacements.trans (AList.modify_of_notMem (AList.notMem_iff_lookup.mpr hp) _)
        exact congrFun (liveRefs_congr hsame fun _ _ _ => rfl) b
    | some p =>
        have hsum := liveRefs_modify (g := f.demote id) hp hplacements rfl b
        have hkept : isEvicted p = false := by simpa [hp] using hid
        have hheld : f.heldBy b { p with lifecycle := .known .stale } = f.heldBy b p := by
          simp only [heldBy, hkept]
          rfl
        omega
  exact ⟨hmanifest, hlive ▸ h.counted.congr rfl rfl rfl⟩

section Evict

variable [StorageBackend β]

theorem Referenced.evict {f : Fabric β} (h : Referenced f) {id : PlacementId} {e : Eviction}
    (hcheck : f.evictCheck id = .inr e) : Referenced ((f.evictRecord e).evictCommit e).2 := by
  obtain ⟨entry, hp, -, -, hkept, -, hblobs⟩ := evictCheck_inr hcheck
  have hcatalog := catalogView_evict hcheck
  have hman : ((f.evictRecord e).evictCommit e).2.manifests = f.manifests :=
    congrArg ManifestView.manifests (manifestView_evict f e)
  obtain ⟨-, hindex, -, hrefs, -, hcounter⟩ := BlobView.mk.inj (blobView_evict f e)
  obtain ⟨-, -, -, hplacements, -⟩ := CatalogView.mk.inj hcatalog
  generalize ((f.evictRecord e).evictCommit e).2 = g at *
  -- the references of the evicted placement are those given back
  have hlive : ∀ b, g.liveRefs b + e.blobs.count b = f.liveRefs b := by
    intro b
    have hsum := liveRefs_modify hp hplacements hman b
    have hgone : f.heldBy b (evictedRecord e.record) = 0 := if_pos rfl
    have hheld : f.heldBy b e.record = e.blobs.count b := by
      rw [heldBy, if_neg (by simpa [isEvicted] using hkept), hblobs]
    omega
  constructor
  · intro k p hk
    rw [hplacements] at hk
    obtain ⟨q, hq, rfl⟩ := AList.lookup_modify_eq_some.mp hk
    have hmem := h.manifest k q hq
    rw [hman]
    split <;> exact hmem
  · constructor
    · intro b
      have hle := h.counted.covered b
      have hsum := hlive b
      rw [hrefs]
      refine Nat.le_trans ?_ (Nat.le_of_eq (RefCount.count_dropAll e.blobs f.blobRefs b).symm)
      omega
    · intro b hb
      rw [hcounter] at hb
      have hzero := h.counted.fresh b hb
      have hsum := hlive b
      omega
    · intro d b hb
      rw [hindex] at hb
      rw [hcounter]
      exact h.counted.indexed d b hb

end Evict

/-! ### Runs -/

theorem referenced_empty : Referenced ({} : Fabric β) where
  manifest id p hp := by simp at hp
  counted :=
    { covered := fun b => Nat.zero_le _
      fresh := fun b _ => rfl
      indexed := fun d b hb => by simp at hb }

section Runs

variable [StorageBackend β]

theorem Referenced.exec {f : Fabric β} (h : Referenced f) {op : Op β}
    (hop : demotes isEvicted f op = false) : Referenced (f.exec op) := by
  have heffect := exec_effect f op
  generalize f.exec op = f' at heffect
  cases heffect with
  | silent _ f' hviews =>
      exact h.of_views (congrArg CatalogView.placements hviews.catalog) hviews.manifests
        hviews.blobs
  | registered _ t desc be f' _ _ hcatalog hmanifests hblobs =>
      exact h.of_views (congrArg CatalogView.placements hcatalog) hmanifests hblobs
  | defined _ obj f' _ _ hcatalog hmanifests hblobs =>
      exact h.of_views (congrArg CatalogView.placements hcatalog) hmanifests hblobs
  | duplicate _ f' _ hcatalog hmanifests hblobs =>
      exact h.of_views (congrArg CatalogView.placements hcatalog) hmanifests hblobs
  | called _ c g _ hviews _ =>
      exact (h.of_views (congrArg CatalogView.placements hviews.catalog) hviews.manifests
        hviews.blobs).publishCall c
  | moved _ source c g p hcall hviews hmove hsource hok =>
      have hg := h.of_views (congrArg CatalogView.placements hviews.catalog) hviews.manifests
        hviews.blobs
      refine (hg.publishCall c).demote ?_
      have hcreated : f.created op = some p := by
        rw [created, hcall]
        simp [hok, Except.toOption]
      have hplacements : g.placements = f.placements :=
        congrArg CatalogView.placements hviews.catalog
      rw [lookup_placements_publishCall g c (hplacements ▸ hsource), hplacements]
      simpa [demotes, hmove, hcreated] using hop
  | evicted id e hcheck => exact h.evict hcheck

end Runs

/-! ### Reclaiming -/

theorem Referenced.notMem_reclaimed {f : Fabric β} (h : Referenced f) {id other : PlacementId}
    {e : Eviction} {p : PlacementRecord} {b : BlobId} (hcheck : f.evictCheck id = .inr e)
    (hne : other ≠ id) (hp : f.placements.lookup other = some p) (hkept : isEvicted p = false)
    (hb : b ∈ f.blobIds p) : b ∉ f.reclaimed e := by
  intro hmem
  obtain ⟨entry, he, -, -, hevicted, -, hblobs⟩ := evictCheck_inr hcheck
  have hgiven := RefCount.count_le_of_mem_dropAll hmem
  have hcovered := h.counted.covered b
  have hboth := AList.add_le_sumBy hne hp he (f.heldBy b)
  have hheld : f.heldBy b p = (f.blobIds p).count b := by
    rw [heldBy, hkept]
    rfl
  have hback : f.heldBy b e.record = e.blobs.count b := by
    rw [heldBy, if_neg (by simpa [isEvicted] using hevicted), hblobs]
  have hpos : 0 < (f.blobIds p).count b := List.count_pos_iff.mpr hb
  have hlive : f.liveRefs b = f.placements.sumBy (f.heldBy b) := rfl
  omega

section Contents

variable [KeyValueBackend β]

/-- An eviction leaves the blobs that other available placements refer to where
they are, on every backend. -/
def KeepsBlobs (f : Fabric β) (id : PlacementId) : Prop :=
  ∀ other p, other ≠ id → f.placements.lookup other = some p → isAvailable p = true →
    ∀ b ∈ f.blobIds p, ∀ k, (f.evict id).2.stored k (blobKey b) = f.stored k (blobKey b)

theorem isEvicted_of_isAvailable {p : PlacementRecord} (h : isAvailable p = true) :
    isEvicted p = false := by
  have hlifecycle : p.lifecycle = .known .available := by simpa [isAvailable] using h
  rw [isEvicted, hlifecycle]
  rfl

theorem Referenced.keepsBlobs {f : Fabric β} (h : Referenced f) (id : PlacementId) :
    KeepsBlobs f id := by
  intro other p hne hp havail b hb k
  unfold Fabric.evict
  cases hcheck : f.evictCheck id with
  | inl decision => rfl
  | inr e =>
      have hkept := h.notMem_reclaimed hcheck hne hp (isEvicted_of_isAvailable havail) hb
      simp only [← evictPartly_length]
      rcases stored_evictPartly f e ((f.evictRecord e).reclaimed e).length k b with
        heq | ⟨-, hmem, -⟩
      · exact heq
      · exact absurd hmem hkept

theorem referenced_run {ops : List (Op β)}
    (hops : Runs.Along exec (fun f op => demotes isEvicted f op = false) {} ops) :
    Referenced (Runs.run exec {} ops) :=
  Runs.invariant (I := Referenced) (fun _ _ h hop => h.exec hop) referenced_empty hops

/-- In every run without a successful movement away from an evicted placement,
evictions remove no blob that another available placement refers to. -/
theorem evict_keeps_blobs (ops : List (Op β))
    (hops : Runs.Along exec (fun f op => demotes isEvicted f op = false) {} ops)
    (id : PlacementId) : KeepsBlobs (Runs.run exec {} ops) id :=
  (referenced_run hops).keepsBlobs id

end Contents

/-- Two placements that share their blob, of which one may go. -/
theorem evict_keeps_blobs_small :
    KeepsBlobs (Runs.run exec {} (Small.opening ++ [Small.publication, Small.publication])) ⟨1⟩ :=
  evict_keeps_blobs _ (by decide +kernel) ⟨1⟩

/-- A placement that was evicted is the source of a movement, which makes it
stale, and is evicted once more. -/
def revivedOps : List (Op SyntheticBackend) :=
  Small.opening ++ [Small.publication, Small.publication, .evict ⟨1⟩,
    .move { id := ⟨1⟩, object := ⟨1⟩ } ⟨1⟩ { eagerVerify := false }, .evict ⟨1⟩]

/-- The eviction of the second placement takes the blob of the third away. -/
theorem evict_removes_shared_blob : ¬KeepsBlobs (Runs.run exec {} revivedOps) ⟨2⟩ := by
  intro h
  have hrun : ((Runs.run exec {} revivedOps).placements.lookup ⟨3⟩).any
        (fun p => isAvailable p &&
          decide (⟨1⟩ ∈ (Runs.run exec {} revivedOps).blobIds p)) = true ∧
      (Runs.run exec {} revivedOps).stored ⟨1⟩ (blobKey ⟨1⟩) = some [7] ∧
      ((Runs.run exec {} revivedOps).evict ⟨2⟩).2.stored ⟨1⟩ (blobKey ⟨1⟩) = none := by
    decide +kernel
  obtain ⟨hother, hbefore, hafter⟩ := hrun
  obtain ⟨p, hp, hprop⟩ := (Option.any_eq_true _ _).mp hother
  rw [Bool.and_eq_true, decide_eq_true_eq] at hprop
  have hkeep := h ⟨3⟩ p (by decide) hp hprop.1 ⟨1⟩ hprop.2 ⟨1⟩
  rw [hbefore, hafter] at hkeep
  cases hkeep

end Fabric

end StorageFabric
