import StorageFabric.Lib.Runs
import StorageFabric.Runtime.Outcome

/-!
What the backends hold, and how an operation can change it.

Blob ids are drawn once and a blob key is written when its id is drawn, so the
bytes under the key of an old blob id never change to other bytes: they stay
(`Grows`), or an eviction takes them away (`Later`). Every operation, and every
state an operation passes through, is later than the one it started in.
-/

namespace StorageFabric

open StorageBackend

namespace Fabric

variable {β : Type}

theorem mem_setBackend {f : Fabric β} {k k' : StorageBackendId} {be : β} :
    k' ∈ (f.setBackend k be).backends ↔ k' ∈ f.backends := AList.mem_modify

theorem backends_evictMetadata (f : Fabric β) (e : Eviction) :
    (f.evictMetadata e).backends = f.backends :=
  congrArg BlobView.backends (blobView_evictMetadata f e)

/-- The dedup index points to ids that were drawn. -/
def Indexed (f : Fabric β) : Prop :=
  ∀ d b, f.blobByDigest.lookup d = some b → b.value < f.blobCounter

theorem Indexed.chunkStep [StorageBackend β] {f : Fabric β} (h : Indexed f)
    (backend : StorageBackendId) (dedupe : Bool) (offset : Nat) (slice : Bytes) :
    Indexed (chunkStep backend dedupe offset slice f).2 := by
  have hput : Indexed (f.allocBlobId.2.putOn backend slice (blobKey ⟨f.blobCounter⟩)).2 ∧
      (f.allocBlobId.2.putOn backend slice (blobKey ⟨f.blobCounter⟩)).2.blobCounter =
        f.blobCounter + 1 := by
    unfold putOn
    cases f.allocBlobId.2.backends.lookup backend
    all_goals exact ⟨fun d b hb => Nat.lt_succ_of_lt (h d b hb), rfl⟩
  rcases chunkStep_cases backend dedupe offset slice f with ⟨_, _, _, heq⟩ | ⟨_, _, heq⟩ | ⟨_, _, heq⟩
  · rw [heq]
    exact h
  · rw [heq]
    exact hput.1
  · rw [heq]
    obtain ⟨hindexed, hcounter⟩ := hput
    generalize (f.allocBlobId.2.putOn backend slice (blobKey ⟨f.blobCounter⟩)).2 = g at *
    intro d b hb
    have hg : (g.recordBlob ⟨f.blobCounter⟩ slice).blobCounter = f.blobCounter + 1 := hcounter
    rw [hg]
    rcases AList.lookup_insert_eq_some.mp hb with ⟨-, rfl⟩ | ⟨-, hold⟩
    · exact Nat.lt_succ_self _
    · exact hcounter ▸ hindexed d b hold

section Contents

variable [KeyValueBackend β]

/-- The bytes under a key of the backend registered as `k`. -/
def stored (f : Fabric β) (k : StorageBackendId) (key : Bytes) : Option Bytes :=
  (f.backends.lookup k).bind fun be => KeyValueBackend.view be key

theorem stored_congr {f g : Fabric β} (h : g.backends = f.backends) (k : StorageBackendId)
    (key : Bytes) : g.stored k key = f.stored k key := by
  rw [stored, stored, h]

theorem stored_setBackend {f : Fabric β} {k : StorageBackendId} {old : β}
    (h : f.backends.lookup k = some old) (be : β) (k' : StorageBackendId) (key : Bytes) :
    (f.setBackend k be).stored k' key =
      if k' = k then KeyValueBackend.view be key else f.stored k' key := by
  unfold stored setBackend
  rw [AList.lookup_modify]
  by_cases hk : k' = k
  · subst hk
    simp [h]
  · simp [hk]

/-! ### Writing -/

theorem stored_putOn_ok {f : Fabric β} {k : StorageBackendId} {data key : Bytes} {n : UInt64}
    (h : (f.putOn k data key).1 = .ok n) (k' : StorageBackendId) (key' : Bytes) :
    (f.putOn k data key).2.stored k' key' =
      if k' = k ∧ key' = key then some data else f.stored k' key' := by
  unfold putOn at h ⊢
  cases hbe : f.backends.lookup k with
  | none => simp [hbe, Result.fail] at h
  | some be =>
      rw [hbe] at h
      rw [stored_setBackend hbe, KeyValueBackend.put_ok h]
      by_cases hk : k' = k
      · subst hk
        simp [stored, hbe]
      · simp [hk]

theorem stored_putOn_error {f : Fabric β} {k : StorageBackendId} {data key : Bytes} {s : Status}
    (h : (f.putOn k data key).1 = .error s) (k' : StorageBackendId) (key' : Bytes) :
    (f.putOn k data key).2.stored k' key' = f.stored k' key' := by
  unfold putOn at h ⊢
  cases hbe : f.backends.lookup k with
  | none => rfl
  | some be =>
      rw [hbe] at h
      rw [stored_setBackend hbe, KeyValueBackend.put_error h]
      by_cases hk : k' = k
      · subst hk
        simp [stored, hbe]
      · simp [hk]

theorem mem_putOn {f : Fabric β} {k k' : StorageBackendId} {data key : Bytes} :
    k' ∈ (f.putOn k data key).2.backends ↔ k' ∈ f.backends := by
  unfold putOn
  cases f.backends.lookup k with
  | none => rfl
  | some be => exact mem_setBackend

/-! ### Later states -/

/-- Registered backends stay, and so do the bytes under the key of a blob id
that was drawn already. -/
structure Grows (f g : Fabric β) : Prop where
  counter : f.blobCounter ≤ g.blobCounter
  backends : ∀ k, k ∈ f.backends → k ∈ g.backends
  stored : ∀ k, k ∈ f.backends → ∀ b : BlobId, b.value < f.blobCounter →
    g.stored k (blobKey b) = f.stored k (blobKey b)

/-- The same, but the bytes may also be gone. -/
structure Later (f g : Fabric β) : Prop where
  counter : f.blobCounter ≤ g.blobCounter
  backends : ∀ k, k ∈ f.backends → k ∈ g.backends
  stored : ∀ k, k ∈ f.backends → ∀ b : BlobId, b.value < f.blobCounter →
    g.stored k (blobKey b) = f.stored k (blobKey b) ∨ g.stored k (blobKey b) = none

theorem Grows.later {f g : Fabric β} (h : Grows f g) : Later f g :=
  ⟨h.counter, h.backends, fun k hk b hb => .inl (h.stored k hk b hb)⟩

theorem Grows.refl (f : Fabric β) : Grows f f :=
  ⟨Nat.le_refl _, fun _ h => h, fun _ _ _ _ => rfl⟩

theorem Grows.trans {f g h : Fabric β} (hfg : Grows f g) (hgh : Grows g h) : Grows f h where
  counter := Nat.le_trans hfg.counter hgh.counter
  backends k hk := hgh.backends k (hfg.backends k hk)
  stored k hk b hb :=
    (hgh.stored k (hfg.backends k hk) b (Nat.lt_of_lt_of_le hb hfg.counter)).trans
      (hfg.stored k hk b hb)

theorem Later.trans {f g h : Fabric β} (hfg : Later f g) (hgh : Later g h) : Later f h where
  counter := Nat.le_trans hfg.counter hgh.counter
  backends k hk := hgh.backends k (hfg.backends k hk)
  stored k hk b hb := by
    rcases hgh.stored k (hfg.backends k hk) b (Nat.lt_of_lt_of_le hb hfg.counter) with heq | hnone
    · rw [heq]
      exact hfg.stored k hk b hb
    · exact .inr hnone

theorem Grows.of_eq {f g : Fabric β} (hbackends : g.backends = f.backends)
    (hcounter : f.blobCounter ≤ g.blobCounter) : Grows f g :=
  ⟨hcounter, fun _ hk => hbackends ▸ hk, fun k _ _ _ => stored_congr hbackends k _⟩

theorem Grows.of_views {f g : Fabric β} (h : g.blobView = f.blobView) : Grows f g := by
  obtain ⟨hbackends, -, -, -, -, hcounter⟩ := BlobView.mk.inj h
  exact .of_eq hbackends (Nat.le_of_eq hcounter.symm)

theorem grows_putOn {f : Fabric β} {k : StorageBackendId} {data : Bytes} :
    Grows f (f.allocBlobId.2.putOn k data (blobKey ⟨f.blobCounter⟩)).2 where
  counter := by
    have hcounter : (f.allocBlobId.2.putOn k data (blobKey ⟨f.blobCounter⟩)).2.blobCounter =
        f.blobCounter + 1 := by
      unfold putOn
      cases f.allocBlobId.2.backends.lookup k <;> rfl
    omega
  backends k' hk' := mem_putOn.mpr hk'
  stored k' hk' b hb := by
    have hne : blobKey b ≠ blobKey ⟨f.blobCounter⟩ := by
      intro heq
      rw [blobKey_injective heq] at hb
      exact Nat.lt_irrefl _ hb
    rcases hput : (f.allocBlobId.2.putOn k data (blobKey ⟨f.blobCounter⟩)).1 with s | n
    · rw [stored_putOn_error hput]
      exact stored_congr rfl _ _
    · rw [stored_putOn_ok hput, if_neg fun h => hne h.2]
      exact stored_congr rfl _ _

theorem grows_chunkStep (backend : StorageBackendId) (dedupe : Bool) (offset : Nat)
    (slice : Bytes) (f : Fabric β) : Grows f (chunkStep backend dedupe offset slice f).2 := by
  rcases chunkStep_cases backend dedupe offset slice f with ⟨_, _, _, h⟩ | ⟨_, _, h⟩ | ⟨_, _, h⟩
  · rw [h]
    exact .of_eq rfl (Nat.le_refl _)
  · rw [h]
    exact grows_putOn
  · rw [h]
    exact grows_putOn.trans (.of_eq rfl (Nat.le_refl _))

theorem grows_chunkLoop (backend : StorageBackendId) (dedupe : Bool) (chunk turns offset : Nat)
    (rest : Bytes) (f : Fabric β) :
    Grows f (chunkLoop backend dedupe chunk turns offset rest f).2 :=
  chunkLoop_invariant (I := fun g => Grows f g)
    (fun o s g hg => hg.trans (grows_chunkStep backend dedupe o s g)) _ _ _ _ _ (.refl f)

theorem Started.grows {f start g : Fabric β} {c : Call} {res : Reservation}
    {ledger : ReservationLedger} {rc : Result (List ChunkDescriptor)}
    (h : Started f c res ledger start rc g) : Grows f g := by
  have hloop := grows_chunkLoop c.backend c.opts.dedupe (chunkLength c.obj c.opts)
    c.content.length 0 c.content start
  rw [h.loop] at hloop
  exact (Grows.of_views h.blobs).trans hloop

theorem grows_publishCall (f : Fabric β) (c : Call) : Grows f (f.publishCall c).2 := by
  have hout := publishCall_outcome f c
  generalize (f.publishCall c).1 = r at hout
  generalize (f.publishCall c).2 = f' at hout
  cases hout with
  | refused s ledger stale hrefuse => exact .of_eq rfl (Nat.le_refl _)
  | aborted s res ledger start rc g f' hstart habort =>
      exact hstart.grows.trans (.of_views habort.blobs)
  | published res ledger start chunks desc t g f' hstart hpub =>
      exact hstart.grows.trans (.of_views hpub.blobs)

/-! ### Removing -/

theorem mem_removeOn {f : Fabric β} {k k' : StorageBackendId} {key : Bytes} :
    k' ∈ (f.removeOn k key).backends ↔ k' ∈ f.backends := by
  unfold removeOn
  cases f.backends.lookup k with
  | none => rfl
  | some be => exact mem_setBackend

theorem stored_removeOn (f : Fabric β) (k k' : StorageBackendId) (key key' : Bytes) :
    (f.removeOn k key).stored k' key' = f.stored k' key' ∨
      (k' = k ∧ key' = key ∧ (f.removeOn k key).stored k' key' = none) := by
  unfold removeOn
  cases hbe : f.backends.lookup k with
  | none => exact .inl rfl
  | some be =>
      simp only [stored_setBackend hbe]
      by_cases hk : k' = k
      · subst hk
        have hview : f.stored k' key' = KeyValueBackend.view be key' := by simp [stored, hbe]
        rw [if_pos rfl, hview]
        rcases KeyValueBackend.view_remove be key key' with heq | ⟨hkey, hnone⟩
        · exact .inl heq
        · exact .inr ⟨rfl, hkey, hnone⟩
      · rw [if_neg hk]
        exact .inl rfl

theorem mem_removeBlobs {k k' : StorageBackendId} {bs : List BlobId} {f : Fabric β} :
    k' ∈ (removeBlobs k bs f).backends ↔ k' ∈ f.backends := by
  induction bs generalizing f with
  | nil => rfl
  | cons b bs ih => exact ih.trans mem_removeOn

theorem stored_removeBlobs (k k' : StorageBackendId) (bs : List BlobId) (key : Bytes)
    (f : Fabric β) :
    (removeBlobs k bs f).stored k' key = f.stored k' key ∨
      (k' = k ∧ (∃ b ∈ bs, key = blobKey b) ∧ (removeBlobs k bs f).stored k' key = none) := by
  induction bs generalizing f with
  | nil => exact .inl rfl
  | cons b bs ih =>
      rw [removeBlobs]
      rcases ih (f.removeOn k (blobKey b)) with heq | ⟨hk, ⟨b', hb', hkey⟩, hnone⟩
      · rw [heq]
        rcases stored_removeOn f k k' (blobKey b) key with hsame | ⟨hk, hkey, hgone⟩
        · exact .inl hsame
        · exact .inr ⟨hk, ⟨b, List.mem_cons_self, hkey⟩, hgone⟩
      · exact .inr ⟨hk, ⟨b', List.mem_cons_of_mem b hb', hkey⟩, hnone⟩

theorem reclaimed_evictRecord (f : Fabric β) (e : Eviction) :
    (f.evictRecord e).reclaimed e = f.reclaimed e := by
  have hview := blobView_removeOn f e.record.backend (placementKey e.placement)
  have hrefs : (f.evictRecord e).blobRefs = f.blobRefs := congrArg BlobView.blobRefs hview
  rw [reclaimed, reclaimed, hrefs]

theorem stored_evictRecord (f : Fabric β) (e : Eviction) (k : StorageBackendId) (b : BlobId) :
    (f.evictRecord e).stored k (blobKey b) = f.stored k (blobKey b) := by
  rcases stored_removeOn f e.record.backend k (placementKey e.placement) (blobKey b) with
    heq | ⟨-, hkey, -⟩
  · exact heq
  · exact absurd hkey.symm (placementKey_ne_blobKey _ _)

/-- An eviction that has removed the first `n` of the blobs it reclaims. -/
def evictPartly (f : Fabric β) (e : Eviction) (n : Nat) : Fabric β :=
  removeBlobs e.record.backend ((f.reclaimed e).take n) (f.evictMetadata e)

theorem evictPartly_length (f : Fabric β) (e : Eviction) :
    f.evictPartly e (f.reclaimed e).length = (f.evictCommit e).2 := by
  rw [evictPartly, List.take_length]
  rfl

/-- A blob is removed only as one that is reclaimed, from the backend of the
placement. -/
theorem stored_evictPartly (f : Fabric β) (e : Eviction) (n : Nat) (k : StorageBackendId)
    (b : BlobId) :
    ((f.evictRecord e).evictPartly e n).stored k (blobKey b) = f.stored k (blobKey b) ∨
      (k = e.record.backend ∧ b ∈ f.reclaimed e ∧
        ((f.evictRecord e).evictPartly e n).stored k (blobKey b) = none) := by
  rw [evictPartly, reclaimed_evictRecord]
  rcases stored_removeBlobs e.record.backend k ((f.reclaimed e).take n) (blobKey b)
    ((f.evictRecord e).evictMetadata e) with heq | ⟨hk, ⟨b', hb', hkey⟩, hnone⟩
  · left
    rw [heq, stored_congr (backends_evictMetadata _ e), stored_evictRecord]
  · right
    rw [blobKey_injective hkey]
    exact ⟨hk, List.mem_of_mem_take hb', blobKey_injective hkey ▸ hnone⟩

theorem later_evictRecord (f : Fabric β) (e : Eviction) : Later f (f.evictRecord e) where
  counter := Nat.le_of_eq
    (congrArg BlobView.blobCounter (blobView_removeOn f _ (placementKey e.placement))).symm
  backends _ hk := mem_removeOn.mpr hk
  stored k _ b _ := .inl (stored_evictRecord f e k b)

theorem later_evictPartly (f : Fabric β) (e : Eviction) (n : Nat) :
    Later f ((f.evictRecord e).evictPartly e n) where
  counter := by
    have hpartly : ((f.evictRecord e).evictPartly e n).blobCounter =
        ((f.evictRecord e).evictMetadata e).blobCounter :=
      congrArg BlobView.blobCounter (blobView_removeBlobs _ _ _)
    have hmetadata : ((f.evictRecord e).evictMetadata e).blobCounter =
        (f.evictRecord e).blobCounter :=
      congrArg BlobView.blobCounter (blobView_evictMetadata _ e)
    rw [hpartly, hmetadata]
    exact (later_evictRecord f e).counter
  backends _ hk := by
    rw [evictPartly, mem_removeBlobs, backends_evictMetadata]
    exact mem_removeOn.mpr hk
  stored k _ b _ := by
    rcases stored_evictPartly f e n k b with heq | ⟨-, -, hnone⟩
    · exact .inl heq
    · exact .inr hnone

/-! ### Operations -/

/-- What an operation stores only grows, unless it is an eviction. -/
theorem exec_grows (f : Fabric β) (op : Op β) :
    Grows f (f.exec op) ∨ ∃ id e, op = .evict id ∧ f.evictCheck id = .inr e ∧
      f.exec op = ((f.evictRecord e).evictCommit e).2 := by
  have heffect := exec_effect f op
  generalize f.exec op = f' at heffect
  cases heffect with
  | silent _ f' hviews => exact .inl (.of_views hviews.blobs)
  | registered _ t desc be f' _ _ _ _ hblobs =>
      obtain ⟨hbackends, -, -, -, -, hcounter⟩ := BlobView.mk.inj hblobs
      have hkeep : ∀ k, k ∈ f.backends → f'.backends.lookup k = f.backends.lookup k := by
        intro k hk
        rw [hbackends]
        exact AList.lookup_emplace_of_mem hk
      left
      exact
        { counter := Nat.le_of_eq hcounter.symm
          backends := fun k hk => by
            obtain ⟨old, hold⟩ := AList.mem_iff_lookup.mp hk
            exact AList.mem_iff_lookup.mpr ⟨old, (hkeep k hk).trans hold⟩
          stored := fun k hk b _ => by rw [Fabric.stored, Fabric.stored, hkeep k hk] }
  | defined _ obj f' _ _ _ _ hblobs => exact .inl (.of_views hblobs)
  | duplicate _ f' _ _ _ hblobs => exact .inl (.of_views hblobs)
  | called _ c g _ hviews _ =>
      exact .inl ((Grows.of_views hviews.blobs).trans (grows_publishCall g c))
  | moved _ source c g p _ hviews _ _ _ =>
      have hpub := (Grows.of_views hviews.blobs).trans (grows_publishCall g c)
      exact .inl (hpub.trans (.of_eq rfl (Nat.le_refl _)))
  | evicted id e hcheck => exact .inr ⟨id, e, rfl, hcheck, rfl⟩

theorem later_exec (f : Fabric β) (op : Op β) : Later f (f.exec op) := by
  rcases exec_grows f op with hgrows | ⟨id, e, -, -, heq⟩
  · exact hgrows.later
  · rw [heq, ← evictPartly_length]
    exact later_evictPartly f e _

theorem later_run (f : Fabric β) (ops : List (Op β)) : Later f (Runs.run exec f ops) :=
  Runs.related (P := fun _ _ => True) (I := fun _ => True) (fun f => (Grows.refl f).later)
    (fun _ _ _ => Later.trans) (fun _ _ _ _ => trivial) (fun g op _ _ => later_exec g op) trivial
    (Runs.along_of_forall (fun _ _ => trivial) _ _)

end Contents

end Fabric

end StorageFabric
