import StorageFabric.Runtime.DedupIndex
import StorageFabric.Runtime.Host
import StorageFabric.Runtime.Restore
import StorageFabric.Runtime.Serves

/-!
What the eager verification of a publication vouches for.

It compares the bytes under each chunk's blob with the digest of the chunk, and so
with the slice. A placement carries the digest of its descriptor, which nothing is
compared with: whether it verifies depends on the bytes that the slices ended up
as, and on the digest that the caller has put into the descriptor.
-/

namespace StorageFabric

open StorageBackend

namespace Fabric

variable {β : Type}

/-! ### The dedup index of every process -/

theorem Indexed.restore {f : Fabric β} (h : Indexed f) (snap : MetadataSnapshot) (path : Bytes)
    (nonce : Nat) : Indexed (f.restore snap path nonce) := by
  intro d b hb
  have hcounter := counter_foldl (f.restore snap path nonce).blobRefs.keys f.blobCounter
  rw [← blobCounter_restore] at hcounter
  rw [blobByDigest_restore] at hb
  obtain hold | ⟨c, hc, -, rfl⟩ := lookup_foldl_offer hb
  · exact Nat.lt_of_lt_of_le (h d b hold) hcounter.1
  · -- the loop over the chunks has taken a reference to the blob
    refine hcounter.2 c.blob (AList.mem_keys.mp (RefCount.mem_of_count_pos ?_))
    rw [blobRefs_restore, RefCount.count_foldl_retain]
    have hpos := List.count_pos_iff.mpr (List.mem_map_of_mem (f := ChunkDescriptor.blob) hc)
    omega

section Contents

variable [KeyValueBackend β]

theorem indexed_host {ops : List (HostOp β)} : Indexed (Runs.run Host.step {} ops).fabric :=
  Host.fabric_invariant (P := fun _ => True) (fun d b hb => by simp at hb)
    (fun _ op h _ => h.exec op) (fun _ _ h => h.of_eq rfl rfl)
    (fun _ snap path nonce h => h.restore snap path nonce) fun _ _ => trivial

/-! ### What the slices end up as -/

/-- What is there under the blob that the index offers for a digest. -/
def offered (f : Fabric β) (k : StorageBackendId) (d : ContentDigest) : Option Bytes :=
  (f.blobByDigest.lookup d).map fun b => (f.stored k (blobKey b)).getD []

/-- What the slices end up as: what is offered for their digest, or themselves, and
then they are offered for the slices to come. -/
def landed (dedupe : Bool) : (ContentDigest → Option Bytes) → List Bytes → List Bytes
  | _, [] => []
  | offers, slice :: rest =>
      match if dedupe then offers (ContentDigest.of slice) else none with
      | some data => data :: landed dedupe offers rest
      | none =>
          slice :: landed dedupe
            (Function.update offers (ContentDigest.of slice) (some slice)) rest

theorem landed_eq {dedupe : Bool} {offers : ContentDigest → Option Bytes} {parts : List Bytes}
    (hoffers : ∀ slice ∈ parts, ∀ data, offers (ContentDigest.of slice) = some data →
      data = slice)
    (hinj : Set.InjOn ContentDigest.of {slice | slice ∈ parts}) :
    landed dedupe offers parts = parts := by
  induction parts generalizing offers with
  | nil => rfl
  | cons slice rest ih =>
      have hrest : Set.InjOn ContentDigest.of {slice | slice ∈ rest} :=
        hinj.mono fun _ hs => List.mem_cons_of_mem slice hs
      rw [landed]
      split
      · next data hdata =>
          have hoffered : offers (ContentDigest.of slice) = some data := by
            cases dedupe
            · cases hdata
            · exact hdata
          rw [hoffers slice List.mem_cons_self data hoffered,
            ih (fun s hs => hoffers s (List.mem_cons_of_mem slice hs)) hrest]
      · rw [ih (fun s hs data hdata => ?_) hrest]
        by_cases hdigest : ContentDigest.of s = ContentDigest.of slice
        · rw [hdigest, Function.update_self] at hdata
          obtain rfl := Option.some.inj hdata
          exact (hinj (List.mem_cons_of_mem _ hs) List.mem_cons_self hdigest).symm
        · rw [Function.update_of_ne hdigest] at hdata
          exact hoffers s (List.mem_cons_of_mem slice hs) data hdata

theorem offered_store {f : Fabric β} (hindexed : Indexed f) {k : StorageBackendId}
    {slice : Bytes} {n : UInt64}
    (hput : (f.allocBlobId.2.putOn k slice (blobKey ⟨f.blobCounter⟩)).1 = .ok n) :
    ((f.allocBlobId.2.putOn k slice (blobKey ⟨f.blobCounter⟩)).2.recordBlob ⟨f.blobCounter⟩
        slice).offered k =
      Function.update (f.offered k) (ContentDigest.of slice) (some slice) := by
  have hstored : ∀ b, ((f.allocBlobId.2.putOn k slice (blobKey ⟨f.blobCounter⟩)).2.recordBlob
      ⟨f.blobCounter⟩ slice).stored k (blobKey b) =
        if blobKey b = blobKey ⟨f.blobCounter⟩ then some slice else f.stored k (blobKey b) := by
    intro b
    have h := stored_putOn_ok hput k (blobKey b)
    simp only [true_and] at h
    exact h
  have hindex : ((f.allocBlobId.2.putOn k slice (blobKey ⟨f.blobCounter⟩)).2.recordBlob
      ⟨f.blobCounter⟩ slice).blobByDigest =
        f.blobByDigest.insert (ContentDigest.of slice) ⟨f.blobCounter⟩ := by
    show AList.insert _ _ _ = _
    rw [blobByDigest_putOn]
    rfl
  funext d
  rw [offered, hindex, AList.lookup_insert_eq]
  by_cases hd : d = ContentDigest.of slice
  · rw [if_pos hd, hd, Function.update_self, Option.map_some, hstored, if_pos rfl]
    rfl
  · rw [if_neg hd, Function.update_of_ne hd, offered]
    cases hb : f.blobByDigest.lookup d with
    | none => rfl
    | some b =>
        -- an older entry names a blob that was drawn before
        have hne : blobKey b ≠ blobKey ⟨f.blobCounter⟩ := by
          intro heq
          have hlt := hindexed d b hb
          rw [blobKey_injective heq] at hlt
          exact Nat.lt_irrefl _ hlt
        rw [Option.map_some, Option.map_some, hstored, if_neg hne]

theorem offered_chunkStep {k : StorageBackendId} {dedupe : Bool} {offset : Nat} {slice : Bytes}
    {f g : Fabric β} {c : ChunkDescriptor} (hindexed : Indexed f)
    (h : chunkStep k dedupe offset slice f = (.ok c, g)) :
    c.blob.value < g.blobCounter ∧
      match if dedupe then f.offered k (ContentDigest.of slice) else none with
      | some data => (g.stored k (blobKey c.blob)).getD [] = data ∧ g.offered k = f.offered k
      | none => g.stored k (blobKey c.blob) = some slice ∧
          g.offered k = Function.update (f.offered k) (ContentDigest.of slice) (some slice) := by
  have hnext := hindexed.chunkStep k dedupe offset slice
  rw [h] at hnext
  obtain ⟨b, rfl, hb, rfl, rfl⟩ | ⟨n, hput, rfl, rfl⟩ := chunkStep_ok h
  · have hoffered : f.offered k (ContentDigest.of slice) =
        some ((f.stored k (blobKey b)).getD []) := by
      rw [offered, hb, Option.map_some]
    rw [if_pos rfl, hoffered]
    exact ⟨hindexed _ b hb, rfl, rfl⟩
  · have hmiss : (if dedupe then f.offered k (ContentDigest.of slice) else none) = none := by
      cases dedupe
      · rfl
      · cases hhit : f.blobByDigest.lookup (ContentDigest.of slice) with
        | none => simp [offered, hhit]
        | some b =>
            -- an offered blob would have been taken
            rw [chunkStep_reuse hhit] at h
            obtain rfl : b = ⟨f.blobCounter⟩ :=
              congrArg ChunkDescriptor.blob (Except.ok.inj (congrArg Prod.fst h))
            exact absurd (hindexed _ _ hhit) (Nat.lt_irrefl _)
    have hstored := stored_putOn_ok hput k (blobKey ⟨f.blobCounter⟩)
    rw [if_pos ⟨rfl, rfl⟩] at hstored
    rw [hmiss]
    exact ⟨hnext (ContentDigest.of slice) _ (AList.lookup_insert _), hstored,
      offered_store hindexed hput⟩

/-- When the chunk loop is done, its blobs hold what its slices end up as. -/
theorem landed_chunkLoop {k : StorageBackendId} {dedupe : Bool} {chunk turns offset : Nat}
    {rest : Bytes} {f g : Fabric β} {cs : List ChunkDescriptor} (hindexed : Indexed f)
    (hk : k ∈ f.backends) (h : chunkLoop k dedupe chunk turns offset rest f = (.ok cs, g)) :
    cs.map (fun c => (g.stored k (blobKey c.blob)).getD []) =
      landed dedupe (f.offered k) (slices chunk turns rest) := by
  have hloop := chunkLoop_ok_induction (Q := fun _ parts f cs g => Indexed f → k ∈ f.backends →
    Grows f g ∧ cs.map (fun c => (g.stored k (blobKey c.blob)).getD []) =
      landed dedupe (f.offered k) parts) (fun _ f _ _ => ⟨.refl f, rfl⟩) ?_ h
  · exact (hloop hindexed hk).2
  · intro offset slice parts f c m cs g hturn ih hindexed hk
    have hnext := hindexed.chunkStep k dedupe offset slice
    have hgrows := grows_chunkStep k dedupe offset slice f
    rw [hturn] at hnext hgrows
    have hm : k ∈ m.backends := hgrows.backends k hk
    obtain ⟨hlater, htail⟩ := ih hnext hm
    obtain ⟨hdrawn, hoffers⟩ := offered_chunkStep hindexed hturn
    refine ⟨hgrows.trans hlater, ?_⟩
    -- the rest of the loop writes under new keys
    rw [landed, List.map_cons, htail, hlater.stored k hm c.blob hdrawn]
    split at hoffers
    · rw [hoffers.1, hoffers.2]
    · rw [hoffers.1, hoffers.2]
      rfl

/-! ### Verification after a publication -/

theorem verifyRead_of_verified {f : Fabric β} {k : StorageBackendId} {be : β}
    (hbe : f.backends.lookup k = some be) {cs : List ChunkDescriptor}
    (h : f.verifyChunks k cs = .ok ()) :
    verifyRead be cs =
      .ok (cs.map fun c => (f.stored k (blobKey c.blob)).getD []).flatten := by
  induction cs with
  | nil => rfl
  | cons c cs ih =>
      simp only [verifyChunks, getBackend, hbe] at h
      cases hread : StorageBackend.read be (blobKey c.blob) with
      | error s => simp [hread, Result.fail] at h
      | ok data =>
          by_cases hdigest : ContentDigest.of data = c.digest
          · simp only [hread, hdigest, ne_eq, not_true_eq_false, if_false] at h
            have hstored : f.stored k (blobKey c.blob) = some data := by
              rw [stored, hbe]
              exact KeyValueBackend.read_ok hread
            rw [verifyRead, hread, List.map_cons, hstored]
            simp only [ih h, List.flatten_cons, Option.getD_some]
          · simp [hread, hdigest, Result.fail] at h

/-- The content that a publication leaves on its backend. -/
def landedContent (f : Fabric β) (c : Call) : Bytes :=
  (landed c.opts.dedupe (f.offered c.backend) c.slices).flatten

/-- What lands is the content, if that and what the index offers for it have no two different
parts with one digest. -/
theorem landedContent_eq {f : Fabric β} {c : Call}
    (hsize : c.content.length = c.obj.logicalSize.toNat)
    (hoffers : ∀ slice ∈ c.slices, ∀ data,
      f.offered c.backend (ContentDigest.of slice) = some data → data = slice)
    (hinj : Set.InjOn ContentDigest.of {slice | slice ∈ c.slices}) :
    f.landedContent c = c.content := by
  rw [landedContent, landed_eq hoffers hinj, Call.flatten_slices hsize]

def Verifies (f : Fabric β) (id : PlacementId) : Prop :=
  ∃ v, (f.verify id).1 = .ok v ∧ v.ok = true

theorem Published.verify {f start g f' : Fabric β} {c : Call} {res : Reservation}
    {ledger : ReservationLedger} {chunks : List ChunkDescriptor} {desc : BackendDescriptor}
    {t : StorageTier} (h : Published f c res ledger chunks desc t g f')
    (hstart : Started f c res ledger start (.ok chunks) g) (hindexed : Indexed f)
    (heager : c.opts.eagerVerify = true) :
    Verifies f' ⟨f.placementCounter⟩ ↔ ContentDigest.of (f.landedContent c) = c.obj.digest := by
  have hbackend : c.backend ∈ f.backends := backend_of_accepts hstart.accepted
  have hbackends : f'.backends = g.backends := congrArg BlobView.backends h.blobs
  obtain ⟨be, hbe⟩ := AList.mem_iff_lookup.mp (hstart.grows.backends _ hbackend)
  -- the loop began with the index and the backends of the state before
  have hstartIndex : start.offered c.backend = f.offered c.backend := by
    obtain ⟨hsame, hindex, -, -, -, -⟩ := BlobView.mk.inj hstart.blobs
    funext d
    simp only [offered, stored, hindex, hsame]
  have hstartBackends : start.backends = f.backends := congrArg BlobView.backends hstart.blobs
  have hlanded := landed_chunkLoop (hstart.indexed_start hindexed) (hstartBackends ▸ hbackend)
    hstart.loop
  rw [hstartIndex] at hlanded
  have hlanded' : (chunks.map fun ch => (g.stored c.backend (blobKey ch.blob)).getD []).flatten =
      f.landedContent c := congrArg List.flatten hlanded
  have hread := verifyRead_of_verified hbe (h.verified heager)
  rw [hlanded'] at hread
  have hplacements : f'.placements =
      f.placements.insert ⟨f.placementCounter⟩ (f.placementOf c desc t) :=
    congrArg CatalogView.placements h.catalog
  have hmanifests : f'.manifests =
      f.manifests.insert ⟨f.manifestCounter⟩ (f.manifestOf c chunks) :=
    congrArg ManifestView.manifests h.manifests
  have hlookup : f'.lookupForRead default (some ⟨f.placementCounter⟩) =
      .ok (f.placementOf c desc t, f.manifestOf c chunks) := by
    have hmanifest : f'.manifests.lookup (f.placementOf c desc t).manifest =
        some (f.manifestOf c chunks) := by
      rw [hmanifests]
      exact AList.lookup_insert _
    simp only [lookupForRead, hplacements, AList.lookup_insert, hmanifest]
  have hget : f'.getBackend (f.placementOf c desc t).backend = .ok be := by
    have hk : (f.placementOf c desc t).backend = c.backend := rfl
    rw [hk, getBackend, hbackends, hbe]
  have hdigest : (f.placementOf c desc t).digest = c.obj.digest := rfl
  have hsize : c.content.length = c.obj.logicalSize.toNat := size_of_accepts hstart.accepted
  have hreserve : reserveOut (f.manifestOf c chunks) = .ok () := by
    refine reserveOut_of_stored ?_
    rw [chunks_manifestOf hstart, chunkBytes_of_lengths hstart.lengths,
      Call.flatten_slices hsize, hsize]
    rfl
  rw [Verifies, Fabric.verify, hlookup]
  simp only [hget, hreserve, chunks_manifestOf hstart, hread, hdigest]
  by_cases heq : ContentDigest.of (f.landedContent c) = c.obj.digest
  · simp [heq]
  · simp [heq]

/-- In every state that a process can get to, with whatever files: the placement of
an eager publication verifies exactly if the bytes that its slices ended up as have
the digest that the descriptor gives. -/
theorem eager_publication_verifies_iff (ops : List (HostOp β)) (c : Call)
    (heager : c.opts.eagerVerify = true) {p : PlacementRecord}
    (hpublished : ((Runs.run Host.step {} ops).fabric.publishCall c).1 = .ok p) :
    Verifies ((Runs.run Host.step {} ops).fabric.publishCall c).2 p.id ↔
      ContentDigest.of ((Runs.run Host.step {} ops).fabric.landedContent c) = c.obj.digest := by
  have hindexed : Indexed (Runs.run Host.step {} ops).fabric := indexed_host
  generalize (Runs.run Host.step {} ops).fabric = f at hindexed hpublished
  have hout := publishCall_outcome f c
  rw [hpublished] at hout
  generalize (f.publishCall c).2 = f' at hout ⊢
  cases hout with
  | published res ledger start chunks desc t g f' hstart hpub =>
      exact hpub.verify hstart hindexed heager

end Contents

/-- The object with its own content verifies. -/
theorem eager_publication_verifies_small :
    ∃ p, ((Runs.run Host.step {} (Small.opening.map .exec)).fabric.publishCall
        ⟨Small.object, [7], ⟨1⟩, {}⟩).1 = .ok p ∧
      Verifies ((Runs.run Host.step {} (Small.opening.map .exec)).fabric.publishCall
        ⟨Small.object, [7], ⟨1⟩, {}⟩).2 p.id := by
  have hrun : ((Runs.run Host.step {} (Small.opening.map .exec)).fabric.publishCall
        ⟨Small.object, [7], ⟨1⟩, {}⟩).1.toOption.isSome = true ∧
      ContentDigest.of ((Runs.run Host.step {} (Small.opening.map .exec)).fabric.landedContent
        ⟨Small.object, [7], ⟨1⟩, {}⟩) = Small.object.digest := by
    decide +kernel
  obtain ⟨hsome, hdigest⟩ := hrun
  cases hp : ((Runs.run Host.step {} (Small.opening.map .exec)).fabric.publishCall
      ⟨Small.object, [7], ⟨1⟩, {}⟩).1 with
  | error s =>
      rw [hp] at hsome
      cases hsome
  | ok p =>
      exact ⟨p, rfl, (eager_publication_verifies_iff (Small.opening.map .exec) _ rfl hp).mpr
        hdigest⟩

/-- Other content of the same length is published under the same descriptor, and does
not verify. -/
theorem eager_publication_fails :
    ¬∀ p, ((Runs.run Host.step {} (Small.opening.map .exec)).fabric.publishCall
        ⟨Small.object, [8], ⟨1⟩, {}⟩).1 = .ok p →
      Verifies ((Runs.run Host.step {} (Small.opening.map .exec)).fabric.publishCall
        ⟨Small.object, [8], ⟨1⟩, {}⟩).2 p.id := by
  intro h
  generalize hout : (Runs.run Host.step {} (Small.opening.map .exec)).fabric.publishCall
    ⟨Small.object, [8], ⟨1⟩, {}⟩ = out at h
  have hrun : (out.1.toOption.map fun p => p.id) = some ⟨1⟩ ∧
      ((out.2.verify ⟨1⟩).1.toOption.map fun v => v.ok) = some false := by
    rw [← hout]
    decide +kernel
  obtain ⟨hpublished, hrefuted⟩ := hrun
  obtain ⟨p, hp, hid⟩ := Option.map_eq_some_iff.mp hpublished
  have hok : out.1 = .ok p := by
    cases hr : out.1 with
    | error s =>
        rw [hr] at hp
        cases hp
    | ok q =>
        rw [hr] at hp
        cases hp
        rfl
  obtain ⟨v, hv, htrue⟩ := h p hok
  rw [hid] at hv
  rw [hv] at hrefuted
  have hfalse : v.ok = false := Option.some.inj hrefuted
  rw [htrue] at hfalse
  cases hfalse

end Fabric

end StorageFabric
