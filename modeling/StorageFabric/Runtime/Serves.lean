import Mathlib.Data.Set.Function
import StorageFabric.Lib.Runs
import StorageFabric.Runtime.Slices

/-!
What a placement serves: a manifest whose chunks describe, slice by slice, the
content it was published with, over blobs whose bytes agree with the slices.

How far they agree is a parameter `R` of the bytes found under a blob's key and
of the slice: `Compatible` forbids wrong bytes of the right length, `Present`
asks for the slice itself.
-/

namespace StorageFabric

open StorageBackend

namespace Fabric

variable {β : Type} [KeyValueBackend β]

/-- What is there, if it has the length of the slice, is the slice. -/
def Compatible (found : Option Bytes) (slice : Bytes) : Prop :=
  ∀ data, found = some data → data.length = slice.length → data = slice

/-- The slice is there. -/
def Present (found : Option Bytes) (slice : Bytes) : Prop := found = some slice

theorem Present.compatible {found : Option Bytes} {slice : Bytes} (h : Present found slice) :
    Compatible found slice := by
  intro data hdata _
  rw [h] at hdata
  exact (Option.some.inj hdata).symm

theorem compatible_none (slice : Bytes) : Compatible none slice := by
  intro data hdata
  cases hdata

/-- All bytes under blob keys are in `S`. -/
def Pool (S : Set Bytes) (f : Fabric β) : Prop :=
  ∀ k b data, f.stored k (blobKey b) = some data → data ∈ S

/-! ### What the chunk loop stores -/

theorem Pool.chunkStep {S : Set Bytes} {f : Fabric β} (h : Pool S f) (backend : StorageBackendId)
    (dedupe : Bool) (offset : Nat) {slice : Bytes} (hslice : slice ∈ S) :
    Pool S (chunkStep backend dedupe offset slice f).2 := by
  have hdrawn : Pool S f.allocBlobId.2 := h
  intro k b data hdata
  rcases chunkStep_cases backend dedupe offset slice f with
    ⟨_, _, _, heq⟩ | ⟨s, hput, heq⟩ | ⟨n, hput, heq⟩
  · rw [heq] at hdata
    exact h k b data hdata
  · rw [heq] at hdata
    rw [stored_putOn_error hput] at hdata
    exact hdrawn k b data hdata
  · rw [heq] at hdata
    have hdata' : (f.allocBlobId.2.putOn backend slice (blobKey ⟨f.blobCounter⟩)).2.stored k
        (blobKey b) = some data := hdata
    rw [stored_putOn_ok hput] at hdata'
    split at hdata'
    · cases hdata'
      exact hslice
    · exact hdrawn k b data hdata'

theorem Pool.chunkLoop {S : Set Bytes} {f : Fabric β} (h : Pool S f) (backend : StorageBackendId)
    (dedupe : Bool) {chunk turns : Nat} (offset : Nat) {rest : Bytes}
    (hslices : ∀ slice ∈ slices chunk turns rest, slice ∈ S) :
    Pool S (chunkLoop backend dedupe chunk turns offset rest f).2 := by
  refine chunkLoop_induction backend dedupe (Q := fun _ parts f _ g =>
    Pool S f → (∀ slice ∈ parts, slice ∈ S) → Pool S g) ?_ ?_ ?_ chunk turns offset rest f h hslices
  · exact fun _ _ hf _ => hf
  · intro offset slice parts f s g hstep hf hparts
    have hnext := hf.chunkStep backend dedupe offset (hparts _ List.mem_cons_self)
    rwa [hstep] at hnext
  · intro offset slice parts f c k rc g hstep ih hf hparts
    have hnext := hf.chunkStep backend dedupe offset (hparts _ List.mem_cons_self)
    rw [hstep] at hnext
    exact ih hnext fun slice hs => hparts slice (List.mem_cons_of_mem _ hs)

theorem drawn_chunkLoop {backend : StorageBackendId} {dedupe : Bool} {chunk turns offset : Nat}
    {rest : Bytes} {f g : Fabric β} {cs : List ChunkDescriptor} (hf : Indexed f)
    (h : chunkLoop backend dedupe chunk turns offset rest f = (.ok cs, g)) :
    ∀ c ∈ cs, c.blob.value < g.blobCounter := by
  refine chunkLoop_forall (I := Indexed) (Q := fun g c => c.blob.value < g.blobCounter) ?_ hf h
  intro offset slice f c g hindexed hturn
  have hnext := hindexed.chunkStep backend dedupe offset slice
  have hlater := (grows_chunkStep backend dedupe offset slice f).later
  rw [hturn] at hnext hlater
  refine ⟨hnext, ?_, fun c' hlt => Nat.lt_of_lt_of_le hlt hlater.counter⟩
  obtain ⟨b, -, hb, rfl, rfl⟩ | ⟨n, -, rfl, rfl⟩ := chunkStep_ok hturn
  · exact hindexed _ b hb
  · exact hnext (ContentDigest.of slice) _ (AList.lookup_insert _)

/-- Blobs that the dedup index offers for the slices in `P` hold nothing wrong
on the backend `k`. -/
def Vouched (P : Bytes → Prop) (k : StorageBackendId) (f : Fabric β) : Prop :=
  ∀ slice, P slice → ∀ b, f.blobByDigest.lookup (ContentDigest.of slice) = some b →
    Compatible (f.stored k (blobKey b)) slice

theorem Later.compatible {f g : Fabric β} (h : Later f g) {k : StorageBackendId}
    (hk : k ∈ f.backends) {b : BlobId} (hb : b.value < f.blobCounter) {slice : Bytes}
    (hf : Compatible (f.stored k (blobKey b)) slice) :
    Compatible (g.stored k (blobKey b)) slice := by
  rcases h.stored k hk b hb with heq | hnone
  · rw [heq]
    exact hf
  · rw [hnone]
    exact compatible_none slice

/-- What the blobs offered by the dedup index for the slices in `P` hold on the
backend `k` agrees with the slices as `R` says. -/
def Offers (R : Option Bytes → Bytes → Prop) (P : Bytes → Prop) (k : StorageBackendId)
    (f : Fabric β) : Prop :=
  ∀ slice, P slice → ∀ b, f.blobByDigest.lookup (ContentDigest.of slice) = some b →
    R (f.stored k (blobKey b)) slice

/-- The chunks of a loop hold what `R` says, as long as the index offered that
for its slices when it began. -/
theorem holds_chunkLoop {R : Option Bytes → Bytes → Prop} (hR : ∀ slice, R (some slice) slice)
    {backend : StorageBackendId} {dedupe : Bool} {chunk turns offset : Nat} {rest : Bytes}
    {f g : Fabric β} {cs : List ChunkDescriptor}
    (hinj : dedupe = true → Set.InjOn ContentDigest.of {slice | slice ∈ slices chunk turns rest})
    (hindexed : Indexed f) (hbackend : backend ∈ f.backends)
    (hoffers : dedupe = true → Offers R (· ∈ slices chunk turns rest) backend f)
    (h : chunkLoop backend dedupe chunk turns offset rest f = (.ok cs, g)) :
    List.Forall₂ (fun c slice => R (g.stored backend (blobKey c.blob)) slice) cs
      (slices chunk turns rest) := by
  let P : Bytes → Prop := (· ∈ slices chunk turns rest)
  let I : Fabric β → Prop := fun f =>
    Indexed f ∧ backend ∈ f.backends ∧ (dedupe = true → Offers R P backend f)
  let Q : Fabric β → ChunkDescriptor → Bytes → Prop := fun f c slice =>
    backend ∈ f.backends ∧ c.blob.value < f.blobCounter ∧
      R (f.stored backend (blobKey c.blob)) slice
  have hloop := chunkLoop_forall₂ (I := I) (Q := Q) (P := P) ?_ (fun _ hs => hs)
    ⟨hindexed, hbackend, hoffers⟩ h
  · exact hloop.2.1.imp fun _ _ hq => hq.2.2
  · intro offset slice f c g hslice hI hturn
    obtain ⟨hindexed, hbackend, hoffers⟩ := hI
    have hnext := hindexed.chunkStep backend dedupe offset slice
    have hgrows := grows_chunkStep backend dedupe offset slice f
    rw [hturn] at hnext hgrows
    -- later turns write under keys that were not drawn yet
    have hkeep : ∀ c' s', Q f c' s' → Q g c' s' := by
      rintro c' s' ⟨hk, hlt, hholds⟩
      refine ⟨hgrows.backends _ hk, Nat.lt_of_lt_of_le hlt hgrows.counter, ?_⟩
      rwa [hgrows.stored _ hk _ hlt]
    obtain ⟨b, hdedupe, hb, rfl, rfl⟩ | ⟨n, hput, rfl, rfl⟩ := chunkStep_ok hturn
    · exact ⟨⟨hnext, hbackend, hoffers⟩,
        ⟨hbackend, hindexed _ b hb, hoffers hdedupe slice hslice b hb⟩, hkeep⟩
    · have hnew : R ((f.allocBlobId.2.putOn backend slice (blobKey ⟨f.blobCounter⟩)).2.stored
          backend (blobKey ⟨f.blobCounter⟩)) slice := by
        rw [stored_putOn_ok hput, if_pos ⟨rfl, rfl⟩]
        exact hR slice
      have hmem := hgrows.backends _ hbackend
      refine ⟨⟨hnext, hmem, fun hdedupe s hs b hb => ?_⟩, ⟨hmem, ?_, hnew⟩, hkeep⟩
      · -- the index offers the new blob for the slice it was stored for only
        rcases AList.lookup_insert_eq_some.mp hb with ⟨hdigest, rfl⟩ | ⟨-, hold⟩
        · rw [hinj hdedupe hs hslice hdigest]
          exact hnew
        · have hold' : f.blobByDigest.lookup (ContentDigest.of s) = some b := by
            rwa [blobByDigest_putOn] at hold
          rw [hgrows.stored _ hbackend _ (hindexed _ b hold')]
          exact hoffers hdedupe s hs b hold'
      · exact hnext (ContentDigest.of slice) _ (AList.lookup_insert _)

/-- The chunks of a loop hold nothing wrong, as long as the index offered
nothing wrong for its slices when it began. -/
theorem compatible_chunkLoop {backend : StorageBackendId} {dedupe : Bool}
    {chunk turns offset : Nat} {rest : Bytes} {f g : Fabric β} {cs : List ChunkDescriptor}
    (hinj : Set.InjOn ContentDigest.of {slice | slice ∈ slices chunk turns rest})
    (hindexed : Indexed f) (hbackend : backend ∈ f.backends)
    (hvouched : dedupe = true → Vouched (· ∈ slices chunk turns rest) backend f)
    (h : chunkLoop backend dedupe chunk turns offset rest f = (.ok cs, g)) :
    List.Forall₂ (fun c slice => Compatible (g.stored backend (blobKey c.blob)) slice) cs
      (slices chunk turns rest) :=
  holds_chunkLoop (fun _ => Present.compatible rfl) (fun _ => hinj) hindexed hbackend hvouched h

theorem stored_of_verifyChunks {f : Fabric β} {backend : StorageBackendId}
    {cs : List ChunkDescriptor} (h : f.verifyChunks backend cs = .ok ()) :
    ∀ c ∈ cs, ∃ data, f.stored backend (blobKey c.blob) = some data ∧
      ContentDigest.of data = c.digest := by
  induction cs with
  | nil => exact fun c hc => absurd hc List.not_mem_nil
  | cons c cs ih =>
      rw [verifyChunks, getBackend] at h
      cases hbe : f.backends.lookup backend with
      | none => simp [hbe, Result.fail] at h
      | some be =>
          simp only [hbe] at h
          cases hread : StorageBackend.read be (blobKey c.blob) with
          | error s => simp [hread, Result.fail] at h
          | ok data =>
              by_cases hdigest : ContentDigest.of data = c.digest
              · simp only [hread, hdigest, ne_eq, not_true_eq_false, if_false] at h
                intro c' hc'
                rcases List.mem_cons.mp hc' with rfl | hc'
                · refine ⟨data, ?_, hdigest⟩
                  rw [stored, hbe]
                  exact KeyValueBackend.read_ok hread
                · exact ih h c' hc'
              · simp [hread, hdigest, Result.fail] at h

/-! ### A publication -/

theorem Started.pool {S : Set Bytes} {f start g : Fabric β} {c : Call} {res : Reservation}
    {ledger : ReservationLedger} {rc : Result (List ChunkDescriptor)}
    (h : Started f c res ledger start rc g) (hf : Pool S f) (hslices : ∀ slice ∈ c.slices, slice ∈ S) :
    Pool S g := by
  have hstart : Pool S start := by
    intro k b data hdata
    rw [stored_congr (congrArg BlobView.backends h.blobs)] at hdata
    exact hf k b data hdata
  have hloop := hstart.chunkLoop c.backend c.opts.dedupe 0 hslices
  rwa [h.loop] at hloop

theorem Started.indexed_start {f start g : Fabric β} {c : Call} {res : Reservation}
    {ledger : ReservationLedger} {rc : Result (List ChunkDescriptor)}
    (h : Started f c res ledger start rc g) (hf : Indexed f) : Indexed start := by
  obtain ⟨-, hindex, -, -, -, hcounter⟩ := BlobView.mk.inj h.blobs
  intro d b hb
  rw [hindex] at hb
  rw [hcounter]
  exact hf d b hb

theorem present_of_verified {S : Set Bytes} (hinj : Set.InjOn ContentDigest.of S)
    {f start g f' : Fabric β} {c : Call} {res : Reservation} {ledger : ReservationLedger}
    {chunks : List ChunkDescriptor} {desc : BackendDescriptor} {t : StorageTier}
    (hpool : Pool S f) (hslices : ∀ slice ∈ c.slices, slice ∈ S) (heager : c.opts.eagerVerify = true)
    (hstart : Started f c res ledger start (.ok chunks) g)
    (hpub : Published f c res ledger chunks desc t g f') :
    List.Forall₂ (fun ch slice => Present (g.stored c.backend (blobKey ch.blob)) slice) chunks
      c.slices := by
  have hfound := stored_of_verifyChunks (hpub.verified heager)
  refine forall₂_imp_of_mem (describes_chunkLoop hstart.loop) fun ch hch slice hslice hdesc => ?_
  obtain ⟨data, hdata, hdigest⟩ := hfound ch hch
  have hmem : data ∈ S := hstart.pool hpool hslices _ _ _ hdata
  have heq : data = slice := hinj hmem (hslices slice hslice) (hdigest.trans hdesc.1)
  rw [Present, hdata, heq]

/-- A placement with the manifest `man`, whose chunks hold the slices `parts` as
far as `R` says. -/
structure Serves (R : Option Bytes → Bytes → Prop) (f : Fabric β) (p : PlacementRecord)
    (man : Manifest) (parts : List Bytes) : Prop where
  manifest : f.manifests.lookup p.manifest = some man
  backend : p.backend ∈ f.backends
  length : parts.flatten.length = man.totalLogicalLength.toNat
  lengths : List.Forall₂ (fun c slice => c.physicalLength.toNat = slice.length) man.chunks parts
  drawn : ∀ c ∈ man.chunks, c.blob.value < f.blobCounter
  holds : List.Forall₂ (fun c slice => R (f.stored p.backend (blobKey c.blob)) slice) man.chunks
    parts

theorem Started.lengths {f start g : Fabric β} {c : Call} {res : Reservation}
    {ledger : ReservationLedger} {chunks : List ChunkDescriptor}
    (h : Started f c res ledger start (.ok chunks) g) :
    List.Forall₂ (fun ch slice => ch.physicalLength.toNat = slice.length) chunks c.slices := by
  have hsize : c.content.length = c.obj.logicalSize.toNat := size_of_accepts h.accepted
  refine forall₂_imp_of_mem (describes_chunkLoop h.loop) fun ch _ slice hslice hdesc => ?_
  have hle : slice.length ≤ c.content.length := by
    rw [← Call.flatten_slices hsize]
    exact (List.sublist_flatten_of_mem hslice).length_le
  have hlt := c.obj.logicalSize.toNat_lt
  rw [hdesc.2, UInt64.toNat_ofNat']
  omega

/-- What a publication commits serves its content. -/
theorem serves_published {R : Option Bytes → Bytes → Prop} {f start g f' : Fabric β} {c : Call}
    {res : Reservation} {ledger : ReservationLedger} {chunks : List ChunkDescriptor}
    {desc : BackendDescriptor} {t : StorageTier} (hindexed : Indexed f)
    (hstart : Started f c res ledger start (.ok chunks) g)
    (hpub : Published f c res ledger chunks desc t g f')
    (hR : List.Forall₂ (fun ch slice => R (g.stored c.backend (blobKey ch.blob)) slice) chunks
      c.slices) :
    Serves R f' (f.placementOf c desc t) (f.manifestOf c chunks) c.slices := by
  have hsize : c.content.length = c.obj.logicalSize.toNat := size_of_accepts hstart.accepted
  have hbackend : c.backend ∈ f.backends := backend_of_accepts hstart.accepted
  have hflatten : c.slices.flatten = c.content := Call.flatten_slices hsize
  -- what follows the chunk loop touches no backend
  obtain ⟨hbackends, -, -, -, -, hcounter⟩ := BlobView.mk.inj hpub.blobs
  have hdrawn := drawn_chunkLoop (hstart.indexed_start hindexed) hstart.loop
  have hchunks := chunks_manifestOf hstart
  constructor
  · have hmanifests := congrArg ManifestView.manifests hpub.manifests
    have hlookup : f'.manifests.lookup ⟨f.manifestCounter⟩ = some (f.manifestOf c chunks) := by
      rw [show f'.manifests = _ from hmanifests]
      exact AList.lookup_insert _
    exact hlookup
  · have hmem := hstart.grows.backends _ hbackend
    rw [show f'.backends = g.backends from hbackends]
    exact hmem
  · rw [hflatten, hsize]
    rfl
  · rw [hchunks]
    exact hstart.lengths
  · rw [hchunks]
    intro ch hch
    rw [show f'.blobCounter = g.blobCounter from hcounter]
    exact hdrawn ch hch
  · rw [hchunks]
    exact hR.imp fun ch slice hr => by rwa [stored_congr hbackends]

theorem Serves.mono {R : Option Bytes → Bytes → Prop} {f g : Fabric β} {p q : PlacementRecord}
    {man : Manifest} {parts : List Bytes} (h : Serves R f p man parts)
    (hmanifest : q.manifest = p.manifest) (hbackend : q.backend = p.backend)
    (hkeep : g.manifests.lookup p.manifest = f.manifests.lookup p.manifest) (hlater : Later f g)
    (hR : ∀ c ∈ man.chunks, ∀ slice, c.blob.value < f.blobCounter →
      R (f.stored p.backend (blobKey c.blob)) slice →
        R (g.stored p.backend (blobKey c.blob)) slice) : Serves R g q man parts where
  manifest := by rw [hmanifest, hkeep, h.manifest]
  backend := hbackend ▸ hlater.backends _ h.backend
  length := h.length
  lengths := h.lengths
  drawn c hc := Nat.lt_of_lt_of_le (h.drawn c hc) hlater.counter
  holds := by
    rw [hbackend]
    exact forall₂_imp_of_mem h.holds fun c hc slice _ hr => hR c hc slice (h.drawn c hc) hr

/-! ### Reading -/

/-- A read that finds nothing wrong anywhere returns the content, whenever each
of its chunks was read. -/
theorem readChunks_of_compatible {reads : List (β × ChunkDescriptor)} {parts : List Bytes}
    {out : Bytes}
    (hlengths : List.Forall₂ (fun r slice => r.2.physicalLength.toNat = slice.length) reads parts)
    (hparts : List.Forall₂ (fun r slice =>
      Compatible (KeyValueBackend.view r.1 (blobKey r.2.blob)) slice) reads parts)
    (h : readChunks reads = .ok out) : out = parts.flatten := by
  induction hlengths generalizing out with
  | nil =>
      cases h
      rfl
  | @cons r slice reads parts hlength hlengths ih =>
      obtain ⟨be, c⟩ := r
      rw [readChunks] at h
      cases hread : StorageBackend.read be (blobKey c.blob) with
      | error s => simp [hread, Result.fail] at h
      | ok chunk =>
          by_cases hsize : chunk.length = c.physicalLength.toNat
          · cases hrest : readChunks reads with
            | error s => simp [hread, hsize, hrest] at h
            | ok tail =>
                obtain ⟨hfirst, hothers⟩ := List.forall₂_cons.mp hparts
                have hchunk : chunk = slice :=
                  hfirst chunk (KeyValueBackend.read_ok hread) (hsize.trans hlength)
                have hout : chunk ++ tail = out := by simpa [hread, hsize, hrest] using h
                rw [← hout, hchunk, ih hothers hrest, List.flatten_cons]
          · simp [hread, hsize, Result.fail] at h

theorem readChunks_of_present {be : β} (hreadable : KeyValueBackend.Readable be)
    {chunks : List ChunkDescriptor} {parts : List Bytes}
    (hlengths : List.Forall₂ (fun c slice => c.physicalLength.toNat = slice.length) chunks parts)
    (hparts : List.Forall₂ (fun c slice =>
      Present (KeyValueBackend.view be (blobKey c.blob)) slice) chunks parts) :
    readChunks (chunks.map fun c => (be, c)) = .ok parts.flatten := by
  induction hlengths with
  | nil => rfl
  | @cons c slice chunks parts hlength hlengths ih =>
      obtain ⟨hfirst, hothers⟩ := List.forall₂_cons.mp hparts
      have hread := hreadable (blobKey c.blob) slice hfirst
      rw [List.map_cons, readChunks, hread]
      simp only [hlength, ne_eq, not_true_eq_false, if_false, ih hothers, List.flatten_cons]

end Fabric

end StorageFabric
