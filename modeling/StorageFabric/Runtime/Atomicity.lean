import StorageFabric.Runtime.Outcome
import StorageFabric.Lib.Runs

/-!
How far a failing publication leaves the store untouched.

The guard gives the reservation back, but nothing undoes the chunk loop, the
manifest or the counters. So a failure is without effect exactly when it is a
refusal, before the reservation.
-/

namespace StorageFabric

namespace Fabric

variable {β : Type}

/-- The maps of the store and the accounting, stale rejections apart, are the
same. -/
structure SameStore (f f' : Fabric β) : Prop where
  catalog : f'.catalog = f.catalog
  placements : f'.placements = f.placements
  manifests : f'.manifests = f.manifests
  blobByDigest : f'.blobByDigest = f.blobByDigest
  blobRefs : f'.blobRefs = f.blobRefs
  accounting : f'.accounting =
    { f.accounting with staleRejections := f'.accounting.staleRejections }

/-- An aborted publication leaves a counter of the reservation off by one. -/
theorem Aborted.not_sameStore [StorageBackend β] {f start g f' : Fabric β} {c : Call}
    {res : Reservation} {ledger : ReservationLedger} {rc : Result (List ChunkDescriptor)}
    (hstart : Started f c res ledger start rc g) (h : Aborted f c res ledger rc g f') : ¬SameStore f f' := by
  intro hsame
  have hne : ∀ x : UInt64, x ≠ x + 1 := by
    intro x hx
    have := congrArg UInt64.toNat hx
    rw [UInt64.toNat_add] at this
    have hlt := x.toNat_lt
    have hone : (1 : UInt64).toNat = 1 := rfl
    omega
  have hloop := book_chunkLoop c.backend c.opts.dedupe (chunkLength c.obj c.opts)
    c.content.length 0 c.content start
  rw [hstart.loop, book, book, hstart.accounting] at hloop
  obtain ⟨-, -, hreserved, hcommitted⟩ := Book.mk.inj hloop
  rcases h.accounting with hacc | hacc
  · have hkeep : f'.accounting.reservedBytes = f.accounting.reservedBytes := by
      rw [hsame.accounting]
    exact hne _ (hkeep.symm.trans (hacc.trans hreserved))
  · have hkeep : f'.accounting.committedBytes = f.accounting.committedBytes := by
      rw [hsame.accounting]
    exact hne _ (hkeep.symm.trans (hacc.trans (congrArg (· + 1) hcommitted)))

/-- A failing publication leaves the store as it was exactly when it was refused
before it reserved anything. -/
theorem publishTo_atomic_iff [StorageBackend β] (f : Fabric β) (obj : ObjectDescriptor)
    (content : Bytes) (backend : StorageBackendId) (opts : PublishOptions) (s : Status)
    (h : (f.publishTo obj content backend opts).1 = .error s) :
    SameStore f (f.publishTo obj content backend opts).2 ↔
      f.Refuses ⟨obj, content, backend, opts⟩ := by
  have hout := publishCall_outcome f ⟨obj, content, backend, opts⟩
  change Outcome f ⟨obj, content, backend, opts⟩ (f.publishTo obj content backend opts).1
    (f.publishTo obj content backend opts).2 at hout
  rw [h] at hout
  generalize (f.publishTo obj content backend opts).2 = f' at hout
  cases hout with
  | refused s ledger stale hrefuse => exact ⟨fun _ => hrefuse, fun _ => ⟨rfl, rfl, rfl, rfl, rfl, rfl⟩⟩
  | aborted s res ledger start rc g f' hstart habort =>
      exact ⟨fun hsame => absurd hsame (habort.not_sameStore hstart),
        fun hrefuse => absurd hrefuse hstart.accepted⟩

/-! ### A publication that fails at its second chunk -/

/-- A backend with room for one byte that reports room for a thousand. -/
def tightProfile : SyntheticProfile := { totalBytes := 1, freeBytes := 1000 }

def tightObject : ObjectDescriptor :=
  describeObject ⟨1⟩ (.known .genericAiState) 2 [7, 8] {} {} (.known .normal) default

def tightOps : List (Op SyntheticBackend) :=
  [.registerSyntheticBackend (ascii "tight") tightProfile { profile := tightProfile },
    .setAuthority { epoch := ⟨1⟩ },
    .defineObject (.known .genericAiState) 2 [7, 8] {} {} (.known .normal)]

/-- The first chunk is stored, the second is not, and the reference taken for
the first stays. -/
theorem publishTo_not_atomic :
    let f := Runs.run exec ({} : Fabric SyntheticBackend) tightOps
    let out := f.publishTo tightObject [7, 8] ⟨1⟩ { chunkSize := 1 }
    out.1 = Result.fail .insufficientCapacity "synthetic capacity exhausted" ∧
      ¬SameStore f out.2 := by
  refine ⟨by decide +kernel, fun hsame => ?_⟩
  have hrefs := congrArg (AList.lookup ⟨1⟩) hsame.blobRefs
  revert hrefs
  decide +kernel

/-- That publication is not refused; one to a backend that is not registered is, and leaves
the store as it was. -/
theorem publishTo_atomic_iff_tight :
    let f := Runs.run exec ({} : Fabric SyntheticBackend) tightOps
    (SameStore f (f.publishTo tightObject [7, 8] ⟨1⟩ { chunkSize := 1 }).2 ↔
      f.Refuses ⟨tightObject, [7, 8], ⟨1⟩, { chunkSize := 1 }⟩) ∧
    f.Refuses ⟨tightObject, [7, 8], ⟨2⟩, {}⟩ ∧
      SameStore f (f.publishTo tightObject [7, 8] ⟨2⟩ {}).2 := by
  intro f
  have hrefuses : f.Refuses ⟨tightObject, [7, 8], ⟨2⟩, {}⟩ := by decide +kernel
  refine ⟨publishTo_atomic_iff f tightObject [7, 8] ⟨1⟩ { chunkSize := 1 }
    (Status.of .insufficientCapacity "synthetic capacity exhausted") (by decide +kernel),
    hrefuses, ?_⟩
  exact (publishTo_atomic_iff f tightObject [7, 8] ⟨2⟩ {}
    (Status.of .notFound "backend not registered") (by decide +kernel)).mpr hrefuses

end Fabric

end StorageFabric
