import StorageFabric.Runtime.Counters
import StorageFabric.Runtime.Slices

/-!
How often a chunk has been published, and what `is_consistent` makes of it.

The dedup index never forgets. So a chunk is found in it exactly if a chunk with
its digest was published before, and the two counters that `is_consistent` compares
are the bytes of the chunks that repeat an earlier one and those of the others.
-/

namespace StorageFabric

def AccountingTotals.isConsistent (a : AccountingTotals) : Bool :=
  decide (a.deduplicatedBytes ≤ a.physicalBytes)

/-- A chunk that a publication got through, with the option it was published with. -/
structure PublishedChunk where
  dedupe : Bool
  slice : Bytes

/-- A history is a list of chunks, the last one published first. The chunk repeats one
of the history. -/
def PublishedChunk.Repeats (p : PublishedChunk) (earlier : List PublishedChunk) : Prop :=
  p.dedupe = true ∧ ContentDigest.of p.slice ∈ earlier.map fun q => ContentDigest.of q.slice

instance (p : PublishedChunk) (earlier : List PublishedChunk) : Decidable (p.Repeats earlier) :=
  inferInstanceAs (Decidable (_ ∧ _))

def repeatedBytes : List PublishedChunk → Nat
  | [] => 0
  | p :: earlier => repeatedBytes earlier + if p.Repeats earlier then p.slice.length else 0

def storedBytes : List PublishedChunk → Nat
  | [] => 0
  | p :: earlier => storedBytes earlier + if p.Repeats earlier then 0 else p.slice.length

namespace Fabric

variable {β : Type}

/-- The index and the two counters are those of the history. -/
structure Tracks (f : Fabric β) (earlier : List PublishedChunk) : Prop where
  index : ∀ d, d ∈ f.blobByDigest ↔ d ∈ earlier.map fun q => ContentDigest.of q.slice
  deduplicated : f.counters.deduplicatedBytes = UInt64.ofNat (repeatedBytes earlier)
  physical : f.counters.physicalBytes = UInt64.ofNat (storedBytes earlier)

theorem tracks_empty : Tracks ({} : Fabric β) [] where
  index d := by simp
  deduplicated := rfl
  physical := rfl

theorem Tracks.congr {f g : Fabric β} {earlier : List PublishedChunk} (h : f.Tracks earlier)
    (hindex : g.blobByDigest = f.blobByDigest)
    (hdeduplicated : g.counters.deduplicatedBytes = f.counters.deduplicatedBytes)
    (hphysical : g.counters.physicalBytes = f.counters.physicalBytes) : g.Tracks earlier :=
  ⟨hindex ▸ h.index, hdeduplicated.trans h.deduplicated, hphysical.trans h.physical⟩

variable [StorageBackend β]

/-- The history after the chunk loop has gone through the slices, as far as it got. -/
def publishedSlices (backend : StorageBackendId) (dedupe : Bool) :
    Nat → List Bytes → Fabric β → List PublishedChunk → List PublishedChunk
  | _, [], _, earlier => earlier
  | offset, slice :: rest, f, earlier =>
      match chunkStep backend dedupe offset slice f with
      | (.error _, _) => earlier
      | (.ok _, g) =>
          publishedSlices backend dedupe (offset + slice.length) rest g (⟨dedupe, slice⟩ :: earlier)

/-- The history after an operation. -/
def publishedBy (f : Fabric β) (op : Op β) (earlier : List PublishedChunk) :
    List PublishedChunk :=
  match f.call op with
  | none => earlier
  | some (c, g) =>
      if g.Refuses c then earlier
      else publishedSlices c.backend c.opts.dedupe 0 c.slices (g.holding c).allocManifestId.2 earlier

def history : Fabric β → List PublishedChunk → List (Op β) → List PublishedChunk
  | _, earlier, [] => earlier
  | f, earlier, op :: ops => history (f.exec op) (f.publishedBy op earlier) ops

theorem Tracks.chunkStep {f g : Fabric β} {earlier : List PublishedChunk} (h : f.Tracks earlier)
    {backend : StorageBackendId} {dedupe : Bool} {offset : Nat} {slice : Bytes}
    {r : Result ChunkDescriptor} (hstep : chunkStep backend dedupe offset slice f = (r, g)) :
    g.Tracks (if r.toOption.isSome then ⟨dedupe, slice⟩ :: earlier else earlier) := by
  by_cases hrepeats : (⟨dedupe, slice⟩ : PublishedChunk).Repeats earlier
  · obtain ⟨blob, hblob⟩ := AList.mem_iff_lookup.mp ((h.index _).mpr hrepeats.2)
    obtain rfl : dedupe = true := hrepeats.1
    rw [chunkStep_reuse hblob] at hstep
    obtain ⟨rfl, rfl⟩ := Prod.mk.inj hstep
    refine ⟨fun d => ?_, ?_, ?_⟩
    · show d ∈ f.blobByDigest ↔ d ∈ ContentDigest.of slice :: _
      rw [h.index, List.mem_cons, iff_or_self]
      rintro rfl
      exact hrepeats.2
    · show f.counters.deduplicatedBytes + UInt64.ofNat slice.length =
        UInt64.ofNat (repeatedBytes earlier + _)
      rw [if_pos hrepeats, UInt64.ofNat_add, h.deduplicated]
    · show f.counters.physicalBytes = UInt64.ofNat (storedBytes earlier + _)
      rw [if_pos hrepeats, Nat.add_zero, h.physical]
  · have hput := h.congr (blobByDigest_putOn f.allocBlobId.2 backend slice (blobKey ⟨f.blobCounter⟩))
      (congrArg Counters.deduplicatedBytes (counters_putOn f.allocBlobId.2 backend slice _))
      (congrArg Counters.physicalBytes (counters_putOn f.allocBlobId.2 backend slice _))
    obtain ⟨blob, hdedupe, hblob, -⟩ | ⟨s, -, heq⟩ | ⟨n, -, heq⟩ :=
      chunkStep_cases backend dedupe offset slice f
    · exact absurd ⟨hdedupe, (h.index _).mp (AList.mem_iff_lookup.mpr ⟨blob, hblob⟩)⟩ hrepeats
    · rw [heq] at hstep
      obtain ⟨rfl, rfl⟩ := Prod.mk.inj hstep
      exact hput
    · rw [heq] at hstep
      obtain ⟨rfl, rfl⟩ := Prod.mk.inj hstep
      generalize (f.allocBlobId.2.putOn backend slice (blobKey ⟨f.blobCounter⟩)).2 = k at hput ⊢
      refine ⟨fun d => ?_, ?_, ?_⟩
      · show d ∈ k.blobByDigest.insert (ContentDigest.of slice) _ ↔
          d ∈ ContentDigest.of slice :: _
        rw [AList.mem_insert, hput.index, List.mem_cons]
      · show k.counters.deduplicatedBytes = UInt64.ofNat (repeatedBytes earlier + _)
        rw [if_neg hrepeats, Nat.add_zero, hput.deduplicated]
      · show k.counters.physicalBytes + UInt64.ofNat slice.length =
          UInt64.ofNat (storedBytes earlier + _)
        rw [if_neg hrepeats, UInt64.ofNat_add, hput.physical]

/-- The loop, whether it ends well or in the middle. -/
theorem Tracks.chunkLoop {f : Fabric β} {earlier : List PublishedChunk} (h : f.Tracks earlier)
    (backend : StorageBackendId) (dedupe : Bool) (chunk turns offset : Nat) (rest : Bytes) :
    (chunkLoop backend dedupe chunk turns offset rest f).2.Tracks
      (publishedSlices backend dedupe offset (slices chunk turns rest) f earlier) := by
  refine chunkLoop_induction backend dedupe (Q := fun offset parts f _ g => ∀ earlier,
    f.Tracks earlier → g.Tracks (publishedSlices backend dedupe offset parts f earlier))
    ?_ ?_ ?_ chunk turns offset rest f earlier h
  · exact fun _ _ _ h => h
  · intro offset slice parts f s g hstep earlier h
    rw [publishedSlices, hstep]
    exact h.chunkStep hstep
  · intro offset slice parts f c k rc g hstep ih earlier h
    rw [publishedSlices, hstep]
    exact ih _ (h.chunkStep hstep)

theorem Tracks.publishCall {f : Fabric β} {earlier : List PublishedChunk} (h : f.Tracks earlier)
    (c : Call) :
    (f.publishCall c).2.Tracks
      (if f.Refuses c then earlier
        else publishedSlices c.backend c.opts.dedupe 0 c.slices (f.holding c).allocManifestId.2
          earlier) := by
  by_cases hrefuses : f.Refuses c
  · rw [if_pos hrefuses]
    obtain ⟨ledger, stale, heq⟩ := publishCall_of_refuses hrefuses
    rw [heq]
    exact h.congr rfl rfl rfl
  · rw [if_neg hrefuses]
    have hheld : (f.holding c).allocManifestId.2.Tracks earlier := h.congr rfl rfl rfl
    have hloop : (f.storeChunks c).2.Tracks _ := hheld.chunkLoop c.backend c.opts.dedupe
      (chunkLength c.obj c.opts) c.content.length 0 c.content
    have hindex := congrArg BlobView.blobByDigest (blobView_of_accepts hrefuses)
    obtain hcounters | hcounters := counters_of_accepts hrefuses
    · refine hloop.congr hindex ?_ ?_
      · rw [hcounters]
      · rw [hcounters]
    · refine hloop.congr hindex ?_ ?_
      · rw [hcounters]
        rfl
      · rw [hcounters]
        rfl

theorem Tracks.exec {f : Fabric β} {earlier : List PublishedChunk} (h : f.Tracks earlier)
    (op : Op β) : (f.exec op).Tracks (f.publishedBy op earlier) := by
  rw [publishedBy]
  cases hcall : f.call op with
  | none =>
      obtain ⟨n, hcounters⟩ := counters_but_active hcall
      obtain ⟨backends, refs, hview, -⟩ := blobView_of_no_call hcall
      refine h.congr (congrArg BlobView.blobByDigest hview) ?_ ?_
      · rw [hcounters]
      · rw [hcounters]
  | some called =>
      obtain ⟨c, g⟩ := called
      have hidle := call_idle hcall
      have hg : g.Tracks earlier := by
        refine h.congr (congrArg BlobView.blobByDigest hidle.views.blobs) ?_ ?_
        · rw [hidle.counters]
        · rw [hidle.counters]
      have hexec := counters_of_call hcall
      refine (hg.publishCall c).congr ?_ ?_ ?_
      · obtain ⟨-, heq | ⟨source, -, -, heq⟩⟩ := exec_of_call hcall
        · rw [heq]
        · rw [heq]
          rfl
      · rw [hexec]
      · rw [hexec]

theorem tracks_run {f : Fabric β} {earlier : List PublishedChunk} (h : f.Tracks earlier)
    (ops : List (Op β)) : (Runs.run exec f ops).Tracks (history f earlier ops) := by
  induction ops generalizing f earlier with
  | nil => exact h
  | cons op ops ih => exact ih (h.exec op)

/-- In every run, with any options: `is_consistent` holds exactly if the chunks that
repeat an earlier one have no more bytes than the others. -/
theorem isConsistent_iff (ops : List (Op β)) :
    (Runs.run exec ({} : Fabric β) ops).accounting.isConsistent = true ↔
      UInt64.ofNat (repeatedBytes (history ({} : Fabric β) [] ops)) ≤
        UInt64.ofNat (storedBytes (history ({} : Fabric β) [] ops)) := by
  have htracks := tracks_run (tracks_empty (β := β)) ops
  rw [← htracks.deduplicated, ← htracks.physical]
  exact decide_eq_true_iff

def threeCopies : List (Op SyntheticBackend) :=
  Small.opening ++ [Small.publication, Small.publication, Small.publication]

/-- Two bytes saved, one byte stored. -/
theorem accounting_inconsistent :
    (Runs.run exec ({} : Fabric SyntheticBackend) threeCopies).accounting.isConsistent = false := by
  decide +kernel

end Fabric

end StorageFabric
