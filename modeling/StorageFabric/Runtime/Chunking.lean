import StorageFabric.Runtime.Allocation
import StorageFabric.Runtime.Numbering

/-!
The chunk loop against the validator.

If no put fails, the loop ends with chunks that tile the object, one for each
slice of the content, whatever the chunk size and whichever blobs the dedup
index offers. Validation asks for nothing that such chunks do not have, but for
one thing: that none of their blobs is nil. The loop never looks, and a metadata
file can bring the nil blob in: as an offer for the digest of one of its chunks,
or as the number behind the largest blob id that it names.
-/

namespace StorageFabric

open Persist StorageBackend

def sliceAt (content : Bytes) (c : ChunkDescriptor) : Bytes :=
  (content.drop c.offset.toNat).take c.logicalLength.toNat

theorem Host.fabric_recover {β : Type} [StorageBackend β] {h : Host β} {path : Bytes}
    {snap : MetadataSnapshot} (hfile : Fabric.recorded h.files path = some snap) (nowNs : UInt64) :
    (h.step (.recover path nowNs)).fabric =
      h.fabric.restore snap path (Fabric.workerBootNonce nowNs) :=
  congrArg Prod.snd (Fabric.recover_recorded hfile nowNs)

namespace Fabric

variable {β : Type}

theorem sliceAt_shapes {content : Bytes} (offset : Nat) {parts : List Bytes}
    (hcontent : content.drop offset = parts.flatten)
    (h : offset + parts.flatten.length < 2 ^ 64) :
    (shapes offset parts).map (sliceAt content) = parts := by
  induction parts generalizing offset with
  | nil => rfl
  | cons slice parts ih =>
      rw [List.flatten_cons] at hcontent
      rw [List.flatten_cons, List.length_append] at h
      have hextent : (chunkAt offset slice default).extent = ⟨offset, slice.length⟩ :=
        extent_chunkAt (by omega) default
      have hfirst : sliceAt content (chunkAt offset slice default) = slice := by
        show (content.drop (chunkAt offset slice default).extent.start).take
          (chunkAt offset slice default).extent.length = slice
        rw [hextent, hcontent, List.take_left]
      have hrest : content.drop (offset + slice.length) = parts.flatten := by
        rw [← List.drop_drop, hcontent, List.drop_left]
      rw [shapes, List.map_cons, hfirst, ih _ hrest (by omega)]

section Loop

variable [StorageBackend β]

/-! ### The number of the next manifest -/

theorem manifestCounter_le_publishCall (f : Fabric β) (c : Call) :
    f.manifestCounter ≤ (f.publishCall c).2.manifestCounter := by
  have hout := publishCall_outcome f c
  generalize (f.publishCall c).1 = r at hout
  generalize (f.publishCall c).2 = f' at hout
  cases hout with
  | refused s ledger stale hrefuse => exact Nat.le_refl _
  | aborted s res ledger start rc g f' hstart habort =>
      rw [habort.manifestCounter]
      exact Nat.le_succ _
  | published res ledger start chunks desc t g f' hstart hpub =>
      rw [show f'.manifestCounter = _ from congrArg ManifestView.manifestCounter hpub.manifests]
      exact Nat.le_succ _

theorem manifestCounter_le_exec (f : Fabric β) (op : Op β) :
    f.manifestCounter ≤ (f.exec op).manifestCounter := by
  have hof : ∀ {g h : Fabric β}, h.manifestView = g.manifestView →
      g.manifestCounter ≤ h.manifestCounter :=
    fun heq => (congrArg ManifestView.manifestCounter heq).ge
  have heffect := exec_effect f op
  generalize f.exec op = f' at heffect
  cases heffect with
  | silent _ f' hviews => exact hof hviews.manifests
  | registered _ t desc be f' _ _ _ hmanifests _ => exact hof hmanifests
  | defined _ obj f' _ _ _ hmanifests _ => exact hof hmanifests
  | duplicate _ f' _ _ hmanifests _ => exact hof hmanifests
  | called _ c g _ hviews _ =>
      exact (hof hviews.manifests).trans (manifestCounter_le_publishCall g c)
  | moved _ source c g p _ hviews _ _ _ =>
      exact (hof hviews.manifests).trans (manifestCounter_le_publishCall g c)
  | evicted id e hcheck => exact hof (manifestView_evict f e)

theorem manifestCounter_pos (ops : List (HostOp β)) :
    0 < (Runs.run Host.step {} ops).fabric.manifestCounter :=
  Host.fabric_invariant (I := fun f => 0 < f.manifestCounter) (P := fun _ => True) Nat.one_pos
    (fun f op h _ => Nat.lt_of_lt_of_le h (manifestCounter_le_exec f op)) (fun _ _ h => h)
    (fun f snap path nonce h => by rwa [(counters_restore f snap path nonce).2.1])
    fun _ _ => trivial

/-! ### The loop -/

/-- The loop is done after as many turns as there are bytes, and more change nothing. -/
theorem chunkLoop_turns {backend : StorageBackendId} {dedupe : Bool} {chunk : Nat}
    (hchunk : 0 < chunk) {n turns offset : Nat} {rest : Bytes} {f : Fabric β}
    (hn : rest.length ≤ n) (hturns : n ≤ turns) :
    chunkLoop backend dedupe chunk turns offset rest f =
      chunkLoop backend dedupe chunk n offset rest f := by
  induction n generalizing turns offset rest f with
  | zero =>
      obtain rfl : rest = [] := List.length_eq_zero_iff.mp (by omega)
      rw [chunkLoop_nil, chunkLoop_nil]
  | succ n ih =>
      obtain ⟨turns, rfl⟩ : ∃ t, turns = t + 1 := ⟨turns - 1, by omega⟩
      by_cases hrest : rest = []
      · rw [hrest, chunkLoop_nil, chunkLoop_nil]
      · have hpos : 0 < rest.length := List.length_pos_iff.mpr hrest
        have hdrop : (rest.drop chunk).length ≤ n := by
          rw [List.length_drop]
          omega
        rcases hstep : chunkStep backend dedupe offset (rest.take chunk) f with ⟨r, g⟩
        cases r with
        | error s => rw [chunkLoop_error hrest hstep, chunkLoop_error hrest hstep]
        | ok c =>
            rw [chunkLoop_ok hrest hstep, chunkLoop_ok hrest hstep, ih hdrop (by omega)]

/-- The chunk loop of a publication, on whatever blob tables and backends `start` has, in
a process with whatever files: if the backend takes what there is to store the loop ends,
with more turns than bytes as with as many; put together in the order of the manifest the
slices are the content; every chunk has the digest of its slice; and, unless a digest
happens to be zero, the manifest is valid exactly if no blob that the index offers for a
slice is nil, nor any of the next numbers that are drawn. -/
theorem chunkLoop_makes_valid_iff (ops : List (HostOp β)) {c : Call} {start : Fabric β}
    {be be' : β} (hbe : start.backends.lookup c.backend = some be)
    (hputs : putAll be (start.storesFor c) = some be') (hobject : c.obj.id.isNil = false)
    (hpos : 0 < c.obj.logicalSize) (hsize : c.content.length = c.obj.logicalSize.toNat)
    (hdigests : ∀ slice ∈ c.slices, (ContentDigest.of slice).isZero = false)
    (hmanifest : ((Runs.run Host.step {} ops).fabric.manifestOf c
      (start.chunksOf c)).manifestDigest.isZero = false) :
    ∃ chunks g,
      (∀ turns, c.content.length ≤ turns →
        chunkLoop c.backend c.opts.dedupe (chunkLength c.obj c.opts) turns 0 c.content start =
          (.ok chunks, g)) ∧
      let man := (Runs.run Host.step {} ops).fabric.manifestOf c chunks
      (man.chunks.map (sliceAt c.content)).flatten = c.content ∧
      (∀ ch ∈ man.chunks, ch.digest = ContentDigest.of (sliceAt c.content ch)) ∧
      (man.validate = .ok () ↔
        NamesBlobs c.opts.dedupe start.blobByDigest start.blobCounter c.slices) := by
  have hcounter := manifestCounter_pos ops
  generalize (Runs.run Host.step {} ops).fabric = f at hcounter hmanifest ⊢
  have hne : c.content ≠ [] := by
    intro hnil
    rw [hnil] at hsize
    exact (UInt64.lt_iff_toNat_lt.mp hpos).ne hsize
  have hends := chunkLoop_ends c.backend c.opts.dedupe (chunkLength c.obj c.opts)
    c.content.length 0 c.content start hbe
  rw [show putAll be (newBlobs c.opts.dedupe start.blobByDigest start.blobCounter
    (slices (chunkLength c.obj c.opts) c.content.length c.content)) = some be' from hputs] at hends
  have hshapes : (start.chunksOf c).map forgetBlob = shapes 0 c.slices := chunksFor_shapes ..
  obtain ⟨hchunks, hvalid⟩ := validate_manifestOf_iff (f := f) hshapes hsize hpos
  have hflat := Call.flatten_slices hsize
  have hslices : (start.chunksOf c).map (sliceAt c.content) = c.slices := by
    have h := sliceAt_shapes 0 hflat.symm (by
      rw [hflat, Nat.zero_add, hsize]
      exact c.obj.logicalSize.toNat_lt)
    rw [← hshapes, List.map_map] at h
    exact h
  refine ⟨start.chunksOf c, (chunkLoop c.backend c.opts.dedupe (chunkLength c.obj c.opts)
    c.content.length 0 c.content start).2, fun turns hturns => ?_, ?_, ?_, ?_⟩
  -- turns beyond the length of the content do nothing
  · rw [chunkLoop_turns (Call.chunkLength_pos hsize hne) (Nat.le_refl _) hturns]
    exact Prod.ext hends.1 rfl
  · rw [hchunks, hslices, hflat]
  · rw [hchunks]
    have h := digest_shapes 0 c.slices
    rw [← hshapes, ← hslices, List.map_map, List.map_map] at h
    exact List.map_inj_left.mp h
  · rw [hvalid]
    exact ⟨fun h => (namesBlobs_iff 0).mpr h.2.2.2.2, fun h =>
      ⟨hcounter.ne', hobject, hmanifest, hdigests, (namesBlobs_iff 0).mp h⟩⟩

end Loop

/-! ### Small contents -/

def twoChunkCall : Call where
  obj := describeObject ⟨1⟩ (.known .genericAiState) 3 [7, 7, 8] {} {} (.known .normal) default
  content := [7, 7, 8]
  backend := ⟨1⟩
  opts := { chunkSize := 2 }

def openedStore : Fabric SyntheticBackend :=
  (Runs.run Host.step {} (Small.opening.map .exec)).fabric

theorem chunkLoop_makes_valid_small :
    ∃ chunks g,
      (∀ turns, 3 ≤ turns →
        chunkLoop ⟨1⟩ true (chunkLength twoChunkCall.obj twoChunkCall.opts) turns 0 [7, 7, 8]
          openedStore = (.ok chunks, g)) ∧
      let man := openedStore.manifestOf twoChunkCall chunks
      (man.chunks.map (sliceAt [7, 7, 8])).flatten = [7, 7, 8] ∧
      (∀ ch ∈ man.chunks, ch.digest = ContentDigest.of (sliceAt [7, 7, 8] ch)) ∧
      man.validate = .ok () := by
  have hnamed : (openedStore.chunksOf twoChunkCall).all (fun ch => !ch.blob.isNil) = true := by
    decide +kernel
  have htakes : ((openedStore.backends.lookup ⟨1⟩).bind fun be =>
      putAll be (openedStore.storesFor twoChunkCall)).isSome = true := by
    decide +kernel
  obtain ⟨be', htook⟩ := Option.isSome_iff_exists.mp htakes
  obtain ⟨be, hbe, hputs⟩ := Option.bind_eq_some_iff.mp htook
  obtain ⟨chunks, g, hends, hflat, hdigests, hvalid⟩ :=
    chunkLoop_makes_valid_iff (Small.opening.map .exec) (c := twoChunkCall) hbe hputs (by decide)
      (by decide) (by decide) (by decide +kernel) (by decide +kernel)
  refine ⟨chunks, g, hends, hflat, hdigests, hvalid.mpr ((namesBlobs_iff 0).mpr fun ch hch => ?_)⟩
  have hch' := List.all_eq_true.mp hnamed ch hch
  simpa using hch'

/-- The metadata of one manifest, whose only chunk is the byte 7 in the nil blob. -/
def nilNaming : MetadataSnapshot where
  manifests := [{ id := ⟨1⟩, object := ⟨1⟩, totalLogicalLength := 1, chunks := [chunkAt 0 [7] ⟨0⟩] }]

def nilNamingFile : Bytes := (serializeSnapshot nilNaming).toOption.elim [] Prod.snd

/-- Somebody writes the file, and a new process opens its store and recovers it. -/
def nilNamingOps : List (HostOp SyntheticBackend) :=
  .write (ascii "m") nilNamingFile :: Small.opening.map .exec ++ [.recover (ascii "m") 0]

theorem recorded_nilNaming :
    recorded ((∅ : Table Bytes Bytes).insert (ascii "m") nilNamingFile) (ascii "m") =
      some nilNaming := by
  have hrun : nilNaming.Storable ∧ nilNaming.Distinct ∧
      ((encPayload nilNaming).any fun payload => decide (payload.length < 2 ^ 32)) = true := by
    decide +kernel
  obtain ⟨hstorable, hdistinct, hshort⟩ := hrun
  obtain ⟨payload, hpayload, hlength⟩ := (Option.any_eq_true _ _).mp hshort
  have hserial := serializeSnapshot_eq hpayload
  have hread := deserialize_serialize hstorable hdistinct hpayload (of_decide_eq_true hlength) hserial
  have hfile : nilNamingFile = metaBlob payload := by
    rw [nilNamingFile, hserial]
    rfl
  rw [recorded, AList.lookup_insert, Option.bind_some, hfile, hread]
  rfl

theorem fabric_nilNamingOps : (Runs.run Host.step {} nilNamingOps).fabric =
    openedStore.restore nilNaming (ascii "m") (workerBootNonce 0) := by
  have hopened : Runs.run Host.step {} (.write (ascii "m") nilNamingFile ::
      Small.opening.map .exec) =
        { fabric := Runs.run exec {} Small.opening
          files := (∅ : Table Bytes Bytes).insert (ascii "m") nilNamingFile } := by
    rw [Runs.run_cons, Host.run_exec]
    rfl
  have hstore : openedStore = Runs.run exec {} Small.opening := by rw [openedStore, Host.run_exec]
  rw [nilNamingOps, Runs.run_append, hopened, hstore, Runs.run_cons, Runs.run_nil]
  exact Host.fabric_recover (h := ⟨_, _⟩) recorded_nilNaming 0

/-- The index now offers the nil blob for the byte 7. A publication of that byte has nothing
to store, and its manifest is not valid. -/
theorem chunkLoop_makes_nil :
    let f := (Runs.run Host.step {} nilNamingOps).fabric
    let c : Call := ⟨Small.object, [7], ⟨1⟩, {}⟩
    (∃ be be', f.backends.lookup c.backend = some be ∧ putAll be (f.storesFor c) = some be') ∧
      ¬∃ chunks g,
        (∀ turns, 1 ≤ turns →
          chunkLoop c.backend c.opts.dedupe (chunkLength c.obj c.opts) turns 0 c.content f =
            (.ok chunks, g)) ∧
        (f.manifestOf c chunks).validate = .ok () := by
  rw [fabric_nilNamingOps]
  generalize hf : openedStore.restore nilNaming (ascii "m") (workerBootNonce 0) = f
  intro f c
  have hrun : ((f.backends.lookup c.backend).bind fun be =>
        putAll be (f.storesFor c)).isSome = true ∧
      ((chunkLoop c.backend c.opts.dedupe (chunkLength c.obj c.opts) 1 0 c.content
        f).1.toOption.all fun chunks => !(f.manifestOf c chunks).validate.isOk) = true := by
    rw [show f = _ from hf.symm]
    decide +kernel
  obtain ⟨htakes, hinvalid⟩ := hrun
  obtain ⟨be', htook⟩ := Option.isSome_iff_exists.mp htakes
  obtain ⟨be, hbe, hputs⟩ := Option.bind_eq_some_iff.mp htook
  refine ⟨⟨be, be', hbe, hputs⟩, ?_⟩
  rintro ⟨chunks, g, hends, hvalid⟩
  rw [hends 1 (Nat.le_refl _)] at hinvalid
  simp [Except.toOption, hvalid, Except.isOk, Except.toBool] at hinvalid

end Fabric

end StorageFabric
