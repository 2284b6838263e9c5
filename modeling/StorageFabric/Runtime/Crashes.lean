import StorageFabric.Runtime.Host
import StorageFabric.Runtime.Rebuild
import StorageFabric.Runtime.Verified

/-!
A runtime that is killed and started again, any number of times.

A process is killed between two operations or in the middle of one. The next process
finds the metadata as they were saved last, and the backends as they are: what was
stored after the save is there and forgotten, what was reclaimed after it is remembered
and gone. The forgotten blob ids are drawn again, for other bytes.

What a read returns is right nevertheless, since no id below the recovered counter is
drawn again. The saved tables are therefore carried along, over the backends of the
process that runs (`onBackendsOf`).
-/

namespace StorageFabric

open Persist

theorem mem_slices_of_length_le {chunk turns n : Nat} {rest slice : Bytes} (hchunk : 0 < chunk)
    (h : slice ∈ slices chunk turns rest) (hn : rest.length ≤ n) : slice ∈ slices chunk n rest := by
  induction turns generalizing rest n with
  | zero => cases h
  | succ turns ih =>
      by_cases hrest : rest = []
      · rw [hrest, slices_nil] at h
        cases h
      · have hpos : 0 < rest.length := List.length_pos_iff.mpr hrest
        obtain ⟨n, rfl⟩ : ∃ k, n = k + 1 := ⟨n - 1, by omega⟩
        rw [slices_cons hrest] at h ⊢
        obtain rfl | h := List.mem_cons.mp h
        · exact List.mem_cons_self
        · exact List.mem_cons_of_mem _ (ih h (by rw [List.length_drop]; omega))

namespace Fabric

variable {β : Type}

def onBackendsOf (f g : Fabric β) : Fabric β :=
  { f with backends := g.backends, blobCounter := g.blobCounter }

/-! ### Operations -/

section Backend

variable [StorageBackend β]

theorem Unused.register {f : Fabric β} (h : Unused f) {op : Op β} {be : β}
    (hop : op.registers = some be) : Unused (f.exec op) := by
  obtain ⟨-, -, hcatalog, hmanifests, hplacements⟩ := exec_registers (f := f) hop
  have hblobs : (f.exec op).blobRefs = f.blobRefs ∧ (f.exec op).blobByDigest = f.blobByDigest := by
    cases op with
    | registerLocalBackend name storageClass be' probe => exact ⟨rfl, rfl⟩
    | registerSyntheticBackend name profile be' => exact ⟨rfl, rfl⟩
    | _ => cases hop
  exact ⟨⟨hcatalog.trans h.blank.catalog, hmanifests.trans h.blank.manifests,
    hplacements.trans h.blank.placements⟩, hblobs.1.trans h.refs, hblobs.2.trans h.index⟩

theorem unused_run {regs : List (Op β)} {bes : List β}
    (hregs : regs.map Op.registers = bes.map some) : Unused (Runs.run exec {} regs) := by
  refine Runs.invariant (I := Unused) (P := fun _ op => ∃ be, op.registers = some be)
    (fun f op hf ⟨be, hbe⟩ => hf.register hbe) unused_empty (Runs.along_of_mem fun _ op hop => ?_)
  have hmem : op.registers ∈ bes.map some := hregs ▸ List.mem_map_of_mem hop
  obtain ⟨be, -, hbe⟩ := List.mem_map.mp hmem
  exact ⟨be, hbe.symm⟩

end Backend

/-- The live placements do not hold more references than all manifests. -/
theorem Attached.liveRefs_le {f : Fabric β} (h : Attached f) (b : BlobId) :
    f.liveRefs b ≤ f.manifestRefs b := by
  have hnodup : f.liveManifests.Nodup := by
    have hall : (f.placements.values.map PlacementRecord.manifest).Nodup :=
      AList.nodup_map_values h.own
    exact hall.sublist (List.filter_sublist.map _)
  have hmem : ∀ m ∈ f.liveManifests, m ∈ f.manifests := by
    intro m hm
    obtain ⟨id, p, hp, -, rfl⟩ := mem_liveManifests.mp hm
    exact h.held id p hp
  rw [manifestRefs, AList.sumBy_split hnodup hmem, liveRefs_eq]
  exact Nat.le_add_right _ _

section Contents

variable [KeyValueBackend β]

/-! ### The moment of a crash -/

omit [KeyValueBackend β] in
theorem Numbered.congr {f g : Fabric β} (h : Numbered f) (hkeys : g.backends.keys = f.backends.keys)
    (hcounter : g.backendCounter = f.backendCounter) : Numbered g where
  pos := hcounter ▸ h.pos
  mem_iff id := by rw [AList.mem_keys, hkeys, ← AList.mem_keys, hcounter, h.mem_iff]

theorem Passes.numbered {f m : Fabric β} {op : Op β} (h : Passes f op m) (hf : Numbered f) :
    Numbered m := by
  cases h with
  | before => exact hf
  | after => exact numbered_exec hf op
  | storing c g res ledger start k rc turns hcall hstart =>
      have hviews := (exec_of_call hcall).1
      have hbackends : start.backends = f.backends :=
        (congrArg BlobView.backends hstart.blobs).trans (congrArg BlobView.backends hviews.blobs)
      have hcounter : start.backendCounter = f.backendCounter :=
        (congrArg CatalogView.backendCounter hstart.catalog).trans
          (congrArg CatalogView.backendCounter hviews.catalog)
      refine hf.congr ?_ ?_
      -- the loop writes to backends, and registers none
      · refine chunkLoop_invariant (I := fun g => g.backends.keys = f.backends.keys) ?_ _ _ _ _ _
          (by rw [hbackends])
        intro offset slice g hg
        obtain ⟨_, _, _, h⟩ | ⟨_, _, h⟩ | ⟨_, _, h⟩ :=
          chunkStep_cases c.backend c.opts.dedupe offset slice g
        · rw [h]
          exact hg
        · rw [h]
          exact (keys_putOn _ _ _ _).trans hg
        · rw [h]
          exact (keys_putOn _ _ _ _).trans hg
      · have hview := catalogView_chunkLoop c.backend c.opts.dedupe (chunkLength c.obj c.opts) turns
          0 c.content start
        exact (congrArg CatalogView.backendCounter hview).trans hcounter
  | evicting id e hop hcheck =>
      exact hf.congr (keys_removeOn f _ _)
        (congrArg CatalogView.backendCounter (catalogView_removeOn f _ _))
  | reclaiming id e n hop hcheck =>
      have hmetadata : ((f.evictRecord e).evictMetadata e).backendCounter =
          (f.evictRecord e).backendCounter := by
        unfold evictMetadata markEvicted
        dsimp only
        split <;> rfl
      refine hf.congr ?_ ?_
      · rw [evictPartly, keys_removeBlobs, backends_evictMetadata]
        exact keys_removeOn f _ _
      · have hview := catalogView_removeBlobs e.record.backend
          (((f.evictRecord e).reclaimed e).take n) ((f.evictRecord e).evictMetadata e)
        exact ((congrArg CatalogView.backendCounter hview).trans hmetadata).trans
          (congrArg CatalogView.backendCounter (catalogView_removeOn f _ _))

theorem Passes.pool {S : Set Bytes} {f m : Fabric β} {op : Op β} (h : Passes f op m)
    (hf : Stocked S f) (hop : Involves S f op) : Pool S m := by
  cases h with
  | before => exact hf.pool
  | after => exact (hf.exec hop).pool
  | storing c g res ledger start k rc turns hcall hstart =>
      have hviews := (exec_of_call hcall).1
      have hpool : Pool S start := by
        intro k b data hdata
        rw [stored_congr (congrArg BlobView.backends hstart.blobs),
          stored_congr (congrArg BlobView.backends hviews.blobs)] at hdata
        exact hf.pool k b data hdata
      refine hpool.chunkLoop c.backend c.opts.dedupe 0 fun slice hslice => ?_
      have hsize : c.content.length = c.obj.logicalSize.toNat := size_of_accepts hstart.accepted
      have hne : c.content ≠ [] := by
        rintro hnil
        rw [hnil, slices_nil] at hslice
        cases hslice
      exact hop.slices c g hcall slice
        (mem_slices_of_length_le (Call.chunkLength_pos hsize hne) hslice (Nat.le_refl _))
  | evicting id e hop hcheck =>
      intro k b data hdata
      rw [stored_evictRecord] at hdata
      exact hf.pool k b data hdata
  | reclaiming id e n hop hcheck =>
      intro k b data hdata
      rcases stored_evictPartly f e n k b with heq | ⟨-, -, hnone⟩
      · exact hf.pool k b data (heq ▸ hdata)
      · rw [hnone] at hdata
        cases hdata

/-! ### The next process -/

omit [KeyValueBackend β] in
/-- The recovered counter is above the blobs of all manifests. -/
theorem drawn_restore {g : Fabric β} (snap : MetadataSnapshot) (path : Bytes) (nonce : Nat)
    {id : ManifestId} {man : Manifest}
    (hman : (g.restore snap path nonce).manifests.lookup id = some man) {c : ChunkDescriptor}
    (hc : c ∈ man.chunks) : c.blob.value < (g.restore snap path nonce).blobCounter := by
  have hcounter := counter_foldl (g.restore snap path nonce).blobRefs.keys g.blobCounter
  rw [← blobCounter_restore] at hcounter
  refine hcounter.2 c.blob (AList.mem_keys.mp (RefCount.mem_of_count_pos ?_))
  rw [count_blobRefs_restore]
  have hpos := manifestRefs_pos hman hc
  omega

omit [KeyValueBackend β] in
theorem numbered_restore {g : Fabric β} (hg : Numbered g) (snap : MetadataSnapshot) (path : Bytes)
    (nonce : Nat) : Numbered (g.restore snap path nonce) := by
  obtain ⟨-, -, -, hbackends⟩ := restore_tables g snap path nonce
  refine hg.congr (by rw [hbackends]) ?_
  simp only [restore, downgradeBackends, account, rebuildBlobs]
  rw [foldl_recoverChunk, repopulate_eq]

theorem stored_eq_of_lookup {f g : Fabric β}
    (h : ∀ k, g.backends.lookup k = f.backends.lookup k) (k : StorageBackendId) (key : Bytes) :
    g.stored k key = f.stored k key := by
  rw [stored, stored, h]

theorem Serves.transfer {R : Option Bytes → Bytes → Prop} {f g : Fabric β} {p : PlacementRecord}
    {man : Manifest} {parts : List Bytes} (h : Serves R f p man parts)
    (hmanifest : g.manifests.lookup p.manifest = f.manifests.lookup p.manifest)
    (hbackends : ∀ k, g.backends.lookup k = f.backends.lookup k)
    (hdrawn : ∀ c ∈ man.chunks, c.blob.value < g.blobCounter) : Serves R g p man parts where
  manifest := hmanifest.trans h.manifest
  backend := by
    obtain ⟨be, hbe⟩ := AList.mem_iff_lookup.mp h.backend
    exact AList.mem_iff_lookup.mpr ⟨be, (hbackends _).trans hbe⟩
  length := h.length
  lengths := h.lengths
  drawn := hdrawn
  holds := h.holds.imp fun _ _ hr => by rwa [stored_eq_of_lookup hbackends]

theorem Faithful.transfer {R : Option Bytes → Bytes → Prop} {keep : PlacementRecord → Bool}
    {f g : Fabric β} {log : List (PlacementId × Bytes)} (h : Faithful R keep ⟨f, log⟩)
    (hplacements : ∀ id, g.placements.lookup id = f.placements.lookup id)
    (hmanifests : ∀ id, g.manifests.lookup id = f.manifests.lookup id)
    (hbackends : ∀ k, g.backends.lookup k = f.backends.lookup k)
    (hdrawn : ∀ id man, g.manifests.lookup id = some man → ∀ c ∈ man.chunks,
      c.blob.value < g.blobCounter) : Faithful R keep ⟨g, log⟩ where
  manifest id p hp := by
    obtain ⟨man, hman⟩ := AList.mem_iff_lookup.mp (h.manifest id p ((hplacements id).symm.trans hp))
    exact AList.mem_iff_lookup.mpr ⟨man, (hmanifests _).trans hman⟩
  logged id x hx := by
    obtain ⟨p, hp⟩ := AList.mem_iff_lookup.mp (h.logged id x hx)
    exact AList.mem_iff_lookup.mpr ⟨p, (hplacements id).trans hp⟩
  serves id p hp hkeep := by
    obtain ⟨man, parts, hserves, hlog⟩ := h.serves id p ((hplacements id).symm.trans hp) hkeep
    exact ⟨man, parts, hserves.transfer (hmanifests _) hbackends
      (hdrawn _ man ((hmanifests _).trans hserves.manifest)), hlog⟩

/-- What was served over the backends of the process that is gone is served by the
runtime that has recovered the tables, and by the tables over its backends. -/
theorem Faithful.recovered {R : Option Bytes → Bytes → Prop} {keep : PlacementRecord → Bool}
    {f m g : Fabric β} {log : List (PlacementId × Bytes)}
    (h : Faithful R keep ⟨f.onBackendsOf m, log⟩) (hf : Keyed f) (hg : Blank g)
    (hbackends : ∀ k, g.backends.lookup k = m.backends.lookup k) (path : Bytes) (nonce : Nat) :
    Faithful R keep ⟨g.restore f.snapshot path nonce, log⟩ ∧
      Faithful R keep ⟨f.onBackendsOf (g.restore f.snapshot path nonce), log⟩ := by
  have hplacements := hf.lookup_placements hg path nonce
  have hmanifests := hg.lookup_manifests path nonce hf.manifests
  obtain ⟨-, -, -, hkept⟩ := restore_tables g f.snapshot path nonce
  have hsame : ∀ k, (g.restore f.snapshot path nonce).backends.lookup k =
      (f.onBackendsOf m).backends.lookup k := fun k => by
    rw [hkept]
    exact hbackends k
  have hdrawn : ∀ id man, (g.restore f.snapshot path nonce).manifests.lookup id = some man →
      ∀ c ∈ man.chunks, c.blob.value < (g.restore f.snapshot path nonce).blobCounter :=
    fun id man hman c hc => drawn_restore f.snapshot path nonce hman hc
  exact ⟨h.transfer hplacements hmanifests hsame hdrawn,
    h.transfer (fun _ => rfl) (fun _ => rfl) hsame
      fun id man hman => hdrawn id man ((hmanifests id).trans hman)⟩

theorem Faithful.later {R : Option Bytes → Bytes → Prop} {keep keep' : PlacementRecord → Bool}
    {f g g' : Fabric β} {log : List (PlacementId × Bytes)}
    (h : Faithful R keep ⟨f.onBackendsOf g, log⟩) (hlater : Later g g')
    (hkeep : ∀ id p, f.placements.lookup id = some p → keep' p = true → keep p = true)
    (hR : ∀ id p man, f.placements.lookup id = some p → keep' p = true →
      f.manifests.lookup p.manifest = some man → p.backend ∈ g.backends → ∀ c ∈ man.chunks,
        ∀ slice, c.blob.value < g.blobCounter → R (g.stored p.backend (blobKey c.blob)) slice →
          R (g'.stored p.backend (blobKey c.blob)) slice) :
    Faithful R keep' ⟨f.onBackendsOf g', log⟩ where
  manifest := h.manifest
  logged := h.logged
  serves id p hp hkept := by
    obtain ⟨man, parts, hserves, hlog⟩ := h.serves id p hp (hkeep id p hp hkept)
    have hlater' : Later (f.onBackendsOf g) (f.onBackendsOf g') :=
      ⟨hlater.counter, hlater.backends, hlater.stored⟩
    exact ⟨man, parts, hserves.mono rfl rfl rfl hlater'
      (hR id p man hp hkept hserves.manifest hserves.backend), hlog⟩

theorem Serves.read_eq {f : Fabric β} {id : PlacementId} {p : PlacementRecord} {man : Manifest}
    {parts : List Bytes} (h : Serves Compatible f p man parts)
    (hp : f.placements.lookup id = some p) {o : ObjectId} {data : Bytes}
    (hread : (f.read o (some id)).1 = .ok data) : data = parts.flatten := by
  obtain ⟨p', man', be, out, hlookup, hbe, hchunks, hlength⟩ := read_ok hread
  obtain ⟨hp', hman⟩ := lookupForRead_some hlookup
  obtain rfl := Option.some.inj (hp.symm.trans hp')
  obtain rfl := Option.some.inj (hman.symm.trans h.manifest)
  have hout : out = parts.flatten := by
    refine readChunks_of_compatible ?_ ?_ hchunks
    · exact List.forall₂_map_left_iff.mpr h.lengths
    · refine List.forall₂_map_left_iff.mpr (h.holds.imp fun c slice hcompatible => ?_)
      rwa [stored, hbe] at hcompatible
  unfold checkLength at hlength
  split at hlength
  · cases hlength
  · exact (Except.ok.inj hlength).symm.trans hout

theorem Faithful.withPath {R : Option Bytes → Bytes → Prop} {keep : PlacementRecord → Bool}
    {f : Fabric β} {log : List (PlacementId × Bytes)} (h : Faithful R keep ⟨f, log⟩)
    (path : Bytes) : Faithful R keep ⟨{ f with lastSavePath := path }, log⟩ where
  manifest := h.manifest
  logged := h.logged
  serves id p hp hkeep := by
    obtain ⟨man, parts, hserves, hlog⟩ := h.serves id p hp hkeep
    exact ⟨man, parts, hserves.transfer rfl (fun _ => rfl) hserves.drawn, hlog⟩

/-! ### Saving -/

omit [KeyValueBackend β] in
theorem lookup_save_of_failed {f : Fabric β} {path : Bytes} {fault : SaveFault}
    {files : Table Bytes Bytes} (h : (f.save path fault files).1.isOk = false) :
    (f.save path fault files).2.2.lookup path = files.lookup path := by
  have htmp : path ≠ path ++ ascii ".tmp" := fun heq => by
    have hlength := congrArg List.length heq
    rw [List.length_append] at hlength
    have hpos : (ascii ".tmp").length = 4 := rfl
    omega
  unfold save at h ⊢
  cases hserial : serializeSnapshot f.snapshot with
  | error s => rfl
  | ok r =>
      obtain ⟨res, blob⟩ := r
      cases fault with
      | none => simp [hserial, Status.isOk, Status.okStatus] at h
      | cannotOpen => rfl
      | cannotWrite written => exact AList.lookup_insert_ne htmp
      | cannotRename message =>
          exact (AList.lookup_erase_ne htmp).trans (AList.lookup_insert_ne htmp)

/-- The records can be written and read back. -/
structure Writable (f : Fabric β) : Prop where
  storable : f.snapshot.Storable
  distinct : f.snapshot.Distinct
  short : ∀ payload, encPayload f.snapshot = some payload → payload.length < 2 ^ 32

end Contents

end Fabric

/-! ### Processes one after the other -/

open Fabric

/-- A runtime with its files, and what each of its placements was published with; the
same for the state that was saved last. -/
structure Deployed (β : Type) where
  host : Host β := {}
  log : List (PlacementId × Bytes) := []
  savedLog : List (PlacementId × Bytes) := []
  /-- The placements that have been evicted since the beginning. -/
  dropped : List PlacementId := []

inductive DeployOp (β : Type)
  | exec (op : Op β)
  | save (fault : SaveFault)
  /-- The process is killed in the state `m` that the operation `during` passes through;
  the next one registers the backends and recovers the file. -/
  | crash (during : Op β) (m : Fabric β) (regs : List (Op β)) (nowNs : UInt64)

namespace Deployed

variable {β : Type}

section Backend

variable [StorageBackend β]

def step (path : Bytes) (d : Deployed β) : DeployOp β → Deployed β
  | .exec op =>
      { d with
        host := d.host.step (.exec op)
        log := d.host.fabric.publishes op ++ d.log
        dropped := (d.host.fabric.evicts op).toList ++ d.dropped }
  | .save fault =>
      { d with
        host := d.host.step (.save path fault)
        savedLog :=
          if (d.host.fabric.save path fault d.host.files).1.isOk then d.log else d.savedLog }
  | .crash during _ regs nowNs =>
      { d with
        host := Runs.run Host.step d.host ([.restart] ++ regs.map .exec ++ [.recover path nowNs])
        log := d.savedLog
        dropped := (d.host.fabric.evicts during).toList ++ d.dropped }

theorem host_crash (d : Deployed β) (path : Bytes) (during : Op β) (m : Fabric β)
    (regs : List (Op β)) (nowNs : UInt64) :
    (d.step path (.crash during m regs nowNs)).host =
      ⟨((Runs.run exec ({} : Fabric β) regs).recover path d.host.files nowNs).2, d.host.files⟩ := by
  show Runs.run Host.step d.host ([.restart] ++ regs.map .exec ++ [.recover path nowNs]) = _
  rw [Runs.run_append, Runs.run_append, Host.run_exec]
  rfl

theorem reopened {m : Fabric β} (hm : Numbered m) {regs : List (Op β)}
    (hregs : regs.map Op.registers = m.registered) :
    Unused (Runs.run exec ({} : Fabric β) regs) ∧ Numbered (Runs.run exec ({} : Fabric β) regs) ∧
      ∀ k, (Runs.run exec ({} : Fabric β) regs).backends.lookup k = m.backends.lookup k := by
  obtain ⟨bes, hbes⟩ := hm.registered_some
  obtain ⟨-, hnumbered, hsame⟩ :=
    run_registers (f := ({} : Fabric β)) (hregs.trans hbes) ⟨rfl, rfl, rfl⟩ numbered_empty
  exact ⟨unused_run (hregs.trans hbes), hnumbered, hm.lookup_eq hnumbered (hsame.trans hbes.symm)⟩

end Backend

section Contents

variable [KeyValueBackend β]

/-! ### No process reads anything wrong -/

/-- The bytes in play are known, no publication is misdirected, what is saved can be read
back, and the next process finds the backends as they were at the crash. -/
def Allowed (S : Set Bytes) (d : Deployed β) : DeployOp β → Prop
  | .exec op => Involves S d.host.fabric op ∧ ¬Misdirects d.host.fabric op
  | .save _ => Writable d.host.fabric
  | .crash during m regs _ => Involves S d.host.fabric during ∧ Passes d.host.fabric during m ∧
      regs.map Op.registers = m.registered

/-- The tables that the file holds, over the backends of the process that runs. -/
def Saved (R : Option Bytes → Bytes → Prop) (keep : PlacementRecord → Bool)
    (Q : Fabric β → Prop) (path : Bytes) (h : Host β) (log : List (PlacementId × Bytes)) : Prop :=
  (recorded h.files path = none ∧ log = []) ∨
  ∃ f, recorded h.files path = some f.snapshot ∧ Keyed f ∧ Q f ∧
    Faithful R keep ⟨f.onBackendsOf h.fabric, log⟩

structure Secure (S : Set Bytes) (path : Bytes) (d : Deployed β) : Prop where
  stocked : Stocked S d.host.fabric
  numbered : Numbered d.host.fabric
  keyed : Keyed d.host.fabric
  live : Faithful Compatible (fun _ => true) ⟨d.host.fabric, d.log⟩
  saved : Saved Compatible (fun _ => true) (fun _ => True) path d.host d.savedLog

theorem secure_empty (S : Set Bytes) (path : Bytes) : Secure S path ({} : Deployed β) where
  stocked := stocked_empty S
  numbered := numbered_empty
  keyed := keyed_empty
  live := faithful_empty _ _
  saved := .inl ⟨rfl, rfl⟩

theorem Stocked.recovered {S : Set Bytes} {m g : Fabric β} (hpool : Pool S m) (hg : Unused g)
    (hbackends : ∀ k, g.backends.lookup k = m.backends.lookup k) (path : Bytes)
    (files : Table Bytes Bytes) (nowNs : UInt64) :
    Stocked S (g.recover path files nowNs).2 := by
  have hblank : Pool S g ∧ Indexed g := by
    refine ⟨fun k b data hdata => ?_, fun d b hb => ?_⟩
    · rw [stored_eq_of_lookup hbackends] at hdata
      exact hpool k b data hdata
    · rw [hg.index] at hb
      cases hb
  obtain ⟨snap, -, heq⟩ | ⟨-, -, heq⟩ := g.recover_cases path files nowNs
  · rw [heq]
    obtain ⟨-, -, -, hkept⟩ := restore_tables g snap path (workerBootNonce nowNs)
    refine ⟨fun k b data hdata => ?_, hblank.2.restore snap path _⟩
    rw [stored_congr hkept] at hdata
    exact hblank.1 k b data hdata
  · rw [heq]
    exact ⟨hblank.1, hblank.2⟩

theorem Secure.crash {S : Set Bytes} {path : Bytes} {d : Deployed β} (h : Secure S path d)
    {during : Op β} {m : Fabric β} {regs : List (Op β)} (hinvolves : Involves S d.host.fabric during)
    (hpasses : Passes d.host.fabric during m) (hregs : regs.map Op.registers = m.registered)
    (nowNs : UInt64) : Secure S path (d.step path (.crash during m regs nowNs)) := by
  obtain ⟨hunused, hnumbered, hbackends⟩ := reopened (hpasses.numbered h.numbered) hregs
  have hhost := d.host_crash path during m regs nowNs
  have hlog : (d.step path (.crash during m regs nowNs)).log = d.savedLog := rfl
  have hsaved : (d.step path (.crash during m regs nowNs)).savedLog = d.savedLog := rfl
  have hstocked := Stocked.recovered (hpasses.pool h.stocked hinvolves) hunused hbackends path
    d.host.files nowNs
  generalize d.step path (.crash during m regs nowNs) = d' at *
  generalize Runs.run exec ({} : Fabric β) regs = g at *
  obtain ⟨hnone, hnil⟩ | ⟨f, hrecorded, hkeyed, -, hfaithful⟩ := h.saved
  · -- nothing was saved yet
    obtain ⟨snap, hsome, -⟩ | ⟨-, -, hsame⟩ := g.recover_cases path d.host.files nowNs
    · rw [hnone] at hsome
      cases hsome
    · rw [hsame] at hhost hstocked
      have hfabric : d'.host.fabric = g := by rw [hhost]
      refine ⟨by rwa [hfabric], by rwa [hfabric], ?_, ?_, ?_⟩
      · rw [hfabric]
        refine ⟨fun id p hp => ?_, fun id man hman => ?_⟩
        · rw [hunused.blank.placements] at hp
          cases hp
        · rw [hunused.blank.manifests] at hman
          cases hman
      · rw [hfabric, hlog, hnil]
        refine ⟨fun id p hp => ?_, nofun, fun id p hp => ?_⟩
        all_goals
          replace hp : g.placements.lookup id = some p := hp
          rw [hunused.blank.placements] at hp
          cases hp
      · rw [hsaved, hhost]
        exact .inl ⟨hnone, hnil⟩
  · rw [recover_recorded hrecorded] at hhost hstocked
    have hfabric : d'.host.fabric = g.restore f.snapshot path (workerBootNonce nowNs) := by
      rw [hhost]
    -- whatever the operation had put until then, the blobs of the file are there
    have hmoved := hfaithful.later hpasses.later (fun _ _ _ hkeep => hkeep)
      fun _ _ _ _ _ _ hk _ _ _ hb hr => hpasses.later.compatible hk hb hr
    obtain ⟨hlive, hagain⟩ := hmoved.recovered hkeyed hunused.blank hbackends path
      (workerBootNonce nowNs)
    refine ⟨by rwa [hfabric], ?_, ?_, ?_, .inr ⟨f, ?_, hkeyed, trivial, ?_⟩⟩
    · rw [hfabric]
      exact numbered_restore hnumbered _ _ _
    · rw [hfabric]
      exact hkeyed.restore hunused.blank _ _
    · rwa [hfabric, hlog]
    · rw [hhost]
      exact hrecorded
    · rwa [hfabric, hsaved]

/-- What a save leaves in the file: the present tables, or what was there. -/
theorem Saved.save {R : Option Bytes → Bytes → Prop} {keep : PlacementRecord → Bool}
    {Q : Fabric β → Prop} {path : Bytes} {h : Host β} {log savedLog : List (PlacementId × Bytes)}
    (hsaved : Saved R keep Q path h savedLog) (hlive : Faithful R keep ⟨h.fabric, log⟩)
    (hkeyed : Keyed h.fabric) (hQ : Q h.fabric) (hwritable : Writable h.fabric)
    (fault : SaveFault) :
    Saved R keep Q path (h.step (.save path fault))
      (if (h.fabric.save path fault h.files).1.isOk then log else savedLog) := by
  obtain ⟨last, hlast⟩ := Host.fabric_save h.fabric path fault h.files
  have hstep : h.step (.save path fault) =
      ⟨{ h.fabric with lastSavePath := last }, (h.fabric.save path fault h.files).2.2⟩ := by
    rw [← hlast]
    rfl
  rw [hstep]
  cases hok : (h.fabric.save path fault h.files).1.isOk with
  | true =>
      rw [if_pos rfl]
      exact .inr ⟨h.fabric,
        recorded_saved hwritable.storable hwritable.distinct hwritable.short hok, hkeyed, hQ, hlive⟩
  | false =>
      rw [if_neg Bool.false_ne_true]
      have hsame : recorded (h.fabric.save path fault h.files).2.2 path = recorded h.files path := by
        rw [recorded, recorded, lookup_save_of_failed hok]
      unfold Saved
      rw [hsame]
      exact hsaved

theorem Secure.save {S : Set Bytes} {path : Bytes} {d : Deployed β} (h : Secure S path d)
    (hwritable : Writable d.host.fabric) (fault : SaveFault) :
    Secure S path (d.step path (.save fault)) := by
  obtain ⟨last, hlast⟩ := Host.fabric_save d.host.fabric path fault d.host.files
  have hfabric : (d.step path (.save fault)).host.fabric =
      { d.host.fabric with lastSavePath := last } := hlast
  refine ⟨?_, ?_, ?_, ?_, h.saved.save h.live h.keyed trivial hwritable fault⟩
  · rw [hfabric]
    exact ⟨h.stocked.pool, h.stocked.indexed⟩
  · rw [hfabric]
    exact ⟨h.numbered.pos, h.numbered.mem_iff⟩
  · rw [hfabric]
    exact ⟨h.keyed.placements, h.keyed.manifests⟩
  · rw [hfabric]
    exact h.live.withPath last

theorem Secure.step {S : Set Bytes} (hinj : Set.InjOn ContentDigest.of S) {path : Bytes}
    {d : Deployed β} (h : Secure S path d) {o : DeployOp β} (ho : d.Allowed S o) :
    Secure S path (d.step path o) := by
  cases o with
  | exec op =>
      obtain ⟨hinvolves, hdirect⟩ := ho
      have hlive := h.live.record h.stocked.indexed
        (preserves_compatible hinj h.stocked hinvolves hdirect)
      refine ⟨h.stocked.exec hinvolves, numbered_exec h.numbered op, h.keyed.exec op, hlive, ?_⟩
      obtain hnone | ⟨f, hrecorded, hkeyed, -, hfaithful⟩ := h.saved
      · exact .inl hnone
      · exact .inr ⟨f, hrecorded, hkeyed, trivial,
          hfaithful.later (later_exec _ op) (fun _ _ _ hkeep => hkeep)
            fun _ _ _ _ _ _ hk _ _ _ hb hr => (later_exec _ op).compatible hk hb hr⟩
  | save fault => exact h.save ho fault
  | crash during m regs nowNs => exact h.crash ho.1 ho.2.1 ho.2.2 nowNs

/-- However often the process is killed, and at whatever moments: a read that succeeds
returns what its placement was published with, the one that it names or, if it names none,
an available one of the object. -/
theorem reads_survive_crashes {S : Set Bytes} (hinj : Set.InjOn ContentDigest.of S) (path : Bytes)
    (ops : List (DeployOp β)) (hops : Runs.Along (step path) (Allowed S) {} ops) :
    let d := Runs.run (step path) {} ops
    (∀ o id data, (d.host.fabric.read o (some id)).1 = .ok data →
      ∀ x, (id, x) ∈ d.log ↔ x = data) ∧
    ∀ o data, (d.host.fabric.read o none).1 = .ok data →
      ∃ id p, d.host.fabric.placements.lookup id = some p ∧ p.object = o ∧ isAvailable p = true ∧
        ∀ x, (id, x) ∈ d.log ↔ x = data := by
  intro d
  have hsecure : Secure S path d :=
    Runs.invariant (I := Secure S path) (fun _ _ h ho => h.step hinj ho) (secure_empty S path) hops
  have hnamed : ∀ o id data, (d.host.fabric.read o (some id)).1 = .ok data →
      ∀ x, (id, x) ∈ d.log ↔ x = data := by
    intro o id data hread x
    obtain ⟨p, man, be, out, hlookup, -⟩ := read_ok hread
    obtain ⟨hp, -⟩ := lookupForRead_some hlookup
    obtain ⟨man, parts, hserves, hlog⟩ := hsecure.live.serves id p hp rfl
    rw [hserves.read_eq hp hread]
    exact hlog x
  refine ⟨hnamed, fun o data hread => ?_⟩
  obtain ⟨p, hp, hobject, havail, hsame⟩ := read_found hsecure.keyed.placements hread
  exact ⟨p.id, p, hp, hobject, havail, hnamed o p.id data (hsame ▸ hread)⟩

/-! ### What has not been given up stays -/

/-- Placements that nobody has evicted, according to their record or since it was saved. -/
def keeps (dropped : List PlacementId) (p : PlacementRecord) : Bool :=
  !isEvicted p && !dropped.contains p.id

theorem keeps_iff {dropped : List PlacementId} {p : PlacementRecord} :
    keeps dropped p = true ↔ isEvicted p = false ∧ p.id ∉ dropped := by
  simp [keeps]

/-- The tables of `g` go on from those of `f`. -/
def Tracked (f g : Fabric β) (dropped : List PlacementId) : Prop :=
  ∀ id p, f.placements.lookup id = some p → ∃ q, g.placements.lookup id = some q ∧
    q.manifest = p.manifest ∧ (isEvicted q = true → isEvicted p = true ∨ id ∈ dropped) ∧
    ∀ man, f.manifests.lookup p.manifest = some man → g.manifests.lookup p.manifest = some man

theorem stored_passes {f m : Fabric β} {op : Op β} (h : Passes f op m) (href : Referenced f)
    {id : PlacementId} {q : PlacementRecord} (hq : f.placements.lookup id = some q)
    (hkept : isEvicted q = false) (hid : f.evicts op ≠ some id) {b : BlobId}
    (hb : b ∈ f.blobIds q) (hdrawn : b.value < f.blobCounter) {k : StorageBackendId}
    (hk : k ∈ f.backends) : m.stored k (blobKey b) = f.stored k (blobKey b) := by
  -- the only step that removes blobs is that of an eviction, and of another placement
  have hevicting : ∀ id' e, op = .evict id' → f.evictCheck id' = .inr e → ∀ n,
      ((f.evictRecord e).evictPartly e n).stored k (blobKey b) = f.stored k (blobKey b) := by
    rintro id' e rfl hcheck n
    have hne : id ≠ id' := by
      rintro rfl
      exact hid (if_pos ((allowed_canEvict_iff f id).mpr ⟨e, hcheck⟩))
    rcases stored_evictPartly f e n k b with heq | ⟨-, hgone, -⟩
    · exact heq
    · exact absurd hgone (href.notMem_reclaimed hcheck hne hq hkept hb)
  cases h with
  | before => rfl
  | after =>
      rcases exec_grows f op with hgrows | ⟨id', e, hop, hcheck, heq⟩
      · exact hgrows.stored k hk b hdrawn
      · rw [heq, ← evictPartly_length]
        exact hevicting id' e hop hcheck _
  | storing c g res ledger start j rc turns hcall hstart =>
      have hviews := (exec_of_call hcall).1
      have hbegin := (Grows.of_views hviews.blobs).trans (.of_views hstart.blobs)
      exact (hbegin.trans (grows_chunkLoop _ _ _ _ _ _ start)).stored k hk b hdrawn
  | evicting id' e hop hcheck => exact stored_evictRecord f e k b
  | reclaiming id' e n hop hcheck => exact hevicting id' e hop hcheck n

omit [KeyValueBackend β] in
theorem referenced_restore {f g : Fabric β} (hf : Keyed f) (hattached : Attached f) (hg : Unused g)
    (path : Bytes) (nonce : Nat) : Referenced (g.restore f.snapshot path nonce) := by
  have hagain : Attached (g.restore f.snapshot path nonce) :=
    hattached.congr (hf.lookup_placements hg.blank path nonce)
      (hg.blank.lookup_manifests path nonce hf.manifests)
  have hcovered : ∀ b, (g.restore f.snapshot path nonce).liveRefs b ≤
      RefCount.count (g.restore f.snapshot path nonce).blobRefs b := by
    intro b
    rw [count_blobRefs_restore]
    have hle := hagain.liveRefs_le b
    omega
  have hindexed : Indexed g := fun d b hb => by
    rw [hg.index] at hb
    cases hb
  refine ⟨hagain.held, hcovered, fun b hb => ?_, hindexed.restore f.snapshot path nonce⟩
  by_contra hne
  have hcounter := counter_foldl (g.restore f.snapshot path nonce).blobRefs.keys g.blobCounter
  rw [← blobCounter_restore] at hcounter
  have hpos : 0 < RefCount.count (g.restore f.snapshot path nonce).blobRefs b := by
    have hle := hcovered b
    omega
  have hlt := hcounter.2 b (AList.mem_keys.mp (RefCount.mem_of_count_pos hpos))
  omega

omit [KeyValueBackend β] in
theorem tracked_self (f : Fabric β) (dropped : List PlacementId) : Tracked f f dropped :=
  fun _ p hp => ⟨p, hp, rfl, .inl, fun _ h => h⟩

theorem Tracked.exec {f g : Fabric β} {dropped : List PlacementId} (h : Tracked f g dropped)
    (hg : Attached g) {op : Op β} (hmove : op.moves = none) :
    Tracked f (g.exec op) ((g.evicts op).toList ++ dropped) := by
  intro id p hp
  obtain ⟨q, hq, hmanifest, hevicted, hman⟩ := h id p hp
  have hretires : g.retires op = none := by
    rw [retires, hmove, ite_self]
  have hrecord : g.recordAfter op id q = if g.evicts op = some id then evictedRecord q else q := by
    rw [recordAfter, hretires, if_neg (Option.some_ne_none id).symm]
  refine ⟨g.recordAfter op id q, ?_, ?_, fun hgone => ?_, fun man hlookup => ?_⟩
  · rw [lookup_placements_exec, hq]
  · rw [hrecord, ← hmanifest]
    split <;> rfl
  · rw [hrecord] at hgone
    split at hgone
    · next hevicts => exact .inr (List.mem_append_left _ (by simp [hevicts]))
    · exact (hevicted hgone).imp (fun h => h) (List.mem_append_right _)
  · rw [manifests_exec g op (hmanifest ▸ hg.held id q hq)]
    exact hman man hlookup

/-- What is published is verified, and nothing is moved away. -/
def Careful (S : Set Bytes) (d : Deployed β) (o : DeployOp β) : Prop :=
  d.Allowed S o ∧ ∀ op, o = .exec op → op.moves = none ∧ op.eager = true

theorem careful_save {S : Set Bytes} {d : Deployed β} (h : Writable d.host.fabric)
    (fault : SaveFault) : d.Careful S (.save fault) :=
  ⟨h, fun _ heq => nomatch heq⟩

theorem careful_crash {S : Set Bytes} {d : Deployed β} {during : Op β} {m : Fabric β}
    {regs : List (Op β)} (hinvolves : Involves S d.host.fabric during)
    (hpasses : Passes d.host.fabric during m) (hregs : regs.map Op.registers = m.registered)
    (nowNs : UInt64) : d.Careful S (.crash during m regs nowNs) :=
  ⟨⟨hinvolves, hpasses, hregs⟩, fun _ heq => nomatch heq⟩

structure Lasting (S : Set Bytes) (path : Bytes) (d : Deployed β) : Prop extends Secure S path d where
  present : Faithful Present (keeps d.dropped) ⟨d.host.fabric, d.log⟩
  referenced : Referenced d.host.fabric
  attached : Attached d.host.fabric
  kept : Saved Present (keeps d.dropped)
    (fun f => Attached f ∧ Tracked f d.host.fabric d.dropped) path d.host d.savedLog

theorem lasting_empty (S : Set Bytes) (path : Bytes) : Lasting S path ({} : Deployed β) where
  toSecure := secure_empty S path
  present := faithful_empty _ _
  referenced := referenced_empty
  attached := attached_empty
  kept := .inl ⟨rfl, rfl⟩

/-- The saved tables keep what they serve while an operation runs. -/
theorem Lasting.later {S : Set Bytes} {path : Bytes} {d : Deployed β} (h : Lasting S path d)
    {f m : Fabric β} {op : Op β} (hpasses : Passes d.host.fabric op m)
    (hkeyed : Keyed f) (htracked : Tracked f d.host.fabric d.dropped)
    (hfaithful : Faithful Present (keeps d.dropped) ⟨f.onBackendsOf d.host.fabric, d.savedLog⟩) :
    Faithful Present (keeps ((d.host.fabric.evicts op).toList ++ d.dropped))
      ⟨f.onBackendsOf m, d.savedLog⟩ := by
  refine hfaithful.later hpasses.later (fun id p hp hkeep => ?_) ?_
  · obtain ⟨hkept, hid⟩ := keeps_iff.mp hkeep
    exact keeps_iff.mpr ⟨hkept, fun hmem => hid (List.mem_append_right _ hmem)⟩
  · intro id p man hp hkeep hman hk c hc slice hdrawn hpresent
    obtain ⟨hkept, hid⟩ := keeps_iff.mp hkeep
    rw [hkeyed.placements id p hp] at hid
    obtain ⟨q, hq, hmanifest, hevicted, hagain⟩ := htracked id p hp
    have hstill : isEvicted q = false := by
      refine Bool.eq_false_iff.mpr fun hgone => ?_
      obtain hgone | hmem := hevicted hgone
      · rw [hkept] at hgone
        cases hgone
      · exact hid (List.mem_append_right _ hmem)
    have hblob : c.blob ∈ d.host.fabric.blobIds q := by
      rw [blobIds, hmanifest, hagain man hman]
      exact List.mem_map_of_mem hc
    have hother : d.host.fabric.evicts op ≠ some id := fun heq =>
      hid (List.mem_append_left _ (by simp [heq]))
    rw [stored_passes hpasses h.referenced hq hstill hother hblob hdrawn hk]
    exact hpresent

omit [KeyValueBackend β] in
theorem referenced_unused {g : Fabric β} (hg : Unused g) : Referenced g := by
  have hlive : ∀ b, g.liveRefs b = 0 := fun b => by
    rw [liveRefs, hg.blank.placements]
    rfl
  refine ⟨fun id p hp => ?_, fun b => (hlive b).trans_le (Nat.zero_le _), fun b _ => hlive b,
    fun d b hb => ?_⟩
  · rw [hg.blank.placements] at hp
    cases hp
  · rw [hg.index] at hb
    cases hb

theorem Lasting.exec {S : Set Bytes} (hinj : Set.InjOn ContentDigest.of S) {path : Bytes}
    {d : Deployed β} (h : Lasting S path d) {op : Op β} (ho : d.Careful S (.exec op)) :
    Lasting S path (d.step path (.exec op)) := by
  obtain ⟨⟨hinvolves, hdirect⟩, hcareful⟩ := ho
  obtain ⟨hmove, heager⟩ := hcareful op rfl
  have hdemotes : demotes isEvicted d.host.fabric op = false := by rw [demotes, hmove]
  have hkeep : ∀ p, keeps ((d.host.fabric.evicts op).toList ++ d.dropped) p = true →
      keeps d.dropped p = true := fun p hp => by
    obtain ⟨hkept, hid⟩ := keeps_iff.mp hp
    exact keeps_iff.mpr ⟨hkept, fun hmem => hid (List.mem_append_right _ hmem)⟩
  have hpreserves := preserves_present hinj h.stocked h.referenced hinvolves hmove heager
  have hlog : Preserves Present (keeps ((d.host.fabric.evicts op).toList ++ d.dropped))
      d.host.fabric op := by
    refine ⟨fun id p q hp hq hkept => ?_, fun id p q man hp hq hkept => ?_, hpreserves.creates⟩
    · obtain ⟨hstill, hid⟩ := keeps_iff.mp hkept
      have hold := hpreserves.kept id p q hp hq (by rw [hstill]; rfl)
      rw [(h.keyed.exec op).placements id q hq, ← h.keyed.placements id p hp] at hid
      exact keeps_iff.mpr ⟨by simpa using hold, hid⟩
    · have hstill := (keeps_iff.mp hkept).1
      exact hpreserves.holds id p q man hp hq (by rw [hstill]; rfl)
  have hless : Faithful Present (keeps ((d.host.fabric.evicts op).toList ++ d.dropped))
      ⟨d.host.fabric, d.log⟩ :=
    ⟨h.present.manifest, h.present.logged, fun id p hp hkept => h.present.serves id p hp (hkeep p hkept)⟩
  refine ⟨h.toSecure.step hinj (o := .exec op) ⟨hinvolves, hdirect⟩,
    hless.record h.stocked.indexed hlog, h.referenced.exec hdemotes, h.attached.exec op, ?_⟩
  obtain hnone | ⟨f, hrecorded, hkeyed, ⟨hattached, htracked⟩, hfaithful⟩ := h.kept
  · exact .inl hnone
  · exact .inr ⟨f, hrecorded, hkeyed, ⟨hattached, htracked.exec h.attached hmove⟩,
      h.later .after hkeyed htracked hfaithful⟩

theorem Lasting.save {S : Set Bytes} {path : Bytes} {d : Deployed β} (h : Lasting S path d)
    (hwritable : Writable d.host.fabric) (fault : SaveFault) :
    Lasting S path (d.step path (.save fault)) := by
  obtain ⟨last, hlast⟩ := Host.fabric_save d.host.fabric path fault d.host.files
  have hfabric : (d.step path (.save fault)).host.fabric =
      { d.host.fabric with lastSavePath := last } := hlast
  refine ⟨h.toSecure.save hwritable fault, ?_, ?_, ?_, ?_⟩
  · rw [hfabric]
    exact h.present.withPath last
  · rw [hfabric]
    exact h.referenced.congr rfl rfl rfl rfl rfl
  · rw [hfabric]
    exact ⟨h.attached.held, h.attached.own⟩
  · rw [hfabric]
    exact h.kept.save h.present h.keyed ⟨h.attached, tracked_self _ _⟩ hwritable fault

theorem Lasting.crash {S : Set Bytes} {path : Bytes} {d : Deployed β} (h : Lasting S path d)
    {during : Op β} {m : Fabric β} {regs : List (Op β)} (hinvolves : Involves S d.host.fabric during)
    (hpasses : Passes d.host.fabric during m) (hregs : regs.map Op.registers = m.registered)
    (nowNs : UInt64) : Lasting S path (d.step path (.crash during m regs nowNs)) := by
  have hsecure := h.toSecure.crash hinvolves hpasses hregs nowNs
  obtain ⟨hunused, -, hbackends⟩ := reopened (hpasses.numbered h.numbered) hregs
  have hhost := d.host_crash path during m regs nowNs
  have hlog : (d.step path (.crash during m regs nowNs)).log = d.savedLog := rfl
  have hsaved : (d.step path (.crash during m regs nowNs)).savedLog = d.savedLog := rfl
  have hdropped : (d.step path (.crash during m regs nowNs)).dropped =
      (d.host.fabric.evicts during).toList ++ d.dropped := rfl
  generalize d.step path (.crash during m regs nowNs) = d' at *
  generalize Runs.run Fabric.exec ({} : Fabric β) regs = g at *
  obtain ⟨hnone, hnil⟩ | ⟨f, hrecorded, hkeyed, ⟨hattached, htracked⟩, hfaithful⟩ := h.kept
  · obtain ⟨snap, hsome, -⟩ | ⟨-, -, hsame⟩ := g.recover_cases path d.host.files nowNs
    · rw [hnone] at hsome
      cases hsome
    · have hfabric : d'.host.fabric = g := by rw [hhost, hsame]
      -- nothing was saved: the new runtime has no placement to speak of
      have hempty : ∀ id p, g.placements.lookup id ≠ some p := fun id p hp => by
        rw [hunused.blank.placements] at hp
        cases hp
      refine ⟨hsecure, ?_, ?_, ?_, .inl ⟨?_, hsaved.trans hnil⟩⟩
      · rw [hfabric, hlog, hnil]
        exact ⟨fun id p hp => absurd hp (hempty id p), nofun, fun id p hp => absurd hp (hempty id p)⟩
      · rw [hfabric]
        exact referenced_unused hunused
      · rw [hfabric]
        exact ⟨fun id p hp => absurd hp (hempty id p), fun id _ p _ hp => absurd hp (hempty id p)⟩
      · rw [hhost]
        exact hnone
  · rw [recover_recorded hrecorded] at hhost
    have hfabric : d'.host.fabric = g.restore f.snapshot path (workerBootNonce nowNs) := by
      rw [hhost]
    have hplacements := hkeyed.lookup_placements hunused.blank path (workerBootNonce nowNs)
    have hmanifests := hunused.blank.lookup_manifests path (workerBootNonce nowNs) hkeyed.manifests
    obtain ⟨hlive, hagain⟩ := (h.later hpasses hkeyed htracked hfaithful).recovered hkeyed
      hunused.blank hbackends path (workerBootNonce nowNs)
    refine ⟨hsecure, ?_, ?_, ?_, .inr ⟨f, ?_, hkeyed, ⟨hattached, ?_⟩, ?_⟩⟩
    · rwa [hfabric, hlog, hdropped]
    · rw [hfabric]
      exact referenced_restore hkeyed hattached hunused path _
    · rw [hfabric]
      exact hattached.congr hplacements hmanifests
    · rw [hhost]
      exact hrecorded
    · rw [hfabric]
      exact fun id p hp => ⟨p, (hplacements id).trans hp, rfl, .inl, fun man hman =>
        (hmanifests _).trans hman⟩
    · rwa [hfabric, hsaved, hdropped]

theorem Lasting.step {S : Set Bytes} (hinj : Set.InjOn ContentDigest.of S) {path : Bytes}
    {d : Deployed β} (h : Lasting S path d) {o : DeployOp β} (ho : d.Careful S o) :
    Lasting S path (d.step path o) := by
  cases o with
  | exec op => exact h.exec hinj ho
  | save fault => exact h.save ho.1 fault
  | crash during m regs nowNs => exact h.crash ho.1.1 ho.1.2.1 ho.1.2.2 nowNs

/-- Without movements and with verified publications, an available placement that nobody has
evicted, also not since the save, reads as what it was published with, however often
the process was killed. -/
theorem available_survives_crashes {S : Set Bytes} (hinj : Set.InjOn ContentDigest.of S)
    (path : Bytes) (ops : List (DeployOp β)) (hops : Runs.Along (step path) (Careful S) {} ops)
    (hreadable : ∀ k be, (Runs.run (step path) {} ops).host.fabric.backends.lookup k = some be →
      KeyValueBackend.Readable be) :
    let d := Runs.run (step path) {} ops
    ∀ id p, d.host.fabric.placements.lookup id = some p → isAvailable p = true → id ∉ d.dropped →
      ∃ content, (∀ x, (id, x) ∈ d.log ↔ x = content) ∧
        ∀ o, (d.host.fabric.read o (some id)).1 = .ok content := by
  intro d id p hp havail hdropped
  have hlasting : Lasting S path d :=
    Runs.invariant (I := Lasting S path) (fun _ _ h ho => h.step hinj ho) (lasting_empty S path) hops
  have hkeep : keeps d.dropped p = true := by
    rw [keeps_iff, hlasting.keyed.placements id p hp]
    exact ⟨isEvicted_of_isAvailable havail, hdropped⟩
  obtain ⟨man, parts, hserves, hlog⟩ := hlasting.present.serves id p hp hkeep
  exact ⟨parts.flatten, hlog, fun o => hserves.read (lookupForRead_eq hp hserves.manifest o)
    fun be hbe => hreadable p.backend be hbe⟩

end Contents

/-! ### A small history -/

/-- The object is published and the store saved. -/
def openingRun : List (DeployOp SyntheticBackend) :=
  (Small.opening ++ [Small.verified]).map .exec

def opened : Deployed SyntheticBackend := Runs.run (step (ascii "m")) {} openingRun

/-- It is saved, and the object published once more. -/
def forgottenRun : List (DeployOp SyntheticBackend) := [.save .none, .exec Small.verified]

def forgotten : Deployed SyntheticBackend := Runs.run (step (ascii "m")) opened forgottenRun

/-- The second publication is forgotten in the crash. -/
def crashRun : List (DeployOp SyntheticBackend) :=
  openingRun ++ (forgottenRun ++ [.crash Small.verified forgotten.host.fabric
    [.registerSyntheticBackend (ascii "small") {}
      ((forgotten.host.fabric.backends.lookup ⟨1⟩).getD {})] 0])

theorem involves_small {op : Op SyntheticBackend} (hop : op ∈ Small.opening ++ [Small.verified])
    (f : Fabric SyntheticBackend) : Involves {[7]} f op := by
  have hsilent : f.call op = none →
      (∀ be, op.registers = some be → ∀ b, KeyValueBackend.view be (blobKey b) = none) →
        Involves {[7]} f op := by
    intro hcall hregisters
    constructor
    · intro c g h
      rw [hcall] at h
      cases h
    · intro be hbe b data hdata
      rw [hregisters be hbe b] at hdata
      cases hdata
  simp only [Small.opening, List.cons_append, List.nil_append, List.mem_cons, List.not_mem_nil,
    or_false] at hop
  obtain rfl | rfl | rfl | rfl := hop
  · refine hsilent rfl fun be hbe b => ?_
    cases hbe
    rfl
  · exact hsilent rfl fun be hbe => by cases hbe
  · exact hsilent rfl fun be hbe => by cases hbe
  · refine ⟨fun c g h slice hslice => ?_, fun be hbe => by cases hbe⟩
    cases h
    exact List.mem_singleton.mp hslice

theorem careful_small {op : Op SyntheticBackend} (hop : op ∈ Small.opening ++ [Small.verified])
    (d : Deployed SyntheticBackend) : d.Careful {[7]} (.exec op) := by
  have hplain : op.moves = none ∧ op.eager = true :=
    (by decide : ∀ op ∈ Small.opening ++ [Small.verified], op.moves = none ∧ op.eager = true) op hop
  refine ⟨⟨involves_small hop _, ?_⟩, fun op' heq => DeployOp.exec.inj heq ▸ hplain⟩
  rintro ⟨c, g, p, hcall, -, hlazy, -⟩
  rw [eager_of_call hcall, hplain.2] at hlazy
  cases hlazy

theorem along_openingRun : Runs.Along (step (ascii "m")) (Careful {[7]}) {} openingRun := by
  refine Runs.along_of_mem fun d o ho => ?_
  obtain ⟨op, hop, rfl⟩ := List.mem_map.mp ho
  exact careful_small hop d

set_option maxRecDepth 20000 in
theorem writable_opened : Writable opened.host.fabric := by
  have hstorable : opened.host.fabric.snapshot.Storable := by decide +kernel
  have hdistinct : opened.host.fabric.snapshot.Distinct := by decide +kernel
  have hshort : ((encPayload opened.host.fabric.snapshot).all
      fun payload => decide (payload.length < 2 ^ 32)) = true := by decide +kernel
  generalize opened.host.fabric = f at *
  refine ⟨hstorable, hdistinct, fun payload hpayload => ?_⟩
  rw [hpayload] at hshort
  exact of_decide_eq_true hshort

theorem along_forgottenRun : Runs.Along (step (ascii "m")) (Careful {[7]}) opened forgottenRun :=
  ⟨careful_save writable_opened .none, careful_small (by simp) _, trivial⟩

set_option maxRecDepth 20000 in
theorem registers_forgotten :
    [(.registerSyntheticBackend (ascii "small") {}
      ((forgotten.host.fabric.backends.lookup ⟨1⟩).getD {}) : Op SyntheticBackend)].map
        Op.registers = forgotten.host.fabric.registered := by
  have hrun : forgotten.host.fabric.backendCounter = 2 ∧
      (forgotten.host.fabric.backends.lookup ⟨1⟩).isSome = true := by decide +kernel
  generalize forgotten.host.fabric = f at *
  obtain ⟨be, hbe⟩ := Option.isSome_iff_exists.mp hrun.2
  rw [registered, hrun.1, hbe]
  show [some be] = [f.backends.lookup ⟨1⟩]
  rw [hbe]

theorem careful_crashRun : Runs.Along (step (ascii "m")) (Careful {[7]}) {} crashRun :=
  Runs.along_append.mpr ⟨along_openingRun, Runs.along_append.mpr ⟨along_forgottenRun,
    careful_crash (involves_small (by simp) _) .before registers_forgotten 0, trivial⟩⟩

/-- The forgotten publication is forgotten, and nothing wrong is read. -/
theorem reads_survive_crashes_small :
    let d := Runs.run (step (ascii "m")) {} crashRun
    (∀ o id data, (d.host.fabric.read o (some id)).1 = .ok data →
      ∀ x, (id, x) ∈ d.log ↔ x = data) ∧
    ∀ o data, (d.host.fabric.read o none).1 = .ok data →
      ∃ id p, d.host.fabric.placements.lookup id = some p ∧ p.object = o ∧ isAvailable p = true ∧
        ∀ x, (id, x) ∈ d.log ↔ x = data :=
  reads_survive_crashes (Set.injOn_singleton _ _) (ascii "m") crashRun
    (careful_crashRun.mono fun _ _ h => h.1)

set_option maxRecDepth 20000 in
/-- The saved placement is read after the crash. -/
theorem available_survives_crashes_small :
    let d := Runs.run (step (ascii "m")) {} crashRun
    ∃ content, (∀ x, (⟨1⟩, x) ∈ d.log ↔ x = content) ∧
      ∀ o, (d.host.fabric.read o (some ⟨1⟩)).1 = .ok content := by
  have hrun : (((Runs.run (step (ascii "m")) {} crashRun).host.fabric.placements.lookup ⟨1⟩).any
      isAvailable = true ∧ (Runs.run (step (ascii "m")) {} crashRun).dropped = []) ∧
      ∀ be ∈ (Runs.run (step (ascii "m")) {} crashRun).host.fabric.backends.values,
        be.profile.unavailable = false := by decide +kernel
  obtain ⟨⟨havail, hdropped⟩, hhealthy⟩ := hrun
  obtain ⟨p, hp, hp'⟩ := (Option.any_eq_true _ _).mp havail
  exact available_survives_crashes (Set.injOn_singleton _ _) (ascii "m") crashRun careful_crashRun
    (fun k be hbe => SyntheticBackend.readable_of_available
      (hhealthy be (AList.mem_values_of_lookup hbe))) ⟨1⟩ p hp hp' (by rw [hdropped]; exact nofun)

end Deployed

end StorageFabric
