import StorageFabric.Persist.Snapshot
import StorageFabric.Runtime.State

/-!
Saving the metadata and recovering it.

The file system is a table from paths to contents. What can go wrong with a
write, and the nonce that a recovery draws from the clock, are arguments.
-/

namespace StorageFabric

open Persist

/-- What the file system does to a save. -/
inductive SaveFault
  | none
  | cannotOpen
  /-- The write ends early and leaves `written` in the temporary file. -/
  | cannotWrite (written : Bytes)
  | cannotRename (message : Bytes)
  deriving DecidableEq

namespace Fabric

variable {β : Type}

def snapshot (f : Fabric β) : MetadataSnapshot where
  epoch := f.authority.epoch
  authority := f.authority
  policyGeneration := f.policyGeneration
  savedAtMs := 0
  accounting := f.accounting
  objects := f.objects
  replicaSets := f.replicaSets
  manifests := f.manifests.values
  placements := f.placements.values
  backends := f.backendDescriptors.values

def save (f : Fabric β) (path : Bytes) (fault : SaveFault) (files : Table Bytes Bytes) :
    Status × Fabric β × Table Bytes Bytes :=
  match serializeSnapshot f.snapshot with
  | .error s => (⟨s.code, ascii "serialize failed: " ++ s.message⟩, f, files)
  | .ok (_, blob) =>
      let tmp := path ++ ascii ".tmp"
      match fault with
      | .cannotOpen => (.of .ioError "cannot open metadata temp file", f, files)
      | .cannotWrite written =>
          (.of .ioError "metadata temp write failed", f, files.insert tmp written)
      | .cannotRename message =>
          (⟨.ioError, ascii "metadata rename failed: " ++ message⟩, f,
            (files.insert tmp blob).erase tmp)
      | .none =>
          (.okStatus, { f with lastSavePath := path },
            ((files.insert tmp blob).erase tmp).insert path blob)

/-! ### Recovery -/

def recoverObject (f : Fabric β) (o : ObjectDescriptor) : Fabric β :=
  { f with catalog := f.catalog.emplace o.id { object := o } }

def recoverReplicaSet (f : Fabric β) (rs : ReplicaSet) : Fabric β :=
  { f with catalog := f.catalog.modify rs.object fun e => { e with replicaSet := rs } }

def recoverManifest (f : Fabric β) (m : Manifest) : Fabric β :=
  { f with manifests := f.manifests.emplace m.id m }

def recoverPlacement (f : Fabric β) (p : PlacementRecord) : Fabric β :=
  { f with
    placements := f.placements.emplace p.id p
    catalog := f.catalog.modify p.object fun e => { e with placements := e.placements ++ [p.id] } }

def recoverBackend (f : Fabric β) (b : BackendDescriptor) : Fabric β :=
  { f with backendDescriptors := f.backendDescriptors.emplace b.id b }

/-- One turn of the loop that rebuilds the blob maps. -/
def recoverChunk (f : Fabric β) (c : ChunkDescriptor) : Fabric β :=
  { f with
    blobDigest := f.blobDigest.insert c.blob c.digest
    blobSizes := f.blobSizes.insert c.blob c.physicalLength
    blobByDigest := f.blobByDigest.insert c.digest c.blob
    blobRefs := RefCount.retain c.blob f.blobRefs }

/-- The maps are repopulated from the snapshot; what is there already stays. -/
def repopulate (f : Fabric β) (snap : MetadataSnapshot) : Fabric β :=
  let f := snap.objects.foldl recoverObject f
  let f := snap.replicaSets.foldl recoverReplicaSet f
  let f := snap.manifests.foldl recoverManifest f
  let f := snap.placements.foldl recoverPlacement f
  let f := snap.backends.foldl recoverBackend f
  { f with accounting := snap.accounting }

/-- The blob maps are rebuilt from the chunks of all manifests. -/
def rebuildBlobs (f : Fabric β) : Fabric β :=
  let f := (f.manifests.values.flatMap Manifest.chunks).foldl recoverChunk f
  { f with
    blobCounter := f.blobRefs.keys.foldl
      (fun counter b => if counter ≤ b.value then b.value + 1 else counter) f.blobCounter }

def recoveredAuthority (epoch : CoordinatorEpoch) (nonce : Nat) : AuthorityEnvelope where
  epoch := epoch.next
  boot := ⟨nonce⟩
  worker := ⟨0⟩
  generation := ⟨1⟩
  origin := .known .recovery

/-- The observations of the registered backends have to be validated again. -/
def downgradeBackends (f : Fabric β) : Fabric β :=
  { f with
    backendDescriptors := f.backends.keys.foldl
      (fun t id => t.modify id fun b => { b with freshness := .known .revalidationRequired })
      f.backendDescriptors }

def restore (f : Fabric β) (snap : MetadataSnapshot) (path : Bytes) (nonce : Nat) : Fabric β :=
  let f := (f.repopulate snap).rebuildBlobs
  let f := ({ f with
    authority := recoveredAuthority snap.epoch nonce
    recovered := true
    recoveryNote := ascii "Recovered metadata; live worker authority cleared; backend " ++
      ascii "observations require revalidation" } : Fabric β).account fun a =>
    { a with participantRestarts := a.participantRestarts + 1 }
  { f.downgradeBackends with lastSavePath := path }

/-- The low 56 bits of the clock. -/
def workerBootNonce (nowNs : UInt64) : Nat := nowNs.toNat % 2 ^ 56

def recover (f : Fabric β) (path : Bytes) (files : Table Bytes Bytes) (nowNs : UInt64) :
    Status × Fabric β :=
  match files.lookup path with
  | none => (.of .notFound "metadata file not found", f)
  | some bytes =>
      if bytes.isEmpty then (.of .truncated "empty metadata file", f)
      else
        match deserializeSnapshot bytes {} with
        | .error s => (⟨s.code, ascii "deserialize failed: " ++ s.message⟩, f)
        | .ok (_, snap) => (.okStatus, f.restore snap path (workerBootNonce nowNs))

/-! ### Outcomes -/

theorem save_ok {f : Fabric β} {path : Bytes} {fault : SaveFault} {files : Table Bytes Bytes}
    (h : (f.save path fault files).1.isOk = true) :
    ∃ res blob, serializeSnapshot f.snapshot = .ok (res, blob) ∧
      (f.save path fault files).2.1 = { f with lastSavePath := path } ∧
      (f.save path fault files).2.2.lookup path = some blob := by
  cases hserial : serializeSnapshot f.snapshot with
  | error s =>
      have hcode : s.code = .internal := by
        unfold serializeSnapshot at hserial
        split at hserial
        · rw [← Except.error.inj hserial]
        · cases hserial
      simp [save, hserial, Status.isOk, hcode] at h
  | ok p =>
      obtain ⟨res, blob⟩ := p
      cases fault with
      | none =>
          simp only [save, hserial]
          exact ⟨res, blob, rfl, trivial, AList.lookup_insert _⟩
      | cannotOpen => simp [save, hserial, Status.isOk, Status.of] at h
      | cannotWrite written => simp [save, hserial, Status.isOk, Status.of] at h
      | cannotRename message => simp [save, hserial, Status.isOk] at h

/-- The snapshot that a file holds. -/
def recorded (files : Table Bytes Bytes) (path : Bytes) : Option MetadataSnapshot :=
  (files.lookup path).bind fun bytes => (deserializeSnapshot bytes {}).toOption.map Prod.snd

/-- A recovery restores the snapshot that the file holds, and otherwise fails and
changes nothing. -/
theorem recover_cases (f : Fabric β) (path : Bytes) (files : Table Bytes Bytes) (nowNs : UInt64) :
    (∃ snap, recorded files path = some snap ∧
      f.recover path files nowNs = (.okStatus, f.restore snap path (workerBootNonce nowNs))) ∨
    (recorded files path = none ∧ (f.recover path files nowNs).1.isOk = false ∧
      (f.recover path files nowNs).2 = f) := by
  unfold recorded recover
  cases hfile : files.lookup path with
  | none => exact .inr ⟨rfl, rfl, rfl⟩
  | some bytes =>
      cases bytes with
      | nil => exact .inr ⟨rfl, rfl, rfl⟩
      | cons b bs =>
          cases hblob : deserializeSnapshot (b :: bs) {} with
          | error s =>
              refine .inr ⟨by simp [hblob, Except.toOption], ?_, by simp [hblob]⟩
              have hcode := deserialize_error hblob
              simp only [hblob, List.isEmpty_cons, Bool.false_eq_true, if_false]
              exact hcode
          | ok p => exact .inl ⟨p.2, by simp [hblob, Except.toOption], by simp [hblob]⟩

end Fabric

end StorageFabric
