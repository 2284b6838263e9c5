import StorageFabric.Runtime.Publish

/-!
Reading and verifying a placement, and the operations built from a read and a
publication: replication and movement.

A read looks the placement and its manifest up under the lock and then reads
the chunks from the backend without it, so every chunk may be read from a
later state of the backend. `readChunks` takes the backend object for each
chunk; the sequential read passes the same one for all.
-/

namespace StorageFabric

structure VerifyResult where
  ok : Bool := false
  code : StatusCode := .ok
  size : Nat := 0
  digest : ContentDigest := default
  deriving DecidableEq

namespace Fabric

variable {β : Type}

def isAvailable (p : PlacementRecord) : Bool := p.lifecycle = .known .available

def findAuthoritativePlacement (f : Fabric β) (object : ObjectId) : Result PlacementRecord :=
  match f.placements.values.find? fun p => p.object = object && isAvailable p with
  | some p => .ok p
  | none => Result.fail .notFound "no authoritative placement for object"

/-- The locked part of `read`: the placement read and its manifest. -/
def lookupForRead (f : Fabric β) (object : ObjectId) (placement : Option PlacementId) :
    Result (PlacementRecord × Manifest) :=
  let found : Result PlacementRecord :=
    match placement with
    | some id =>
        match f.placements.lookup id with
        | none => Result.fail .notFound "placement not found"
        | some p => .ok p
    | none => f.findAuthoritativePlacement object
  match found with
  | .error s => .error s
  | .ok p =>
      match f.manifests.lookup p.manifest with
      | none => Result.fail .notFound "manifest not found"
      | some man => .ok (p, man)

variable [StorageBackend β]

/-- The loop over the chunks, each with the backend object it is read from. -/
def readChunks : List (β × ChunkDescriptor) → Result Bytes
  | [] => .ok []
  | (be, c) :: rest =>
      match StorageBackend.read be (blobKey c.blob) with
      | .error _ => Result.fail .ioError "chunk read failed"
      | .ok chunk =>
          if chunk.length ≠ c.physicalLength.toNat then
            Result.fail .lengthMismatch "chunk length mismatch"
          else
            match readChunks rest with
            | .error s => .error s
            | .ok out => .ok (chunk ++ out)

/-- The last check of `read`. -/
def checkLength (man : Manifest) (out : Bytes) : Result Bytes :=
  if out.length ≠ man.totalLogicalLength.toNat then
    Result.fail .lengthMismatch "reassembled length mismatch"
  else .ok out

/-- The bytes that the chunks are stored in. -/
def chunkBytes (chunks : List ChunkDescriptor) : Nat :=
  chunks.foldr (fun c n => c.physicalLength.toNat + n) 0

/-- `out.reserve(man.total_logical_length)`, which throws for more bytes than a vector
can have. If the chunks make up that length it is left to the loop, which has no
memory for them either. -/
def reserveOut (man : Manifest) : Result Unit :=
  if 2 ^ 63 ≤ man.totalLogicalLength.toNat ∧
      chunkBytes man.chunks ≠ man.totalLogicalLength.toNat then
    Result.fail .internal "vector::reserve"
  else .ok ()

/-- A vector can have the length of the manifest, or the chunks make it up. -/
def Reservable (man : Manifest) : Prop :=
  man.totalLogicalLength.toNat < 2 ^ 63 ∨ chunkBytes man.chunks = man.totalLogicalLength.toNat

theorem reserveOut_ok_iff {man : Manifest} : reserveOut man = .ok () ↔ Reservable man := by
  unfold reserveOut
  split
  · next h =>
      refine iff_of_false (fun hok => ?_) fun hor => hor.elim (Nat.not_lt.mpr h.1) h.2
      cases hok
  · next h =>
      refine iff_of_true rfl ?_
      rw [not_and_or, Nat.not_le, not_not] at h
      exact h

theorem reserveOut_of_stored {man : Manifest}
    (h : chunkBytes man.chunks = man.totalLogicalLength.toNat) : reserveOut man = .ok () :=
  reserveOut_ok_iff.mpr (.inr h)

theorem chunkBytes_of_lengths {chunks : List ChunkDescriptor} {parts : List Bytes}
    (h : List.Forall₂ (fun c slice => c.physicalLength.toNat = slice.length) chunks parts) :
    chunkBytes chunks = parts.flatten.length := by
  induction h with
  | nil => rfl
  | cons hlength _ ih =>
      rw [List.flatten_cons, List.length_append, ← hlength, ← ih]
      rfl

/-- The counter of active reads is raised by the lookup and lowered only after
the last chunk, so a read that fails in between leaves it raised. -/
def read (f : Fabric β) (object : ObjectId) (placement : Option PlacementId) :
    Result Bytes × Fabric β :=
  match f.lookupForRead object placement with
  | .error s => (.error s, f)
  | .ok (p, man) =>
      let f := f.account fun a => { a with activeReads := a.activeReads + 1 }
      match f.getBackend p.backend with
      | .error s => (.error s, f)
      | .ok be =>
          match reserveOut man with
          | .error s => (.error s, f)
          | .ok () =>
              match readChunks (man.chunks.map fun c => (be, c)) with
              | .error s => (.error s, f)
              | .ok out =>
                  let f := f.account fun a =>
                    if 0 < a.activeReads then { a with activeReads := a.activeReads - 1 } else a
                  (checkLength man out, f)

/-- The loop of `verify`, which compares no lengths. -/
def verifyRead (be : β) : List ChunkDescriptor → Result Bytes
  | [] => .ok []
  | c :: cs =>
      match StorageBackend.read be (blobKey c.blob) with
      | .error _ => Result.fail .ioError "chunk read failed"
      | .ok chunk =>
          match verifyRead be cs with
          | .error s => .error s
          | .ok out => .ok (chunk ++ out)

def verify (f : Fabric β) (placement : PlacementId) : Result VerifyResult × Fabric β :=
  match f.lookupForRead default (some placement) with
  | .error s => (.error s, f)
  | .ok (p, man) =>
      match f.getBackend p.backend with
      | .error s => (.error s, f)
      | .ok be =>
          match reserveOut man with
          | .error s => (.error s, f)
          | .ok () =>
              match verifyRead be man.chunks with
              | .error s => (.error s, f)
              | .ok out =>
                  let got := ContentDigest.of out
                  if got ≠ p.digest then
                    (.ok { ok := false, code := .digestMismatch, size := out.length, digest := got },
                      f.account fun a => { a with integrityFailures := a.integrityFailures + 1 })
                  else (.ok { ok := true, code := .ok, size := out.length, digest := got }, f)

/-- The options a replication publishes with. -/
def replicateOptions (source : PlacementRecord) (opts : PublishOptions) : PublishOptions :=
  if opts.requiredReplicas = 0 then { opts with requiredReplicas := source.durabilityReplicas }
  else opts

def replicate (f : Fabric β) (source : PlacementRecord) (target : StorageBackendId)
    (opts : PublishOptions) : Result PlacementRecord × Fabric β :=
  match f.catalog.lookup source.object with
  | none => (Result.fail .notFound "object not in catalog", f)
  | some entry =>
      match f.read source.object (some source.id) with
      | (.error s, f) => (.error s, f)
      | (.ok data, f) => f.publishTo entry.object data target (replicateOptions source opts)

def demote (f : Fabric β) (id : PlacementId) : Fabric β :=
  { f with placements := f.placements.modify id fun p => { p with lifecycle := .known .stale } }

def move (f : Fabric β) (source : PlacementRecord) (target : StorageBackendId)
    (opts : PublishOptions) : Result PlacementRecord × Fabric β :=
  match f.replicate source target opts with
  | (.error s, f) => (.error s, f)
  | (.ok p, f) => (.ok p, f.demote source.id)

end Fabric

end StorageFabric
