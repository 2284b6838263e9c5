import StorageFabric.Persist.Written

/-!
What lies where in a payload.

Of some fields the decoder takes whatever it finds, and of some lists it does not
compare the elements. `payloadFields` steps over a payload by the widths of its fields
and picks these out as they are there: the bytes of the enumerations that are only
cast, the ids of the backends and of the replica sets, and the compatibility keys in
their order.
-/

namespace StorageFabric

open ByteWriter ByteReader Codec Persist

namespace Persist

/-- An enumeration field: its byte, and how many enumerators are declared. -/
structure EnumField where
  byte : UInt8
  declared : Nat
  deriving DecidableEq

namespace EnumField

def Valid (e : EnumField) : Prop := e.byte.toNat < e.declared

instance (e : EnumField) : Decidable e.Valid := inferInstanceAs (Decidable (_ < _))

def of {E : Type} [Enumerators E] [DecidableEq E] (v : EnumValue E) : EnumField where
  byte := v.toByte
  declared := (Enumerators.all E).length

theorem valid_of_iff {E : Type} [Enumerators E] [DecidableEq E] {v : EnumValue E} :
    (of v).Valid ↔ v.Declared := (EnumValue.declared_iff v).symm

end EnumField

/-! ### Stepping over fields -/

def skip (n : Nat) : ByteReader Unit := do
  let _ ← readBytes n
  return ()

def skipBlob : ByteReader Unit := do
  let _ ← readBlob
  return ()

/-- A byte of an enumeration field of the type `E`. -/
def enumField (E : Type) [Enumerators E] : ByteReader EnumField := do
  let byte ← readU8
  return { byte, declared := (Enumerators.all E).length }

def counted {α : Type} (r : ByteReader α) : ByteReader (List α) := do
  let n ← readU32
  many r n.toNat

/-- An object: the enumerations that are cast, and the compatibility keys. -/
def objectFields : ByteReader (List EnumField × List Bytes) := do
  -- id, generation, kind, size, digest, owner
  skip 8; skip 8; skip 1; skip 8; skipBlob; skip 8
  let origin ← enumField AuthorityOrigin
  -- worker, boot, authority generation, creator
  skip 8; skip 8; skip 8; skipBlob
  skip 4
  let restorePriority ← enumField RestorePriority
  let preferred ← enumField StorageClass
  skipBlob
  let retention ← enumField RetentionPolicy
  skip 8
  let _ ← counted (skip 8)
  let keys ← counted do
    let key ← readBlob
    skipBlob
    return key
  skip 8
  return ([origin, restorePriority, preferred, retention], keys)

def skipChunk : ByteReader Unit := do
  skip 8; skip 8; skip 8; skip 8; skip 8; skipBlob; skip 8; skip 1

def skipManifest : ByteReader Unit := do
  skip 8; skip 8; skip 8; skip 8; skip 8; skipBlob
  let _ ← counted skipChunk
  return ()

def placementFields : ByteReader (List EnumField) := do
  -- id, object and its generation, replica and its generation, backend, tier, volume
  skip 8; skip 8; skip 8; skip 8; skip 8; skip 8; skip 8; skip 8
  -- key, manifest, the two sizes, digest, durability, locality
  skipBlob; skip 8; skip 8; skip 8; skipBlob; skip 4; skipBlob
  let lifecycle ← enumField PlacementLifecycle
  let freshness ← enumField Freshness
  skip 8
  let provenance ← enumField AuthorityOrigin
  -- writer's worker and boot, placement generation, the two times
  skip 8; skip 8; skip 8; skip 8; skip 8
  return [lifecycle, freshness, provenance]

def skipReplica : ByteReader Unit := do
  skip 8; skip 8; skip 8; skip 8; skipBlob; skip 8; skip 8; skip 1; skip 8; skip 1

def replicaSetField : ByteReader Nat := do
  let object ← readWord 8
  skip 8; skip 4; skip 4; skip 4; skip 4; skip 1; skip 8
  let _ ← counted skipReplica
  skip 8
  return object

def backendField : ByteReader Nat := do
  let id ← readWord 8
  skip 8; skip 8; skipBlob; skip 8
  skip 8; skip 8; skip 8; skip 8; skip 8; skip 1
  let _ ← counted (skip 1)
  skip 1; skip 1; skip 1; skip 8
  return id

/-- What a payload holds in the fields that its decoder does not check. -/
structure PayloadFields where
  objects : List (List EnumField × List Bytes)
  placements : List (List EnumField)
  replicaSets : List Nat
  backends : List Nat
  deriving DecidableEq

def skipTransfer : ByteReader Unit := do
  skip 8; skip 1; skip 8; skip 8; skip 8; skip 8; skip 1; skip 8

def skipAuthority : ByteReader Unit := do
  skip 8; skip 8; skip 8; skip 8; skip 1

def skipAccounting : ByteReader Unit := do
  let _ ← many (skip 8) 21
  return ()

def payloadFields : ByteReader PayloadFields := do
  -- version, epoch, authority, policy generation, time, accounting
  skip 1; skip 8; skipAuthority; skip 8; skip 8; skipAccounting
  let objects ← counted objectFields
  let _ ← counted skipManifest
  let placements ← counted placementFields
  let replicaSets ← counted replicaSetField
  let backends ← counted backendField
  let _ ← counted skipTransfer
  let _ ← counted skipAuthority
  return { objects, placements, replicaSets, backends }

/-! ### What was written is stepped over -/

section Steps

variable {Tag E α β : Type} [Enumerators E] [DecidableEq E]

theorem reads_skip {bs : Bytes} {n : Nat} (h : bs.length = n) : Reads (some bs) (skip n) () := by
  refine reads_some fun rest => ?_
  have hread : (readBytes n).run (bs ++ rest) = some (bs, rest) := readBytes_eq_some.mpr ⟨h, rfl⟩
  rw [skip, StateT.run_bind, hread]
  rfl

theorem skips_id (id : StrongId Tag) : Reads (encId id) (skip 8) () :=
  reads_skip (LittleEndian.length_encode 8 _)

theorem skips_g (g : Generation Tag) : Reads (encG g) (skip 8) () := reads_skip (length_putU64 _)

theorem skips_u64 (v : UInt64) : Reads (encU64 v) (skip 8) () := reads_skip (length_putU64 _)

theorem skips_i64 (v : Int64) : Reads (encI64 v) (skip 8) () := reads_skip (length_putU64 _)

theorem skips_u32 (v : UInt32) : Reads (encU32 v) (skip 4) () := reads_skip (length_putU32 _)

theorem skips_enum (e : EnumValue E) : Reads (encEnum e) (skip 1) () := reads_skip rfl

theorem skips_bool (b : Bool) : Reads (encBool b) (skip 1) () := reads_skip rfl

theorem reads_enumField (e : EnumValue E) : Reads (encEnum e) (enumField E) (.of e) :=
  (reads_u8 e.toByte).andThen fun _ => rfl

theorem reads_blob {b : Bytes} (h : b.length < 2 ^ 32) : Reads (some (putBlob b)) readBlob b :=
  reads_some fun _ => readBlob_eq_some.mpr ⟨h, rfl⟩

theorem skips_digest (d : ContentDigest) : Reads (encDigest d) skipBlob () := by
  have hshort : d.bytes.length < 2 ^ 32 := by
    rw [d.size]
    decide
  exact (reads_blob hshort).andThen fun _ => rfl

theorem reads_strBlob (s : Bytes) : Reads (encStr s) readBlob s := by
  intro bs hbs
  by_cases hs : kMetaMaxString < s.length
  · rw [encStr, if_pos hs] at hbs
    cases hbs
  · rw [encStr, if_neg hs] at hbs
    exact reads_blob (Nat.lt_of_le_of_lt (Nat.le_of_not_lt hs) (by decide)) bs hbs

theorem skips_str (s : Bytes) : Reads (encStr s) skipBlob () :=
  (reads_strBlob s).andThen fun _ => rfl

theorem reads_idWord {id : StrongId Tag} (h : id.value < 2 ^ 64) :
    Reads (encId id) (readWord 8) id.value :=
  reads_some fun _ => readWord_eq_some.mpr ⟨h, rfl⟩

theorem reads_vecMap {enc : α → Writer} {r : ByteReader β} {f : α → β} {l : List α}
    (h : ∀ a ∈ l, Reads (enc a) r (f a)) : Reads (encVec enc l) (counted r) (l.map f) := by
  intro bs hbs
  obtain ⟨hl, hbs⟩ := encVec_some hbs
  have hword : (UInt32.ofNat l.length).toNat = l.length := by
    rw [UInt32.toNat_ofNat', Nat.mod_eq_of_lt]
    exact Nat.lt_of_le_of_lt hl (by decide)
  have hmany : Reads (fields (l.map enc)) (many r (UInt32.ofNat l.length).toNat) (l.map f) := by
    rw [hword]
    exact reads_many_map h
  exact (reads_u32 (UInt32.ofNat l.length)).field hmany bs hbs

end Steps

def castFields (o : ObjectDescriptor) : List EnumField :=
  [.of o.provenance.origin, .of o.restorePriority, .of o.locality.preferred, .of o.retention]

theorem reads_objectFields (p : OrderedObject) :
    Reads (encOrdered p) objectFields (castFields p.object, p.entries.map Prod.fst) := by
  have hentry : ∀ kv : Bytes × Bytes, Reads (fields [encStr kv.1, encStr kv.2]) (do
      let key ← readBlob
      skipBlob
      return key) kv.1 := fun kv =>
    (reads_strBlob kv.1).field ((skips_str kv.2).field .done)
  refine (skips_id _).field ?_
  refine (skips_g _).field ?_
  refine (skips_enum _).field ?_
  refine (skips_u64 _).field ?_
  refine (skips_digest _).field ?_
  refine (skips_id _).field ?_
  refine (reads_enumField _).field ?_
  refine (skips_id _).field ?_
  refine (skips_id _).field ?_
  refine (skips_g _).field ?_
  refine (skips_str _).field ?_
  refine (skips_u32 _).field ?_
  refine (reads_enumField _).field ?_
  refine (reads_enumField _).field ?_
  refine (skips_str _).field ?_
  refine (reads_enumField _).field ?_
  refine (skips_g _).field ?_
  refine (reads_vecMap fun d _ => skips_id d).field ?_
  refine (reads_vecMap fun kv _ => hentry kv).field ?_
  refine (skips_i64 _).field ?_
  exact .done

theorem skips_chunk (c : ChunkDescriptor) : Reads (encChunk c) skipChunk () := by
  refine (skips_id _).field ?_
  refine (skips_g _).field ?_
  refine (skips_u64 _).field ?_
  refine (skips_u64 _).field ?_
  refine (skips_u64 _).field ?_
  refine (skips_digest _).field ?_
  refine (skips_id _).field ?_
  exact (skips_enum _).last

theorem skips_manifest (m : Manifest) : Reads (encManifest m) skipManifest () := by
  refine (skips_id _).field ?_
  refine (skips_g _).field ?_
  refine (skips_id _).field ?_
  refine (skips_g _).field ?_
  refine (skips_u64 _).field ?_
  refine (skips_digest _).field ?_
  refine (reads_vecMap fun c _ => skips_chunk c).field ?_
  exact .done

def placementCastFields (p : PlacementRecord) : List EnumField :=
  [.of p.lifecycle, .of p.freshness, .of p.provenance]

theorem reads_placementFields (p : PlacementRecord) :
    Reads (encPlacement p) placementFields (placementCastFields p) := by
  refine (skips_id _).field ?_
  refine (skips_id _).field ?_
  refine (skips_g _).field ?_
  refine (skips_id _).field ?_
  refine (skips_g _).field ?_
  refine (skips_id _).field ?_
  refine (skips_id _).field ?_
  refine (skips_id _).field ?_
  refine (skips_str _).field ?_
  refine (skips_id _).field ?_
  refine (skips_u64 _).field ?_
  refine (skips_u64 _).field ?_
  refine (skips_digest _).field ?_
  refine (skips_u32 _).field ?_
  refine (skips_str _).field ?_
  refine (reads_enumField _).field ?_
  refine (reads_enumField _).field ?_
  refine (skips_g _).field ?_
  refine (reads_enumField _).field ?_
  refine (skips_id _).field ?_
  refine (skips_id _).field ?_
  refine (skips_g _).field ?_
  refine (skips_i64 _).field ?_
  refine (skips_i64 _).field ?_
  exact .done

theorem skips_replica (r : ReplicaInfo) : Reads (encReplica r) skipReplica () := by
  refine (skips_id _).field ?_
  refine (skips_g _).field ?_
  refine (skips_id _).field ?_
  refine (skips_id _).field ?_
  refine (skips_str _).field ?_
  refine (skips_u64 _).field ?_
  refine (skips_u64 _).field ?_
  refine (skips_enum _).field ?_
  refine (skips_g _).field ?_
  exact (skips_bool _).last

theorem reads_replicaSetField {rs : ReplicaSet} (h : rs.object.value < 2 ^ 64) :
    Reads (encReplicaSet rs) replicaSetField rs.object.value := by
  refine (reads_idWord h).field ?_
  refine (skips_g _).field ?_
  refine (skips_u32 _).field ?_
  refine (skips_u32 _).field ?_
  refine (skips_u32 _).field ?_
  refine (skips_u32 _).field ?_
  refine (skips_enum _).field ?_
  refine (skips_g _).field ?_
  refine (reads_vecMap fun r _ => skips_replica r).field ?_
  refine (skips_i64 _).field ?_
  exact .done

theorem reads_backendField {b : BackendDescriptor} (h : b.id.value < 2 ^ 64) :
    Reads (encBackend b) backendField b.id.value := by
  refine (reads_idWord h).field ?_
  refine (skips_id _).field ?_
  refine (skips_id _).field ?_
  refine (skips_str _).field ?_
  refine (skips_g _).field ?_
  refine (skips_u64 _).field ?_
  refine (skips_u64 _).field ?_
  refine (skips_u64 _).field ?_
  refine (skips_u64 _).field ?_
  refine (skips_u64 _).field ?_
  refine (skips_bool _).field ?_
  refine (reads_vecMap fun c _ => skips_enum c).field ?_
  refine (skips_enum _).field ?_
  refine (skips_enum _).field ?_
  refine (skips_enum _).field ?_
  refine (skips_i64 _).field ?_
  exact .done

theorem skips_transfer (t : CompletedTransferRecord) : Reads (encTransfer t) skipTransfer () := by
  refine (skips_id _).field ?_
  refine (skips_enum _).field ?_
  refine (skips_id _).field ?_
  refine (skips_id _).field ?_
  refine (skips_id _).field ?_
  refine (skips_u64 _).field ?_
  refine (skips_enum _).field ?_
  exact (skips_i64 _).last

theorem skips_authority (a : AuthorityEnvelope) : Reads (encAuthority a) skipAuthority () := by
  refine (skips_g _).field ?_
  refine (skips_id _).field ?_
  refine (skips_id _).field ?_
  refine (skips_g _).field ?_
  exact (skips_enum _).last

theorem skips_accounting (a : AccountingTotals) : Reads (encAccounting a) skipAccounting () := by
  have hmany : Reads (encAccounting a) (many (skip 8) 21) _ :=
    reads_many_map (f := fun _ => ()) (l := [a.logicalObjects, a.logicalBytes, a.physicalBlobs,
      a.physicalBytes, a.deduplicatedBytes, a.chunks, a.manifests, a.activePlacements, a.replicas,
      a.reservedBytes, a.committedBytes, a.activeWrites, a.activeReads, a.transferredBytes,
      a.restoredBytes, a.evictedBytes, a.integrityFailures, a.staleRejections,
      a.duplicateRejections, a.backendFailures, a.participantRestarts]) fun v _ => skips_u64 v
  exact hmany.andThen fun _ => rfl

/-- What a payload that was written holds in the fields that its decoder does not check. -/
def fieldsOf (objects : List OrderedObject) (snap : MetadataSnapshot) : PayloadFields where
  objects := objects.map fun p => (castFields p.object, p.entries.map Prod.fst)
  placements := snap.placements.map placementCastFields
  replicaSets := snap.replicaSets.map fun rs => rs.object.value
  backends := snap.backends.map fun b => b.id.value

theorem reads_payloadFields {objects : List OrderedObject} {snap : MetadataSnapshot}
    (h : snap.Storable) :
    Reads (encPayloadAs objects snap) payloadFields (fieldsOf objects snap) := by
  have hsets : ∀ rs ∈ snap.replicaSets, Reads (encReplicaSet rs) replicaSetField rs.object.value :=
    fun rs hrs => reads_replicaSetField (h.replicaSets rs hrs).ids
  have hbackends : ∀ b ∈ snap.backends, Reads (encBackend b) backendField b.id.value :=
    fun b hb => reads_backendField ((h.backends b hb).ids _ List.mem_cons_self)
  refine (reads_skip rfl).field ?_
  refine (skips_g _).field ?_
  refine (skips_authority _).field ?_
  refine (skips_g _).field ?_
  refine (skips_i64 _).field ?_
  refine (skips_accounting _).field ?_
  refine (reads_vecMap fun p _ => reads_objectFields p).field ?_
  refine (reads_vecMap fun m _ => skips_manifest m).field ?_
  refine (reads_vecMap fun p _ => reads_placementFields p).field ?_
  refine (reads_vecMap hsets).field ?_
  refine (reads_vecMap hbackends).field ?_
  refine (reads_vecMap fun t _ => skips_transfer t).field ?_
  refine (reads_vecMap fun a _ => skips_authority a).field ?_
  exact .done

end Persist

end StorageFabric
