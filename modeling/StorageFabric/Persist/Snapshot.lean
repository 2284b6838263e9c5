import StorageFabric.Persist.Codec

/-!
The metadata snapshot and its serialised form: a header with the length, the CRC
and the SHA-256 of the payload, and the payload.
-/

namespace StorageFabric

open ByteWriter ByteReader Codec Persist

def kMetaMagic : UInt32 := 0x5346424D

def kMetaVersion : UInt8 := 1

structure CompletedTransferRecord where
  id : TransferId := default
  kind : EnumValue MovementKind := .known .copy
  object : ObjectId := default
  sourceBackend : StorageBackendId := default
  targetBackend : StorageBackendId := default
  bytes : UInt64 := 0
  state : EnumValue TransferState := .known .completed
  finishedAtMs : Int64 := 0
  deriving DecidableEq

structure MetadataSnapshot where
  epoch : CoordinatorEpoch := default
  /-- The last authoritative writer. -/
  authority : AuthorityEnvelope := {}
  objects : List ObjectDescriptor := []
  manifests : List Manifest := []
  placements : List PlacementRecord := []
  replicaSets : List ReplicaSet := []
  backends : List BackendDescriptor := []
  completedTransfers : List CompletedTransferRecord := []
  authorities : List AuthorityEnvelope := []
  policyGeneration : PolicyGeneration := default
  accounting : AccountingTotals := {}
  savedAtMs : Int64 := 0
  deriving DecidableEq

/-- What a successful call reports; a failed one reports a code and a detail. -/
structure PersistResult where
  semanticDigest : ContentDigest
  crc : UInt32
  bytes : Nat
  deriving DecidableEq

namespace Persist

/-! ### Transfers -/

def encTransfer (t : CompletedTransferRecord) : Writer :=
  fields [encId t.id, encEnum t.kind, encId t.object, encId t.sourceBackend,
    encId t.targetBackend, encU64 t.bytes, encEnum t.state, encI64 t.finishedAtMs]

def decTransfer : ByteReader CompletedTransferRecord := do
  let id ← decId
  let kind ← decEnum 7
  let object ← decId
  let sourceBackend ← decId
  let targetBackend ← decId
  let bytes ← readU64
  let state ← decEnum 6
  let finishedAtMs ← decI64
  return { id, kind, object, sourceBackend, targetBackend, bytes, state, finishedAtMs }

end Persist

def CompletedTransferRecord.Wide (t : CompletedTransferRecord) : Prop :=
  ∀ n ∈ [t.id.value, t.object.value, t.sourceBackend.value, t.targetBackend.value], n < 2 ^ 64

@[mk_iff]
structure CompletedTransferRecord.Storable (t : CompletedTransferRecord) : Prop where
  ids : ∀ n ∈ [t.id.value, t.object.value, t.sourceBackend.value, t.targetBackend.value],
    n < 2 ^ 64
  kind : t.kind.Declared
  state : t.state.Declared

instance (t : CompletedTransferRecord) : Decidable t.Storable :=
  decidable_of_iff _ (CompletedTransferRecord.storable_iff t).symm

namespace Persist

theorem readsIf_transfer {t : CompletedTransferRecord} (h : t.Wide) :
    ReadsIf t.Storable (encTransfer t) decTransfer t := by
  simp only [CompletedTransferRecord.Wide, List.forall_mem_cons] at h
  refine (reads_id h.1).readsIf.field ?_
  refine (readsIf_enum rfl fun h => h.kind).field ?_
  refine (reads_id h.2.1).readsIf.field ?_
  refine (reads_id h.2.2.1).readsIf.field ?_
  refine (reads_id h.2.2.2.1).readsIf.field ?_
  refine (reads_u64 t.bytes).readsIf.field ?_
  refine (readsIf_enum rfl fun h => h.state).field ?_
  refine (reads_i64 t.finishedAtMs).readsIf.field ?_
  exact Reads.done.readsIf

/-! ### The payload -/

def encPayload (snap : MetadataSnapshot) : Writer :=
  fields [encU8 kMetaVersion, encG snap.epoch, encAuthority snap.authority,
    encG snap.policyGeneration, encI64 snap.savedAtMs, encAccounting snap.accounting,
    encVec encObject snap.objects, encVec encManifest snap.manifests,
    encVec encPlacement snap.placements, encVec encReplicaSet snap.replicaSets,
    encVec encBackend snap.backends, encVec encTransfer snap.completedTransfers,
    encVec encAuthority snap.authorities]

abbrev PayloadReader (α : Type) := StateT Bytes (Except Status) α

/-- A part of the payload, with what is said about it if it cannot be read. -/
def malformed {α : Type} (detail : String) (r : ByteReader α) : PayloadReader α :=
  label (Status.of .malformed detail) r

def decRecords {α : Type} (countDetail detail : String) (dec : ByteReader α) :
    PayloadReader (List α) := do
  let n ← malformed countDetail (decCount kMetaMaxRecords)
  malformed detail (many dec n)

/-- The payload; the records go behind those that are in the snapshot. -/
def decPayload (snap : MetadataSnapshot) : PayloadReader MetadataSnapshot := do
  malformed "bad payload version" do
    let version ← readU8
    if version ≠ kMetaVersion then failure
  let epoch ← malformed "bad authority" decG
  let authority ← malformed "bad authority" decAuthority
  let policyGeneration ← malformed "bad policy generation" decG
  let savedAtMs ← malformed "bad accounting" decI64
  let accounting ← malformed "bad accounting" decAccounting
  let objects ← decRecords "objects count" "object" decObject
  let manifests ← decRecords "manifests count" "manifest" decManifest
  let placements ← decRecords "placements count" "placement" decPlacement
  let replicaSets ← decRecords "replica_sets count" "replica set" decReplicaSet
  let backends ← decRecords "backends count" "backend" decBackend
  let completedTransfers ← decRecords "transfers count" "transfer" decTransfer
  let authorities ← decRecords "authorities count" "authority" decAuthority
  return {
    epoch, authority, policyGeneration, savedAtMs, accounting
    objects := snap.objects ++ objects
    manifests := snap.manifests ++ manifests
    placements := snap.placements ++ placements
    replicaSets := snap.replicaSets ++ replicaSets
    backends := snap.backends ++ backends
    completedTransfers := snap.completedTransfers ++ completedTransfers
    authorities := snap.authorities ++ authorities }

/-- The loop over the placements that are left, with the ids seen so far. -/
def checkPlacementIds : List PlacementId → List ReplicaId → List PlacementRecord → Result Unit
  | _, _, [] => .ok ()
  | placementIds, replicaIds, p :: ps =>
      if p.id ∈ placementIds then Result.fail .duplicateIdentity "duplicate placement id"
      else if p.replica ∈ replicaIds then Result.fail .duplicateIdentity "duplicate replica id"
      else checkPlacementIds (p.id :: placementIds) (p.replica :: replicaIds) ps

def checkIds (snap : MetadataSnapshot) : Result Unit :=
  if ¬(snap.objects.map ObjectDescriptor.id).Nodup then
    Result.fail .duplicateIdentity "duplicate object id"
  else if ¬(snap.manifests.map Manifest.id).Nodup then
    Result.fail .duplicateIdentity "duplicate manifest id"
  else checkPlacementIds [] [] snap.placements

end Persist

/-! ### The blob -/

def serializeSnapshot (snap : MetadataSnapshot) : Result (PersistResult × Bytes) :=
  match encPayload snap with
  | none => .error ⟨.internal, []⟩
  | some payload =>
      let sem := ContentDigest.of payload
      let crc := crc32 payload
      let out := putU32 kMetaMagic ++ putU8 kMetaVersion ++
        putU32 (UInt32.ofNat payload.length) ++ putU32 crc ++ sem.bytes ++ payload
      .ok ({ semanticDigest := sem, crc, bytes := out.length }, out)

structure MetaHeader where
  magic : UInt32
  version : UInt8
  payloadLen : UInt32
  storedCrc : UInt32
  deriving DecidableEq

def readMetaHeader : ByteReader MetaHeader := do
  let magic ← readU32
  let version ← readU8
  let payloadLen ← readU32
  let storedCrc ← readU32
  return { magic, version, payloadLen, storedCrc }

def deserializeSnapshot (data : Bytes) (snap : MetadataSnapshot) :
    Result (PersistResult × MetadataSnapshot) :=
  if data.length < 5 then Result.fail .truncated "metadata blob too short"
  else
    match readMetaHeader.run data with
    | none => Result.fail .truncated "truncated header"
    | some (h, rest) =>
        if h.magic ≠ kMetaMagic then Result.fail .malformed "bad metadata magic"
        else if h.version ≠ kMetaVersion then
          Result.fail .malformed "unsupported metadata version"
        else if kMetaMaxRecords * 1024 < h.payloadLen.toNat then
          Result.fail .overflow "metadata payload too large"
        else if rest.length ≠ h.payloadLen.toNat + 32 then
          Result.fail .trailingGarbage "metadata size mismatch"
        else
          match (readBytes 32).run rest with
          | none => Result.fail .truncated "missing semantic digest"
          | some (storedSem, payload) =>
              if crc32 payload ≠ h.storedCrc then
                Result.fail .corrupted "metadata CRC mismatch"
              else if (ContentDigest.of payload).bytes ≠ storedSem then
                Result.fail .integrityMismatch "semantic digest mismatch"
              else
                match (decPayload snap).run payload with
                | .error s => .error s
                | .ok (snap, []) =>
                    match checkIds snap with
                    | .error s => .error s
                    | .ok () =>
                        .ok ({
                          semanticDigest := ContentDigest.of payload
                          crc := h.storedCrc
                          bytes := data.length }, snap)
                | .ok (_, _ :: _) =>
                    Result.fail .trailingGarbage "trailing garbage after metadata"

/-! ### What is serialised is deserialised -/

/-- The ids fit the 64 bits that they have in the source. -/
structure MetadataSnapshot.Wide (snap : MetadataSnapshot) : Prop where
  authority : snap.authority.Wide
  objects : ∀ o ∈ snap.objects, o.Wide
  manifests : ∀ m ∈ snap.manifests, m.Wide
  placements : ∀ p ∈ snap.placements, p.Wide
  replicaSets : ∀ rs ∈ snap.replicaSets, rs.Wide
  backends : ∀ b ∈ snap.backends, b.Wide
  completedTransfers : ∀ t ∈ snap.completedTransfers, t.Wide
  authorities : ∀ a ∈ snap.authorities, a.Wide

/-- The records are ones that their decoders read as their encoders write them. -/
@[mk_iff]
structure MetadataSnapshot.Storable (snap : MetadataSnapshot) : Prop where
  authority : snap.authority.Storable
  objects : ∀ o ∈ snap.objects, o.Storable
  manifests : ∀ m ∈ snap.manifests, m.Storable
  placements : ∀ p ∈ snap.placements, p.Storable
  replicaSets : ∀ rs ∈ snap.replicaSets, rs.Storable
  backends : ∀ b ∈ snap.backends, b.Storable
  completedTransfers : ∀ t ∈ snap.completedTransfers, t.Storable
  authorities : ∀ a ∈ snap.authorities, a.Storable

instance (snap : MetadataSnapshot) : Decidable snap.Storable :=
  decidable_of_iff _ (MetadataSnapshot.storable_iff snap).symm

theorem MetadataSnapshot.Storable.wide {snap : MetadataSnapshot} (h : snap.Storable) :
    snap.Wide where
  authority := h.authority.ids
  objects o ho := ⟨(h.objects o ho).ids, (h.objects o ho).dependencies⟩
  manifests m hm := ⟨(h.manifests m hm).ids, fun c hc => ((h.manifests m hm).chunks c hc).ids⟩
  placements p hp := (h.placements p hp).ids
  replicaSets rs hrs :=
    ⟨(h.replicaSets rs hrs).ids, fun r hr => ((h.replicaSets rs hrs).replicas r hr).ids⟩
  backends b hb := (h.backends b hb).ids
  completedTransfers t ht := (h.completedTransfers t ht).ids
  authorities a ha := (h.authorities a ha).ids

/-- No two records share an id that the decoder looks at. -/
@[mk_iff]
structure MetadataSnapshot.Distinct (snap : MetadataSnapshot) : Prop where
  objects : (snap.objects.map ObjectDescriptor.id).Nodup
  manifests : (snap.manifests.map Manifest.id).Nodup
  placements : (snap.placements.map PlacementRecord.id).Nodup
  replicas : (snap.placements.map PlacementRecord.replica).Nodup

instance (snap : MetadataSnapshot) : Decidable snap.Distinct :=
  decidable_of_iff _ (MetadataSnapshot.distinct_iff snap).symm

namespace Persist

theorem readsIf_records {α : Type} {P : Prop} {enc : α → Writer} {dec : ByteReader α} {l : List α}
    (countDetail detail : String) (h : ∀ a ∈ l, ReadsIf P (enc a) dec a) :
    ReadsIf P (encVec enc l) (decRecords countDetail detail dec) l := by
  intro bs hbs
  obtain ⟨hl, hbs⟩ := encVec_some hbs
  have hcount := (readsIf_count (P := P) hl fun _ => hl).label (Status.of .malformed countDetail)
  exact hcount.field ((readsIf_many h).label _) bs hbs

theorem readsIf_payload {snap : MetadataSnapshot} (h : snap.Wide) :
    ReadsIf snap.Storable (encPayload snap) (decPayload {}) snap := by
  have hversion : Reads (encU8 kMetaVersion) (malformed "bad payload version" do
      let version ← readU8
      if version ≠ kMetaVersion then failure) () :=
    ((reads_u8 kMetaVersion).andThen fun _ => rfl).label _
  refine hversion.readsIf.field ?_
  refine ((reads_g snap.epoch).label _).readsIf.field ?_
  refine (((readsIf_authority h.authority).mono fun h => h.authority).label _).field ?_
  refine ((reads_g snap.policyGeneration).label _).readsIf.field ?_
  refine ((reads_i64 snap.savedAtMs).label _).readsIf.field ?_
  refine ((reads_accounting snap.accounting).label _).readsIf.field ?_
  refine (readsIf_records _ _ fun o ho =>
    (readsIf_object (h.objects o ho)).mono fun h => h.objects o ho).field ?_
  refine (readsIf_records _ _ fun m hm =>
    (readsIf_manifest (h.manifests m hm)).mono fun h => h.manifests m hm).field ?_
  refine (readsIf_records _ _ fun p hp =>
    (readsIf_placement (h.placements p hp)).mono fun h => h.placements p hp).field ?_
  refine (readsIf_records _ _ fun rs hrs =>
    (readsIf_replicaSet (h.replicaSets rs hrs)).mono fun h => h.replicaSets rs hrs).field ?_
  refine (readsIf_records _ _ fun b hb =>
    (readsIf_backend (h.backends b hb)).mono fun h => h.backends b hb).field ?_
  refine (readsIf_records _ _ fun t ht => (readsIf_transfer (h.completedTransfers t ht)).mono
    fun h => h.completedTransfers t ht).field ?_
  refine (readsIf_records _ _ fun a ha =>
    (readsIf_authority (h.authorities a ha)).mono fun h => h.authorities a ha).field ?_
  exact Reads.done.readsIf

theorem nodup_cons_map {α κ : Type} {f : α → κ} {a : α} {l : List α} {seen : List κ}
    (ha : f a ∉ seen) :
    ((l.map f).Nodup ∧ ∀ b ∈ l, f b ∉ f a :: seen) ↔
      ((a :: l).map f).Nodup ∧ ∀ b ∈ a :: l, f b ∉ seen := by
  rw [List.map_cons, List.nodup_cons, List.forall_mem_cons]
  constructor
  · rintro ⟨hl, hnew⟩
    refine ⟨⟨fun hmem => ?_, hl⟩, ha, fun b hb h => hnew b hb (List.mem_cons_of_mem _ h)⟩
    obtain ⟨b, hb, heq⟩ := List.mem_map.mp hmem
    exact hnew b hb (heq ▸ List.mem_cons_self)
  · rintro ⟨⟨hnot, hl⟩, -, hnew⟩
    refine ⟨hl, fun b hb h => ?_⟩
    obtain heq | h := List.mem_cons.mp h
    · exact hnot (heq ▸ List.mem_map_of_mem hb)
    · exact hnew b hb h

/-- The loop over the placements looks for two that share their id or their
replica id. -/
theorem checkPlacementIds_eq_ok {ps : List PlacementRecord} {placementIds : List PlacementId}
    {replicaIds : List ReplicaId} :
    checkPlacementIds placementIds replicaIds ps = .ok () ↔
      ((ps.map PlacementRecord.id).Nodup ∧ ∀ p ∈ ps, p.id ∉ placementIds) ∧
      (ps.map PlacementRecord.replica).Nodup ∧ ∀ p ∈ ps, p.replica ∉ replicaIds := by
  induction ps generalizing placementIds replicaIds with
  | nil => simp [checkPlacementIds]
  | cons p ps ih =>
      rw [checkPlacementIds]
      by_cases hid : p.id ∈ placementIds
      · simp [hid, Result.fail]
      · by_cases hreplica : p.replica ∈ replicaIds
        · simp [hid, hreplica, Result.fail]
        · rw [if_neg hid, if_neg hreplica, ih, nodup_cons_map hid, nodup_cons_map hreplica]

theorem checkIds_eq_ok {snap : MetadataSnapshot} : checkIds snap = .ok () ↔ snap.Distinct := by
  have hplacements := @checkPlacementIds_eq_ok snap.placements [] []
  constructor
  · intro h
    unfold checkIds at h
    split at h
    · cases h
    · next hobjects =>
        split at h
        · cases h
        · next hmanifests =>
            obtain ⟨⟨hids, -⟩, hreplicas, -⟩ := hplacements.mp h
            exact ⟨not_not.mp hobjects, not_not.mp hmanifests, hids, hreplicas⟩
  · rintro ⟨hobjects, hmanifests, hids, hreplicas⟩
    rw [checkIds, if_neg (not_not.mpr hobjects), if_neg (not_not.mpr hmanifests)]
    exact hplacements.mpr ⟨⟨hids, fun _ _ => List.not_mem_nil⟩, hreplicas, fun _ _ => List.not_mem_nil⟩

end Persist

theorem readMetaHeader_eq_some {s t : Bytes} {h : MetaHeader} :
    readMetaHeader.run s = some (h, t) ↔
      s = putU32 h.magic ++ (putU8 h.version ++ (putU32 h.payloadLen ++
        (putU32 h.storedCrc ++ t))) := by
  simp only [readMetaHeader, run_bind_eq_some, readU32_eq_some, readU8_eq_some, run_pure_eq_some]
  constructor
  · rintro ⟨magic, _, rfl, version, _, rfl, length, _, rfl, crc, _, rfl, rfl, rfl⟩
    rfl
  · rintro rfl
    exact ⟨_, _, rfl, _, _, rfl, _, _, rfl, _, _, rfl, rfl, rfl⟩

def metaBlob (payload : Bytes) : Bytes :=
  putU32 kMetaMagic ++ putU8 kMetaVersion ++ putU32 (UInt32.ofNat payload.length) ++
    putU32 (crc32 payload) ++ (ContentDigest.of payload).bytes ++ payload

def metaResult (payload : Bytes) : PersistResult where
  semanticDigest := ContentDigest.of payload
  crc := crc32 payload
  bytes := (metaBlob payload).length

theorem serializeSnapshot_eq {snap : MetadataSnapshot} {payload : Bytes}
    (hpayload : encPayload snap = some payload) :
    serializeSnapshot snap = .ok (metaResult payload, metaBlob payload) := by
  rw [serializeSnapshot, hpayload]
  rfl

/-- The header of a blob; the length field has room for 32 bits. -/
theorem readMetaHeader_metaBlob (payload : Bytes) :
    readMetaHeader.run (metaBlob payload) =
      some ({
        magic := kMetaMagic
        version := kMetaVersion
        payloadLen := UInt32.ofNat payload.length
        storedCrc := crc32 payload }, (ContentDigest.of payload).bytes ++ payload) := by
  rw [readMetaHeader_eq_some, metaBlob]
  simp only [List.append_assoc]

theorem length_metaBlob (payload : Bytes) : (metaBlob payload).length = 45 + payload.length := by
  simp only [metaBlob, List.length_append, length_putU32, length_putU8,
    (ContentDigest.of payload).size]

theorem drop_metaBlob (payload : Bytes) : (metaBlob payload).drop 45 = payload := by
  refine List.drop_left' ?_
  simp only [List.length_append, length_putU32, length_putU8, (ContentDigest.of payload).size]

theorem deserialize_payload {payload : Bytes} (hshort : payload.length < 2 ^ 32)
    (snap : MetadataSnapshot) :
    deserializeSnapshot (metaBlob payload) snap =
      match (decPayload snap).run payload with
      | .error s => .error s
      | .ok (snap, []) =>
          match checkIds snap with
          | .error s => .error s
          | .ok () => .ok (metaResult payload, snap)
      | .ok (_, _ :: _) => Result.fail .trailingGarbage "trailing garbage after metadata" := by
  have hheader := readMetaHeader_metaBlob payload
  have hlen : (UInt32.ofNat payload.length).toNat = payload.length := by
    rw [UInt32.toNat_ofNat', Nat.mod_eq_of_lt hshort]
  have hsize : (ContentDigest.of payload).bytes.length = 32 := (ContentDigest.of payload).size
  have hlong : ¬(metaBlob payload).length < 5 := by
    rw [length_metaBlob]
    omega
  have hrest : ((ContentDigest.of payload).bytes ++ payload).length = payload.length + 32 := by
    rw [List.length_append, hsize, Nat.add_comm]
  have hsem : (readBytes 32).run ((ContentDigest.of payload).bytes ++ payload) =
      some ((ContentDigest.of payload).bytes, payload) :=
    readBytes_eq_some.mpr ⟨hsize, rfl⟩
  have hbound : ¬kMetaMaxRecords * 1024 < payload.length := by
    rw [kMetaMaxRecords]
    omega
  simp only [deserializeSnapshot, if_neg hlong, hheader, hlen, hrest, hsem, hbound, ne_eq,
    not_true_eq_false, if_false, metaResult]

/-- The blobs that are accepted: a payload that fits the header and is read to its end,
and no id twice. -/
theorem deserialize_eq_ok {data : Bytes} {old snap : MetadataSnapshot} {res : PersistResult} :
    deserializeSnapshot data old = .ok (res, snap) ↔
      ∃ payload, payload.length < 2 ^ 32 ∧ data = metaBlob payload ∧ res = metaResult payload ∧
        (decPayload old).run payload = .ok (snap, []) ∧ checkIds snap = .ok () := by
  constructor
  · intro h
    obtain ⟨payload, hshort, rfl⟩ : ∃ payload, payload.length < 2 ^ 32 ∧ data = metaBlob payload := by
      -- the guards in the order of the source: each one passed says a part of the blob
      unfold deserializeSnapshot at h
      split at h
      · cases h
      split at h
      · cases h
      · next header rest hheader =>
          split at h
          · cases h
          · next hmagic =>
              split at h
              · cases h
              · next hversion =>
                  split at h
                  · cases h
                  split at h
                  · cases h
                  · next hlength =>
                      split at h
                      · cases h
                      · next sem payload hsem =>
                          split at h
                          · cases h
                          · next hcrc =>
                              split at h
                              · cases h
                              · next hdigest =>
                                  obtain ⟨hsize, rfl⟩ := readBytes_eq_some.mp hsem
                                  have hlength := not_not.mp hlength
                                  rw [List.length_append, hsize] at hlength
                                  have hlen : header.payloadLen.toNat = payload.length := by omega
                                  refine ⟨payload, hlen ▸ header.payloadLen.toNat_lt, ?_⟩
                                  rw [readMetaHeader_eq_some.mp hheader, metaBlob,
                                    not_not.mp hmagic, not_not.mp hversion, not_not.mp hcrc,
                                    not_not.mp hdigest, ← hlen, UInt32.ofNat_toNat]
                                  simp only [List.append_assoc]
    -- what is left is the payload itself, and the check of the ids
    rw [deserialize_payload hshort] at h
    split at h
    · cases h
    · next snap' hread =>
        split at h
        · cases h
        · next hids =>
            obtain ⟨rfl, rfl⟩ := Prod.mk.inj (Except.ok.inj h)
            exact ⟨payload, hshort, rfl, rfl, hread, hids⟩
    · cases h
  · rintro ⟨payload, hshort, rfl, rfl, hread, hids⟩
    rw [deserialize_payload hshort, hread]
    simp only [hids]

theorem deserialize_serialize {snap : MetadataSnapshot} (hstorable : snap.Storable)
    (hdistinct : snap.Distinct) {payload : Bytes} (hpayload : encPayload snap = some payload)
    (hshort : payload.length < 2 ^ 32) {res : PersistResult} {out : Bytes}
    (h : serializeSnapshot snap = .ok (res, out)) :
    deserializeSnapshot out {} = .ok (res, snap) := by
  have hread : (decPayload {}).run payload = .ok (snap, []) := by
    have h := (readsIf_payload hstorable.wide).reads hstorable payload hpayload []
    rwa [List.append_nil] at h
  rw [serializeSnapshot_eq hpayload] at h
  obtain ⟨rfl, rfl⟩ := Prod.mk.inj (Except.ok.inj h)
  exact deserialize_eq_ok.mpr
    ⟨payload, hshort, rfl, rfl, hread, checkIds_eq_ok.mpr hdistinct⟩

theorem deserialize_long {snap : MetadataSnapshot} {payload : Bytes}
    (hpayload : encPayload snap = some payload) (hlong : 2 ^ 32 ≤ payload.length)
    {res : PersistResult} {out : Bytes} (h : serializeSnapshot snap = .ok (res, out)) :
    ∃ s, deserializeSnapshot out {} = .error s := by
  rw [serializeSnapshot_eq hpayload] at h
  obtain ⟨-, rfl⟩ := Prod.mk.inj (Except.ok.inj h)
  cases hread : deserializeSnapshot (metaBlob payload) {} with
  | error s => exact ⟨s, rfl⟩
  | ok p =>
      obtain ⟨payload', hshort, hblob, -⟩ := deserialize_eq_ok.mp hread
      have hlength := congrArg List.length hblob
      rw [length_metaBlob, length_metaBlob] at hlength
      omega

/-! ### Rejections -/

namespace Persist

/-- The reader reports its failures under the given code. -/
def FailsWith {α : Type} (code : StatusCode) (p : PayloadReader α) : Prop :=
  ∀ s e, p.run s = .error e → e.code = code

section FailsWith

variable {α γ : Type} {code : StatusCode}

theorem FailsWith.bind {p : PayloadReader α} {k : α → PayloadReader γ} (hp : FailsWith code p)
    (hk : ∀ a, FailsWith code (k a)) : FailsWith code (p >>= k) := by
  intro s e h
  rw [StateT.run_bind] at h
  cases hrun : p.run s with
  | error e' =>
      rw [hrun] at h
      obtain rfl := Except.error.inj h
      exact hp s e' hrun
  | ok q =>
      rw [hrun] at h
      exact hk q.1 q.2 e h

theorem failsWith_pure (a : α) : FailsWith code (pure a : PayloadReader α) :=
  fun _ _ h => nomatch h

theorem failsWith_malformed (detail : String) (r : ByteReader α) :
    FailsWith .malformed (malformed detail r) := by
  intro s e h
  cases hrun : r.run s with
  | none =>
      rw [malformed, run_label_none hrun] at h
      rw [← Except.error.inj h]
      rfl
  | some p =>
      rw [malformed, run_label_some hrun] at h
      cases h

theorem failsWith_records (countDetail detail : String) (dec : ByteReader α) :
    FailsWith .malformed (decRecords countDetail detail dec) :=
  (failsWith_malformed _ _).bind fun _ => failsWith_malformed _ _

end FailsWith

theorem failsWith_payload (snap : MetadataSnapshot) : FailsWith .malformed (decPayload snap) := by
  refine (failsWith_malformed _ _).bind fun _ => ?_
  refine (failsWith_malformed _ _).bind fun _ => ?_
  refine (failsWith_malformed _ _).bind fun _ => ?_
  refine (failsWith_malformed _ _).bind fun _ => ?_
  refine (failsWith_malformed _ _).bind fun _ => ?_
  refine (failsWith_malformed _ _).bind fun _ => ?_
  refine (failsWith_records _ _ _).bind fun _ => ?_
  refine (failsWith_records _ _ _).bind fun _ => ?_
  refine (failsWith_records _ _ _).bind fun _ => ?_
  refine (failsWith_records _ _ _).bind fun _ => ?_
  refine (failsWith_records _ _ _).bind fun _ => ?_
  refine (failsWith_records _ _ _).bind fun _ => ?_
  refine (failsWith_records _ _ _).bind fun _ => ?_
  exact failsWith_pure _

theorem code_checkPlacementIds {ps : List PlacementRecord} {placementIds : List PlacementId}
    {replicaIds : List ReplicaId} {e : Status}
    (h : checkPlacementIds placementIds replicaIds ps = .error e) : e.code = .duplicateIdentity := by
  induction ps generalizing placementIds replicaIds with
  | nil => cases h
  | cons p ps ih =>
      rw [checkPlacementIds] at h
      split at h
      · rw [← Except.error.inj h]
        rfl
      · split at h
        · rw [← Except.error.inj h]
          rfl
        · exact ih h

theorem code_checkIds {snap : MetadataSnapshot} {e : Status} (h : checkIds snap = .error e) :
    e.code = .duplicateIdentity := by
  rw [checkIds] at h
  split at h
  · rw [← Except.error.inj h]
    rfl
  · split at h
    · rw [← Except.error.inj h]
      rfl
    · exact code_checkPlacementIds h

end Persist

theorem deserialize_error {data : Bytes} {snap : MetadataSnapshot} {e : Status}
    (h : deserializeSnapshot data snap = .error e) : e.isOk = false := by
  have hfail : ∀ {code : StatusCode} {detail : String}, code ≠ .ok →
      (Result.fail code detail : Result (PersistResult × MetadataSnapshot)) = .error e →
      e.isOk = false := by
    intro code detail hcode hfail
    rw [← Except.error.inj hfail]
    exact decide_eq_false hcode
  have hcode : ∀ {code : StatusCode}, e.code = code → code ≠ .ok → e.isOk = false :=
    fun heq hne => decide_eq_false (heq ▸ hne)
  rw [deserializeSnapshot] at h
  split at h
  · exact hfail (by decide) h
  split at h
  · exact hfail (by decide) h
  split at h
  · exact hfail (by decide) h
  split at h
  · exact hfail (by decide) h
  split at h
  · exact hfail (by decide) h
  split at h
  · exact hfail (by decide) h
  split at h
  · exact hfail (by decide) h
  split at h
  · exact hfail (by decide) h
  split at h
  · exact hfail (by decide) h
  split at h
  · next hpayload =>
      obtain rfl := Except.error.inj h
      exact hcode (failsWith_payload snap _ _ hpayload) (by decide)
  · split at h
    · next hids =>
        obtain rfl := Except.error.inj h
        exact hcode (code_checkIds hids) (by decide)
    · cases h
  · exact hfail (by decide) h

end StorageFabric
