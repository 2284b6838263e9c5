import StorageFabric.Persist.Snapshot

/-!
When a snapshot can be serialised at all, and the round trip.

The encoder fails only over a string or a vector that is too long. `Sized` says
that there is none.
-/

namespace StorageFabric

open ByteWriter ByteReader Codec Persist

@[mk_iff]
structure ObjectDescriptor.Sized (o : ObjectDescriptor) : Prop where
  creator : o.provenance.creator.length ≤ kMetaMaxString
  nodeHint : o.locality.nodeHint.length ≤ kMetaMaxString
  dependencies : o.dependencies.length ≤ kMetaMaxRecords
  compatibility : o.compatibility.entries.length ≤ kMetaMaxRecords
  strings : ∀ kv ∈ o.compatibility.entries,
    kv.1.length ≤ kMetaMaxString ∧ kv.2.length ≤ kMetaMaxString

@[mk_iff]
structure PlacementRecord.Sized (p : PlacementRecord) : Prop where
  key : p.key.length ≤ kMetaMaxString
  locality : p.locality.length ≤ kMetaMaxString

@[mk_iff]
structure ReplicaSet.Sized (rs : ReplicaSet) : Prop where
  replicas : rs.replicas.length ≤ kMetaMaxRecords
  failureDomains : ∀ r ∈ rs.replicas, r.failureDomain.length ≤ kMetaMaxString

@[mk_iff]
structure BackendDescriptor.Sized (b : BackendDescriptor) : Prop where
  name : b.name.length ≤ kMetaMaxString
  capabilities : b.capabilities.length ≤ kMetaMaxRecords

instance (o : ObjectDescriptor) : Decidable o.Sized :=
  decidable_of_iff _ (ObjectDescriptor.sized_iff o).symm

instance (p : PlacementRecord) : Decidable p.Sized :=
  decidable_of_iff _ (PlacementRecord.sized_iff p).symm

instance (rs : ReplicaSet) : Decidable rs.Sized :=
  decidable_of_iff _ (ReplicaSet.sized_iff rs).symm

instance (b : BackendDescriptor) : Decidable b.Sized :=
  decidable_of_iff _ (BackendDescriptor.sized_iff b).symm

@[mk_iff]
structure MetadataSnapshot.Sized (snap : MetadataSnapshot) : Prop where
  objects : snap.objects.length ≤ kMetaMaxRecords ∧ ∀ o ∈ snap.objects, o.Sized
  manifests : snap.manifests.length ≤ kMetaMaxRecords ∧
    ∀ m ∈ snap.manifests, m.chunks.length ≤ kMetaMaxRecords
  placements : snap.placements.length ≤ kMetaMaxRecords ∧ ∀ p ∈ snap.placements, p.Sized
  replicaSets : snap.replicaSets.length ≤ kMetaMaxRecords ∧ ∀ rs ∈ snap.replicaSets, rs.Sized
  backends : snap.backends.length ≤ kMetaMaxRecords ∧ ∀ b ∈ snap.backends, b.Sized
  completedTransfers : snap.completedTransfers.length ≤ kMetaMaxRecords
  authorities : snap.authorities.length ≤ kMetaMaxRecords

instance (snap : MetadataSnapshot) : Decidable snap.Sized :=
  decidable_of_iff _ (MetadataSnapshot.sized_iff snap).symm

namespace Persist

theorem isSome_encStr {s : Bytes} : (encStr s).isSome ↔ s.length ≤ kMetaMaxString := by
  by_cases hs : kMetaMaxString < s.length
  · simp [encStr, hs, Nat.not_le.mpr hs]
  · simp [encStr, hs, Nat.le_of_not_lt hs]

theorem isSome_encVec {α : Type} {enc : α → Writer} {l : List α} :
    (encVec enc l).isSome ↔ l.length ≤ kMetaMaxRecords ∧ ∀ a ∈ l, (enc a).isSome := by
  by_cases hl : kMetaMaxRecords < l.length
  · simp [encVec, hl, Nat.not_le.mpr hl]
  · rw [encVec, if_neg hl, isSome_fields]
    simp [Nat.le_of_not_lt hl]

theorem isSome_encAuthority (a : AuthorityEnvelope) : (encAuthority a).isSome := by
  rw [encAuthority, isSome_fields]
  simp [encG, encId, encEnum]

theorem isSome_encObject {o : ObjectDescriptor} (h : o.Sized) : (encObject o).isSome := by
  rw [encObject, isSome_fields]
  simp only [List.forall_mem_cons, isSome_encStr, isSome_encVec, isSome_fields, List.not_mem_nil,
    IsEmpty.forall_iff, implies_true, and_true]
  simp only [encG, encId, encEnum, encU64, encU32, encDigest, encI64, Option.isSome_some,
    implies_true, true_and, and_true]
  exact ⟨h.creator, h.nodeHint, h.dependencies, h.compatibility, h.strings⟩

theorem isSome_encManifest {m : Manifest} (h : m.chunks.length ≤ kMetaMaxRecords) :
    (encManifest m).isSome := by
  have hchunk : ∀ c : ChunkDescriptor, (encChunk c).isSome := by
    intro c
    rw [encChunk, isSome_fields]
    simp [encG, encId, encEnum, encU64, encDigest]
  rw [encManifest, isSome_fields]
  simp [encG, encId, encU64, encDigest, isSome_encVec, hchunk, h]

theorem isSome_encPlacement {p : PlacementRecord} (h : p.Sized) : (encPlacement p).isSome := by
  rw [encPlacement, isSome_fields]
  simp [encG, encId, encEnum, encU64, encU32, encDigest, encI64, isSome_encStr, h.key, h.locality]

theorem isSome_encReplicaSet {rs : ReplicaSet} (h : rs.Sized) : (encReplicaSet rs).isSome := by
  have hreplica : ∀ r ∈ rs.replicas, (encReplica r).isSome := by
    intro r hr
    rw [encReplica, isSome_fields]
    simp [encG, encId, encEnum, encU64, encBool, isSome_encStr, h.failureDomains r hr]
  rw [encReplicaSet, isSome_fields]
  simp only [List.forall_mem_cons, isSome_encVec, List.not_mem_nil, IsEmpty.forall_iff,
    implies_true, and_true]
  simp only [encG, encId, encEnum, encU32, encI64, Option.isSome_some, true_and, and_true]
  exact ⟨h.replicas, hreplica⟩

theorem isSome_encBackend {b : BackendDescriptor} (h : b.Sized) : (encBackend b).isSome := by
  rw [encBackend, isSome_fields]
  simp [encG, encId, encEnum, encU64, encBool, encI64, isSome_encStr, isSome_encVec, h.name,
    h.capabilities]

theorem isSome_encTransfer (t : CompletedTransferRecord) : (encTransfer t).isSome := by
  rw [encTransfer, isSome_fields]
  simp [encId, encEnum, encU64, encI64]

theorem isSome_encAccounting (a : AccountingTotals) : (encAccounting a).isSome := by
  rw [encAccounting, isSome_fields]
  simp [encU64]

theorem isSome_encPayload {snap : MetadataSnapshot} (h : snap.Sized) :
    (encPayload snap).isSome := by
  rw [encPayload, isSome_fields]
  simp only [List.forall_mem_cons, isSome_encVec, isSome_encAuthority, isSome_encAccounting,
    isSome_encTransfer, List.not_mem_nil, IsEmpty.forall_iff, implies_true, and_true, true_and]
  simp only [encU8, encG, encI64, Option.isSome_some, true_and]
  exact ⟨⟨h.objects.1, fun o ho => isSome_encObject (h.objects.2 o ho)⟩,
    ⟨h.manifests.1, fun m hm => isSome_encManifest (h.manifests.2 m hm)⟩,
    ⟨h.placements.1, fun p hp => isSome_encPlacement (h.placements.2 p hp)⟩,
    ⟨h.replicaSets.1, fun rs hrs => isSome_encReplicaSet (h.replicaSets.2 rs hrs)⟩,
    ⟨h.backends.1, fun b hb => isSome_encBackend (h.backends.2 b hb)⟩,
    h.completedTransfers, h.authorities⟩

end Persist

/-- A snapshot with storable records, distinct ids and nothing too long in it is
serialised, and its serialised form is deserialised as the snapshot. -/
theorem snapshot_roundtrip {snap : MetadataSnapshot} (hstorable : snap.Storable)
    (hdistinct : snap.Distinct) (hsized : snap.Sized)
    (hshort : ∀ payload, encPayload snap = some payload → payload.length < 2 ^ 32) :
    ∃ res out, serializeSnapshot snap = .ok (res, out) ∧
      deserializeSnapshot out {} = .ok (res, snap) := by
  obtain ⟨payload, hpayload⟩ := Option.isSome_iff_exists.mp (isSome_encPayload hsized)
  cases hout : serializeSnapshot snap with
  | error s =>
      rw [serializeSnapshot, hpayload] at hout
      cases hout
  | ok p =>
      exact ⟨p.1, p.2, rfl,
        deserialize_serialize hstorable hdistinct hpayload (hshort payload hpayload) hout⟩

/-- Two objects, the first of them with two compatibility entries and placed in two chunks,
and records of all other kinds. -/
def smallSnapshot : MetadataSnapshot :=
  { epoch := ⟨3⟩
    authority := { epoch := ⟨3⟩, boot := ⟨9⟩, generation := ⟨1⟩, origin := .known .coordinator }
    objects := [
      { id := ⟨1⟩
        logicalSize := 7
        dependencies := [⟨2⟩]
        compatibility := (OrderedTable.empty.emplace (ascii "b") [1]).emplace (ascii "a") [] },
      { id := ⟨2⟩, retention := .known .pinned, createdAtMs := -1 }]
    manifests := [
      { id := ⟨4⟩
        object := ⟨1⟩
        totalLogicalLength := 7
        chunks := [{ id := ⟨1⟩, logicalLength := 3, physicalLength := 3, blob := ⟨5⟩ },
          { id := ⟨2⟩, offset := 3, logicalLength := 4, physicalLength := 4, blob := ⟨6⟩ }] }]
    placements := [
      { id := ⟨7⟩
        object := ⟨1⟩
        replica := ⟨8⟩
        backend := ⟨1⟩
        key := ascii "object-1"
        manifest := ⟨4⟩
        logicalSize := 7
        lifecycle := .known .available }]
    replicaSets := [
      { object := ⟨1⟩
        actual := 1
        replicas := [{ id := ⟨8⟩, failureDomain := ascii "rack", authoritative := true }] }]
    backends := [
      { id := ⟨1⟩, name := ascii "small", capabilities := [.known .write, .known .read] }]
    completedTransfers := [{ id := ⟨1⟩, object := ⟨1⟩, bytes := 7 }]
    authorities := [{ epoch := ⟨2⟩ }]
    accounting := { logicalObjects := 2, chunks := 2 } }

theorem snapshot_roundtrip_small :
    ∃ res out, serializeSnapshot smallSnapshot = .ok (res, out) ∧
      deserializeSnapshot out {} = .ok (res, smallSnapshot) := by
  have hshort : (encPayload smallSnapshot).all fun payload => decide (payload.length < 2 ^ 32) := by
    decide +kernel
  refine snapshot_roundtrip (by decide +kernel) (by decide +kernel) (by decide +kernel) ?_
  intro payload hpayload
  rw [hpayload] at hshort
  exact of_decide_eq_true hshort

end StorageFabric
