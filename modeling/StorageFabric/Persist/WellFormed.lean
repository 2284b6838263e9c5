import StorageFabric.Persist.Layout

/-!
Which of the accepted snapshots are well formed.

The decoder looks at some enumerations and at some ids only. A snapshot that it
accepts is well formed exactly when the bytes that it does not look at are.
-/

namespace StorageFabric

open ByteWriter ByteReader Codec Persist

/-! ### Well-formed records -/

@[mk_iff]
structure ObjectDescriptor.EnumsDeclared (o : ObjectDescriptor) : Prop where
  kind : o.kind.Declared
  origin : o.provenance.origin.Declared
  restorePriority : o.restorePriority.Declared
  preferred : o.locality.preferred.Declared
  retention : o.retention.Declared

instance (o : ObjectDescriptor) : Decidable o.EnumsDeclared :=
  decidable_of_iff _ (ObjectDescriptor.enumsDeclared_iff o).symm

@[mk_iff]
structure PlacementRecord.EnumsDeclared (p : PlacementRecord) : Prop where
  lifecycle : p.lifecycle.Declared
  freshness : p.freshness.Declared
  provenance : p.provenance.Declared

instance (p : PlacementRecord) : Decidable p.EnumsDeclared :=
  decidable_of_iff _ (PlacementRecord.enumsDeclared_iff p).symm

@[mk_iff]
structure ReplicaSet.EnumsDeclared (rs : ReplicaSet) : Prop where
  state : rs.state.Declared
  replicas : ∀ r ∈ rs.replicas, r.state.Declared

instance (rs : ReplicaSet) : Decidable rs.EnumsDeclared :=
  decidable_of_iff _ (ReplicaSet.enumsDeclared_iff rs).symm

@[mk_iff]
structure BackendDescriptor.EnumsDeclared (b : BackendDescriptor) : Prop where
  capabilities : ∀ c ∈ b.capabilities, c.Declared
  health : b.health.Declared
  freshness : b.freshness.Declared
  provenance : b.provenance.Declared

instance (b : BackendDescriptor) : Decidable b.EnumsDeclared :=
  decidable_of_iff _ (BackendDescriptor.enumsDeclared_iff b).symm

/-- Every enumeration of every record has the value of an enumerator, and no id is
given twice. -/
@[mk_iff]
structure MetadataSnapshot.WellFormed (snap : MetadataSnapshot) : Prop where
  authority : snap.authority.origin.Declared
  objects : ∀ o ∈ snap.objects, o.EnumsDeclared
  chunks : ∀ m ∈ snap.manifests, ∀ c ∈ m.chunks, c.provenance.Declared
  placements : ∀ p ∈ snap.placements, p.EnumsDeclared
  replicaSets : ∀ rs ∈ snap.replicaSets, rs.EnumsDeclared
  backends : ∀ b ∈ snap.backends, b.EnumsDeclared
  completedTransfers : ∀ t ∈ snap.completedTransfers, t.kind.Declared ∧ t.state.Declared
  authorities : ∀ a ∈ snap.authorities, a.origin.Declared
  objectIds : (snap.objects.map ObjectDescriptor.id).Nodup
  manifestIds : (snap.manifests.map Manifest.id).Nodup
  placementIds : (snap.placements.map PlacementRecord.id).Nodup
  replicaIds : (snap.placements.map PlacementRecord.replica).Nodup
  backendIds : (snap.backends.map BackendDescriptor.id).Nodup
  replicaSetObjects : (snap.replicaSets.map ReplicaSet.object).Nodup

instance (snap : MetadataSnapshot) : Decidable snap.WellFormed :=
  decidable_of_iff _ (MetadataSnapshot.wellFormed_iff snap).symm

/-- The bytes of the enumerations that are cast are those of enumerators, and the
backends and the replica sets have distinct ids. -/
@[mk_iff]
structure Persist.PayloadFields.Valid (f : PayloadFields) : Prop where
  objects : ∀ o ∈ f.objects, ∀ e ∈ o.1, e.Valid
  placements : ∀ p ∈ f.placements, ∀ e ∈ p, e.Valid
  replicaSets : f.replicaSets.Nodup
  backends : f.backends.Nodup

instance (f : PayloadFields) : Decidable f.Valid :=
  decidable_of_iff _ (PayloadFields.valid_iff f).symm

/-- The unchecked fields of a blob: its payload starts behind a header of `45` bytes. -/
def metaFields (data : Bytes) : Option PayloadFields :=
  (payloadFields.run (data.drop 45)).map Prod.fst

namespace Persist

theorem castFields_valid {o : ObjectDescriptor} :
    (∀ e ∈ castFields o, e.Valid) ↔ o.provenance.origin.Declared ∧ o.restorePriority.Declared ∧
      o.locality.preferred.Declared ∧ o.retention.Declared := by
  simp [castFields, EnumField.valid_of_iff]

theorem placementCastFields_valid {p : PlacementRecord} :
    (∀ e ∈ placementCastFields p, e.Valid) ↔ p.EnumsDeclared := by
  simp [placementCastFields, EnumField.valid_of_iff, PlacementRecord.enumsDeclared_iff]

theorem nodup_map_value {α Tag : Type} {f : α → StrongId Tag} {l : List α} :
    (l.map fun a => (f a).value).Nodup ↔ (l.map f).Nodup := by
  have hinj : Function.Injective (StrongId.value : StrongId Tag → Nat) :=
    fun a b h => StrongId.ext h
  rw [← List.nodup_map_iff hinj, List.map_map]
  rfl

/-- For records as the decoder leaves them, the unchecked fields decide. -/
theorem wellFormed_iff_fieldsOf {objects : List OrderedObject} {snap : MetadataSnapshot}
    (hobjects : objects.map OrderedObject.object = snap.objects) (hstorable : snap.Storable)
    (hdistinct : snap.Distinct) : snap.WellFormed ↔ (fieldsOf objects snap).Valid := by
  have hcast : (∀ p ∈ objects, ∀ e ∈ castFields p.object, e.Valid) ↔
      ∀ o ∈ snap.objects, ∀ e ∈ castFields o, e.Valid := by
    rw [← hobjects, List.forall_mem_map]
  simp only [PayloadFields.valid_iff, fieldsOf, List.forall_mem_map, nodup_map_value]
  rw [hcast]
  simp only [castFields_valid, placementCastFields_valid]
  constructor
  · intro h
    refine ⟨fun o ho => ?_, h.placements, h.replicaSetObjects, h.backendIds⟩
    obtain ⟨-, horigin, hpriority, hpreferred, hretention⟩ := h.objects o ho
    exact ⟨horigin, hpriority, hpreferred, hretention⟩
  · rintro ⟨hcasts, hplacements, hsets, hbackends⟩
    refine
      { authority := hstorable.authority.origin
        objects := fun o ho => ?_
        chunks := fun m hm c hc => ((hstorable.manifests m hm).chunks c hc).provenance
        placements := hplacements
        replicaSets := fun rs hrs => ?_
        backends := fun b hb => ?_
        completedTransfers := fun t ht => ?_
        authorities := fun a ha => (hstorable.authorities a ha).origin
        objectIds := hdistinct.objects
        manifestIds := hdistinct.manifests
        placementIds := hdistinct.placements
        replicaIds := hdistinct.replicas
        backendIds := hbackends
        replicaSetObjects := hsets }
    · obtain ⟨horigin, hpriority, hpreferred, hretention⟩ := hcasts o ho
      exact ⟨(hstorable.objects o ho).kind, horigin, hpriority, hpreferred, hretention⟩
    · have hrs := hstorable.replicaSets rs hrs
      exact ⟨hrs.state, fun r hr => (hrs.replicas r hr).state⟩
    · have hb := hstorable.backends b hb
      exact ⟨hb.capabilities, hb.health, hb.freshness, hb.provenance⟩
    · have ht := hstorable.completedTransfers t ht
      exact ⟨ht.kind, ht.state⟩

end Persist

theorem deserialize_written {data : Bytes} {res : PersistResult} {snap : MetadataSnapshot}
    (h : deserializeSnapshot data {} = .ok (res, snap)) :
    ∃ (payload : Bytes) (objects : List OrderedObject), payload.length < 2 ^ 32 ∧
      data = metaBlob payload ∧ objects.map OrderedObject.object = snap.objects ∧
      encPayloadAs objects snap = some payload := by
  obtain ⟨payload, hshort, hdata, -, hread, -⟩ := deserialize_eq_ok.mp h
  obtain ⟨bs, hbs, objects, hobjects, hpayload⟩ := consumes_payload _ _ _ hread
  rw [List.append_nil] at hbs
  subst hbs
  exact ⟨payload, objects, hshort, hdata, hobjects, hpayload⟩

theorem metaFields_metaBlob {objects : List OrderedObject} {snap : MetadataSnapshot}
    (hstorable : snap.Storable) {payload : Bytes} (h : encPayloadAs objects snap = some payload) :
    metaFields (metaBlob payload) = some (fieldsOf objects snap) := by
  have hread := reads_payloadFields hstorable payload h []
  rw [List.append_nil] at hread
  rw [metaFields, drop_metaBlob, hread]
  rfl

/-- An accepted snapshot is well formed exactly when the fields that the decoder does not
check are valid as they stand in the blob. -/
theorem accepted_wellFormed_iff {data : Bytes} {res : PersistResult} {snap : MetadataSnapshot}
    (h : deserializeSnapshot data {} = .ok (res, snap)) :
    snap.WellFormed ↔ ∃ f, metaFields data = some f ∧ f.Valid := by
  obtain ⟨hstorable, hdistinct⟩ := deserialize_ok h
  obtain ⟨payload, objects, -, rfl, hobjects, hpayload⟩ := deserialize_written h
  rw [wellFormed_iff_fieldsOf hobjects hstorable hdistinct, metaFields_metaBlob hstorable hpayload]
  simp

theorem accepted_of_storable {snap : MetadataSnapshot} (hstorable : snap.Storable)
    (hdistinct : snap.Distinct)
    (hshort : (encPayload snap).any fun payload => payload.length < 2 ^ 32) :
    ∃ data res, serializeSnapshot snap = .ok (res, data) ∧
      deserializeSnapshot data {} = .ok (res, snap) := by
  obtain ⟨payload, hpayload, hshort⟩ := (Option.any_eq_true _ _).mp hshort
  have hserialize := serializeSnapshot_eq hpayload
  exact ⟨_, _, hserialize, deserialize_serialize hstorable hdistinct hpayload
    (of_decide_eq_true hshort) hserialize⟩

def oneObject (retention : EnumValue RetentionPolicy) : MetadataSnapshot :=
  { objects := [{ retention }] }

/-- A retention policy that is no enumerator is accepted. -/
theorem accepted_undeclared : ∃ data res,
    serializeSnapshot (oneObject (.ofByte 9)) = .ok (res, data) ∧
    deserializeSnapshot data {} = .ok (res, oneObject (.ofByte 9)) ∧
    ¬(oneObject (.ofByte 9)).WellFormed := by
  obtain ⟨data, res, hserialize, h⟩ := @accepted_of_storable (oneObject (.ofByte 9)) (by decide)
    (by decide) (by decide +kernel)
  exact ⟨data, res, hserialize, h, by decide⟩

/-- An accepted blob whose unchecked fields are valid. -/
theorem accepted_wellFormed_oneObject : ∃ data res,
    deserializeSnapshot data {} = .ok (res, oneObject (.known .lruClass)) ∧
    ∃ f, metaFields data = some f ∧ f.Valid := by
  obtain ⟨data, res, -, h⟩ := @accepted_of_storable (oneObject (.known .lruClass)) (by decide)
    (by decide) (by decide +kernel)
  exact ⟨data, res, h, (accepted_wellFormed_iff h).mp (by decide)⟩

end StorageFabric
