import StorageFabric.Persist.Snapshot

/-!
What the decoders accept is storable.

A snapshot that was read from a file can be written and read again: the bounds
that the decoder checks are those that it needs. So the file of a snapshot is read
back as the snapshot, or refused, and it is plain from the snapshot which.
-/

namespace StorageFabric

open ByteReader Codec Persist

namespace Persist

/-! ### Fields -/

section Fields

variable {Tag E α : Type}

theorem yields_id : Yields (decId : ByteReader (StrongId Tag)) fun id => id.value < 2 ^ 64 := by
  have hword : Yields (readWord 8) fun n => n < 2 ^ 64 :=
    fun _ _ _ h => (readWord_eq_some.mp h).1
  exact yields_map hword fun _ hn => hn

theorem yields_enum [Enumerators E] [DecidableEq E] {max : UInt8}
    (hmax : max.toNat + 1 = (Enumerators.all E).length) :
    Yields (decEnum max : ByteReader (EnumValue E)) EnumValue.Declared := by
  refine yields_any.bind fun b _ => ?_
  by_cases hb : max < b
  · rw [if_pos hb]
    exact yields_failure
  · rw [if_neg hb]
    apply yields_pure
    rw [EnumValue.declared_iff, EnumValue.toByte_ofByte]
    have hle := UInt8.le_iff_toNat_le.mp (UInt8.not_lt.mp hb)
    omega

theorem yields_count (bound : Nat) : Yields (decCount bound) fun n => n ≤ bound := by
  refine yields_any.bind fun n _ => ?_
  by_cases hn : bound < n.toNat
  · rw [if_pos hn]
    exact yields_failure
  · rw [if_neg hn]
    exact yields_pure (Nat.le_of_not_lt hn)

theorem yields_vec {dec : ByteReader α} {P : α → Prop} (h : Yields dec P) (bound : Nat) :
    Yields (decVec bound dec) fun l => l.length ≤ bound ∧ ∀ a ∈ l, P a := by
  refine (yields_count bound).bind fun n hn => ?_
  exact fun s l t hl => have hmany := yields_many h n s l t hl; ⟨hmany.1.trans_le hn, hmany.2⟩

end Fields

/-! ### Records -/

theorem yields_authority : Yields decAuthority AuthorityEnvelope.Storable := by
  refine yields_any.bind fun epoch _ => ?_
  refine yields_id.bind fun boot hboot => ?_
  refine yields_id.bind fun worker hworker => ?_
  refine yields_any.bind fun generation _ => ?_
  refine (yields_enum rfl).bind fun origin horigin => ?_
  exact yields_pure ⟨by simpa using ⟨hboot, hworker⟩, horigin⟩

theorem yields_object : Yields decObject ObjectDescriptor.Storable := by
  refine yields_id.bind fun id hid => ?_
  refine yields_any.bind fun generation _ => ?_
  refine (yields_enum rfl).bind fun kind hkind => ?_
  refine yields_any.bind fun logicalSize _ => ?_
  refine yields_any.bind fun digest _ => ?_
  refine yields_id.bind fun owner howner => ?_
  refine yields_any.bind fun origin _ => ?_
  refine yields_id.bind fun worker hworker => ?_
  refine yields_id.bind fun boot hboot => ?_
  refine yields_any.bind fun authorityGeneration _ => ?_
  refine yields_any.bind fun creator _ => ?_
  refine yields_any.bind fun minReplicas _ => ?_
  refine yields_any.bind fun restorePriority _ => ?_
  refine yields_any.bind fun preferred _ => ?_
  refine yields_any.bind fun nodeHint _ => ?_
  refine yields_any.bind fun retention _ => ?_
  refine yields_any.bind fun policyGeneration _ => ?_
  refine (yields_vec yields_id kMetaMaxRecords).bind fun dependencies hdependencies => ?_
  refine yields_any.bind fun ncompat _ => ?_
  refine yields_any.bind fun compatibility _ => ?_
  refine yields_any.bind fun createdAtMs _ => ?_
  exact yields_pure ⟨by simpa using ⟨hid, howner, hworker, hboot⟩, hdependencies.2, hkind⟩

theorem yields_chunk : Yields decChunk ChunkDescriptor.Storable := by
  refine yields_id.bind fun id hid => ?_
  refine yields_any.bind fun generation _ => ?_
  refine yields_any.bind fun offset _ => ?_
  refine yields_any.bind fun logicalLength _ => ?_
  refine yields_any.bind fun physicalLength _ => ?_
  refine yields_any.bind fun digest _ => ?_
  refine yields_id.bind fun blob hblob => ?_
  refine (yields_enum rfl).bind fun provenance hprovenance => ?_
  exact yields_pure ⟨by simpa using ⟨hid, hblob⟩, hprovenance⟩

theorem yields_manifest : Yields decManifest Manifest.Storable := by
  refine yields_id.bind fun id hid => ?_
  refine yields_any.bind fun generation _ => ?_
  refine yields_id.bind fun object hobject => ?_
  refine yields_any.bind fun objectGeneration _ => ?_
  refine yields_any.bind fun totalLogicalLength _ => ?_
  refine yields_any.bind fun manifestDigest _ => ?_
  refine (yields_vec yields_chunk kMetaMaxRecords).bind fun chunks hchunks => ?_
  exact yields_pure ⟨by simpa using ⟨hid, hobject⟩, hchunks.2⟩

theorem yields_placement : Yields decPlacement PlacementRecord.Storable := by
  refine yields_id.bind fun id hid => ?_
  refine yields_id.bind fun object hobject => ?_
  refine yields_any.bind fun objectGeneration _ => ?_
  refine yields_id.bind fun replica hreplica => ?_
  refine yields_any.bind fun replicaGeneration _ => ?_
  refine yields_id.bind fun backend hbackend => ?_
  refine yields_id.bind fun tier htier => ?_
  refine yields_id.bind fun volume hvolume => ?_
  refine yields_any.bind fun key _ => ?_
  refine yields_id.bind fun manifest hmanifest => ?_
  refine yields_any.bind fun logicalSize _ => ?_
  refine yields_any.bind fun physicalSize _ => ?_
  refine yields_any.bind fun digest _ => ?_
  refine yields_any.bind fun durabilityReplicas _ => ?_
  refine yields_any.bind fun locality _ => ?_
  refine yields_any.bind fun lifecycle _ => ?_
  refine yields_any.bind fun freshness _ => ?_
  refine yields_any.bind fun authorityGeneration _ => ?_
  refine yields_any.bind fun provenance _ => ?_
  refine yields_id.bind fun writerWorker hworker => ?_
  refine yields_id.bind fun writerBoot hboot => ?_
  refine yields_any.bind fun placementGeneration _ => ?_
  refine yields_any.bind fun createdAtMs _ => ?_
  refine yields_any.bind fun availableAtMs _ => ?_
  exact yields_pure ⟨by
    simpa using ⟨hid, hobject, hreplica, hbackend, htier, hvolume, hmanifest, hworker, hboot⟩⟩

theorem yields_replica : Yields decReplica ReplicaInfo.Storable := by
  refine yields_id.bind fun id hid => ?_
  refine yields_any.bind fun generation _ => ?_
  refine yields_id.bind fun backend hbackend => ?_
  refine yields_id.bind fun node hnode => ?_
  refine yields_any.bind fun failureDomain _ => ?_
  refine yields_any.bind fun logicalSize _ => ?_
  refine yields_any.bind fun physicalSize _ => ?_
  refine (yields_enum rfl).bind fun state hstate => ?_
  refine yields_any.bind fun placementGeneration _ => ?_
  refine yields_any.bind fun authoritative _ => ?_
  exact yields_pure ⟨by simpa using ⟨hid, hbackend, hnode⟩, hstate⟩

theorem yields_replicaSet : Yields decReplicaSet ReplicaSet.Storable := by
  refine yields_id.bind fun object hobject => ?_
  refine yields_any.bind fun currentGeneration _ => ?_
  refine yields_any.bind fun required _ => ?_
  refine yields_any.bind fun actual _ => ?_
  refine yields_any.bind fun distinctFailureDomains _ => ?_
  refine yields_any.bind fun authoritativeReplicas _ => ?_
  refine (yields_enum rfl).bind fun state hstate => ?_
  refine yields_any.bind fun authorityGeneration _ => ?_
  refine (yields_vec yields_replica kMetaMaxRecords).bind fun replicas hreplicas => ?_
  refine yields_any.bind fun updatedAtMs _ => ?_
  exact yields_pure ⟨hobject, hstate, hreplicas.2⟩

theorem yields_backend : Yields decBackend BackendDescriptor.Storable := by
  refine yields_id.bind fun id hid => ?_
  refine yields_id.bind fun tier htier => ?_
  refine yields_id.bind fun node hnode => ?_
  refine yields_any.bind fun name _ => ?_
  refine yields_any.bind fun generation _ => ?_
  refine yields_any.bind fun totalBytes _ => ?_
  refine yields_any.bind fun freeBytes _ => ?_
  refine yields_any.bind fun reservedBytes _ => ?_
  refine yields_any.bind fun committedBytes _ => ?_
  refine yields_any.bind fun reclaimableBytes _ => ?_
  refine yields_any.bind fun unknown _ => ?_
  refine (yields_vec (yields_enum rfl) kMetaMaxCapabilities).bind fun capabilities hcaps => ?_
  refine (yields_enum rfl).bind fun health hhealth => ?_
  refine (yields_enum rfl).bind fun freshness hfreshness => ?_
  refine (yields_enum rfl).bind fun provenance hprovenance => ?_
  refine yields_any.bind fun registeredAtMs _ => ?_
  exact yields_pure ⟨by simpa using ⟨hid, htier, hnode⟩, hcaps.1, hcaps.2, hhealth, hfreshness,
    hprovenance⟩

theorem yields_transfer : Yields decTransfer CompletedTransferRecord.Storable := by
  refine yields_id.bind fun id hid => ?_
  refine (yields_enum rfl).bind fun kind hkind => ?_
  refine yields_id.bind fun object hobject => ?_
  refine yields_id.bind fun sourceBackend hsource => ?_
  refine yields_id.bind fun targetBackend htarget => ?_
  refine yields_any.bind fun bytes _ => ?_
  refine (yields_enum rfl).bind fun state hstate => ?_
  refine yields_any.bind fun finishedAtMs _ => ?_
  exact yields_pure ⟨by simpa using ⟨hid, hobject, hsource, htarget⟩, hkind, hstate⟩

/-! ### The payload -/

theorem yields_records {α : Type} {dec : ByteReader α} {P : α → Prop}
    (countDetail detail : String) (h : Yields dec P) :
    Yields (decRecords countDetail detail dec) fun l => ∀ a ∈ l, P a := by
  refine yields_any.bind fun n _ => ?_
  exact fun s l t hl => ((yields_many h n).label _ s l t hl).2

theorem yields_payload : Yields (decPayload {}) MetadataSnapshot.Storable := by
  refine yields_any.bind fun _ _ => ?_
  refine yields_any.bind fun epoch _ => ?_
  refine (yields_authority.label _).bind fun authority hauthority => ?_
  refine yields_any.bind fun policyGeneration _ => ?_
  refine yields_any.bind fun savedAtMs _ => ?_
  refine yields_any.bind fun accounting _ => ?_
  refine (yields_records _ _ yields_object).bind fun objects hobjects => ?_
  refine (yields_records _ _ yields_manifest).bind fun manifests hmanifests => ?_
  refine (yields_records _ _ yields_placement).bind fun placements hplacements => ?_
  refine (yields_records _ _ yields_replicaSet).bind fun replicaSets hreplicaSets => ?_
  refine (yields_records _ _ yields_backend).bind fun backends hbackends => ?_
  refine (yields_records _ _ yields_transfer).bind fun transfers htransfers => ?_
  refine (yields_records _ _ yields_authority).bind fun authorities hauthorities => ?_
  exact yields_pure ⟨hauthority, hobjects, hmanifests, hplacements, hreplicaSets, hbackends,
    htransfers, hauthorities⟩

end Persist

theorem deserialize_ok {data : Bytes} {res : PersistResult} {snap : MetadataSnapshot}
    (h : deserializeSnapshot data {} = .ok (res, snap)) : snap.Storable ∧ snap.Distinct := by
  obtain ⟨payload, -, -, -, hread, hids⟩ := deserialize_eq_ok.mp h
  exact ⟨yields_payload _ _ _ hread, checkIds_eq_ok.mp hids⟩

/-! ### One's own file -/

/-- The file of the snapshot can be read back. -/
structure MetadataSnapshot.Legible (snap : MetadataSnapshot) : Prop where
  storable : snap.Storable
  distinct : snap.Distinct
  short : ∀ payload, encPayload snap = some payload → payload.length < 2 ^ 32

/-- The decoder finds the snapshot in its file, or nothing. -/
theorem deserialize_own {snap : MetadataSnapshot} (hwide : snap.Wide) {res : PersistResult}
    {out : Bytes} (h : serializeSnapshot snap = .ok (res, out)) :
    snap.Legible ∧ deserializeSnapshot out {} = .ok (res, snap) ∨
      ¬snap.Legible ∧ ∃ s, deserializeSnapshot out {} = .error s := by
  obtain ⟨payload, hpayload⟩ : ∃ payload, encPayload snap = some payload := by
    cases hp : encPayload snap with
    | some payload => exact ⟨payload, rfl⟩
    | none =>
        rw [serializeSnapshot, hp] at h
        cases h
  by_cases hlegible : snap.Legible
  · exact .inl ⟨hlegible, deserialize_serialize hlegible.storable hlegible.distinct hpayload
      (hlegible.short payload hpayload) h⟩
  · refine .inr ⟨hlegible, ?_⟩
    cases hread : deserializeSnapshot out {} with
    | error s => exact ⟨s, rfl⟩
    | ok p =>
        obtain ⟨res', snap'⟩ := p
        obtain ⟨payload', hshort, hblob, -, hpayload', -⟩ := deserialize_eq_ok.mp hread
        rw [serializeSnapshot_eq hpayload] at h
        obtain rfl : metaBlob payload = out := (Prod.mk.inj (Except.ok.inj h)).2
        -- the file has one payload, and of that the decoder takes the snapshot
        have hsame := congrArg (List.drop 45) hblob
        rw [drop_metaBlob, drop_metaBlob] at hsame
        subst hsame
        have honly := ((readsIf_payload hwide) payload hpayload []).2
        rw [List.append_nil] at honly
        obtain rfl : snap' = snap := (Prod.mk.inj (honly _ hpayload')).1
        obtain ⟨hstorable, hdistinct⟩ := deserialize_ok hread
        refine absurd ⟨hstorable, hdistinct, fun payload' hp => ?_⟩ hlegible
        obtain rfl := Option.some.inj (hpayload.symm.trans hp)
        exact hshort

end StorageFabric
