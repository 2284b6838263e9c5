import StorageFabric.Persist.Decoded

/-!
What the decoders take off a payload is what the encoders write.

Every field has one encoding that its decoder accepts, with one exception: the
compatibility entries of an object may come in any order. `encObjectAs` writes an
object with its entries in a given order.
-/

namespace StorageFabric

open ByteWriter ByteReader Codec Persist

namespace Persist

/-! ### Fields -/

section Fields

variable {Tag E α : Type}

theorem consumes_u8 : Consumes readU8 fun v bs => encU8 v = some bs :=
  fun _ v _ h => ⟨putU8 v, readU8_eq_some.mp h, rfl⟩

theorem consumes_u32 : Consumes readU32 fun v bs => encU32 v = some bs :=
  fun _ v _ h => ⟨putU32 v, readU32_eq_some.mp h, rfl⟩

theorem consumes_u64 : Consumes readU64 fun v bs => encU64 v = some bs :=
  fun _ v _ h => ⟨putU64 v, readU64_eq_some.mp h, rfl⟩

theorem consumes_blob : Consumes readBlob fun b bs => some (putBlob b) = some bs :=
  fun _ b _ h => ⟨putBlob b, (readBlob_eq_some.mp h).2, rfl⟩

theorem consumes_digest : Consumes decDigest fun d bs => encDigest d = some bs := by
  refine consumes_blob.bind fun b bs hb => ?_
  by_cases hsize : b.length = 32
  · rw [dif_pos hsize]
    exact consumes_pure (by simpa [encDigest] using hb)
  · rw [dif_neg hsize]
    exact consumes_failure

theorem consumes_str : Consumes decStr fun s bs => encStr s = some bs := by
  refine consumes_blob.bind fun b bs hb => ?_
  by_cases hlong : kMetaMaxString < b.length
  · rw [if_pos hlong]
    exact consumes_failure
  · rw [if_neg hlong]
    exact consumes_pure (by simpa [encStr, hlong] using hb)

theorem consumes_id : Consumes (decId : ByteReader (StrongId Tag)) fun id bs =>
    encId id = some bs := by
  have hword : Consumes (readWord 8) fun n bs => some (LittleEndian.encode 8 n) = some bs :=
    fun _ n _ h => ⟨_, (readWord_eq_some.mp h).2, rfl⟩
  exact hword.map fun _ _ h => h

theorem consumes_g : Consumes (decG : ByteReader (Generation Tag)) fun g bs => encG g = some bs :=
  consumes_u64.map fun _ _ h => h

theorem consumes_i64 : Consumes decI64 fun v bs => encI64 v = some bs :=
  consumes_u64.map fun _ _ h => h

theorem consumes_bool : Consumes decBool fun b bs => encBool b = some bs := by
  refine consumes_u8.bind fun b bs hb => ?_
  by_cases hbound : 1 < b
  · rw [if_pos hbound]
    exact consumes_failure
  · rw [if_neg hbound]
    refine consumes_pure ?_
    have hvalue : (if decide (b = 1) = true then (1 : UInt8) else 0) = b := by
      by_cases hone : b = 1
      · simp [hone]
      · have hle := UInt8.le_iff_toNat_le.mp (UInt8.not_lt.mp hbound)
        have hne : b.toNat ≠ 1 := fun h => hone (UInt8.toNat_inj.mp h)
        have hzero : b = 0 := UInt8.toNat_inj.mp (by simp at hle ⊢; omega)
        simp [hzero]
    rw [encBool, hvalue, List.append_nil]
    exact hb

variable [Enumerators E] [DecidableEq E]

theorem consumes_enum (max : UInt8) :
    Consumes (decEnum max : ByteReader (EnumValue E)) fun e bs => encEnum e = some bs := by
  refine consumes_u8.bind fun b bs hb => ?_
  by_cases hbound : max < b
  · rw [if_pos hbound]
    exact consumes_failure
  · rw [if_neg hbound]
    exact consumes_pure (by simpa [encEnum, encU8] using hb)

theorem consumes_cast :
    Consumes (castEnum : ByteReader (EnumValue E)) fun e bs => encEnum e = some bs :=
  consumes_u8.map fun b bs hb => by simpa [encEnum, encU8] using hb

end Fields

/-! ### Vectors -/

section Vectors

variable {α : Type}

theorem consumes_count (bound : Nat) :
    Consumes (decCount bound) fun n bs =>
      n ≤ bound ∧ some (putU32 (UInt32.ofNat n)) = some bs := by
  refine consumes_u32.bind fun n bs hn => ?_
  by_cases hbound : bound < n.toNat
  · rw [if_pos hbound]
    exact consumes_failure
  · rw [if_neg hbound]
    refine consumes_pure ⟨Nat.le_of_not_lt hbound, ?_⟩
    rw [UInt32.ofNat_toNat, List.append_nil]
    exact hn

theorem consumes_vec {β : Type} {enc : β → Writer} {f : β → α} {dec : ByteReader α}
    (h : Consumes dec fun a bs => ∃ b, f b = a ∧ enc b = some bs) {bound : Nat}
    (hbound : bound ≤ kMetaMaxRecords) :
    Consumes (decVec bound dec) fun l bs => ∃ l' : List β, l'.map f = l ∧
      encVec enc l' = some bs := by
  refine (consumes_count bound).bind fun n bs ⟨hn, hcount⟩ => ?_
  refine (consumes_many h n).mono fun l cs ⟨hl, hspelled⟩ => ?_
  obtain ⟨l', rfl, hl'⟩ := hspelled.exists_map
  rw [List.length_map] at hl
  refine ⟨l', rfl, ?_⟩
  rw [encVec, hl, if_neg (Nat.not_lt.mpr (hn.trans hbound)), hcount]
  exact fields_cons_eq_some.mpr ⟨bs, cs, rfl, hl', rfl⟩

theorem consumes_encVec {enc : α → Writer} {dec : ByteReader α}
    (h : Consumes dec fun a bs => enc a = some bs) {bound : Nat} (hbound : bound ≤ kMetaMaxRecords) :
    Consumes (decVec bound dec) fun l bs => encVec enc l = some bs := by
  have hvec := @consumes_vec α α enc id dec
    (h.mono fun a bs hbs => ⟨a, rfl, hbs⟩) bound hbound
  refine hvec.mono fun l bs ⟨l', hl', hbs⟩ => ?_
  rw [← hl', List.map_id]
  exact hbs

end Vectors

/-! ### Records -/

theorem consumes_authority : Consumes decAuthority fun a bs => encAuthority a = some bs := by
  refine consumes_g.bind fun epoch _ _ => ?_
  refine consumes_id.bind fun boot _ _ => ?_
  refine consumes_id.bind fun worker _ _ => ?_
  refine consumes_g.bind fun generation _ _ => ?_
  refine (consumes_enum 5).bind fun origin _ _ => ?_
  exact consumes_pure (by simp [encAuthority, fields, *])

/-- An object, with its compatibility entries in the order given. -/
def encObjectAs (entries : List (Bytes × Bytes)) (o : ObjectDescriptor) : Writer :=
  fields [encId o.id, encG o.generation, encEnum o.kind, encU64 o.logicalSize, encDigest o.digest,
    encId o.owner, encEnum o.provenance.origin, encId o.provenance.worker,
    encId o.provenance.boot, encG o.provenance.authorityGeneration, encStr o.provenance.creator,
    encU32 o.durability.minReplicas, encEnum o.restorePriority, encEnum o.locality.preferred,
    encStr o.locality.nodeHint, encEnum o.retention, encG o.policyGeneration,
    encVec encId o.dependencies,
    encVec (fun kv => fields [encStr kv.1, encStr kv.2]) entries, encI64 o.createdAtMs]

/-- An object and its compatibility entries in some order. -/
structure OrderedObject where
  object : ObjectDescriptor
  entries : List (Bytes × Bytes)
  perm : entries.Perm object.compatibility.entries

def OrderedObject.of (o : ObjectDescriptor) : OrderedObject := ⟨o, o.compatibility.entries, .refl _⟩

def encOrdered (o : OrderedObject) : Writer := encObjectAs o.entries o.object

theorem encOrdered_of (o : ObjectDescriptor) : encOrdered (.of o) = encObject o := rfl

theorem consumes_compatibility (n : Nat) (t : CompatibilityMetadata) :
    Consumes (decCompatibility n t) fun t' bs => ∃ entries : List (Bytes × Bytes),
      entries.length = n ∧ t'.entries.Perm (entries ++ t.entries) ∧
      fields (entries.map fun kv => fields [encStr kv.1, encStr kv.2]) = some bs := by
  induction n generalizing t with
  | zero => exact consumes_pure ⟨[], rfl, .refl _, rfl⟩
  | succ n ih =>
      refine consumes_str.bind fun k bs hk => consumes_str.bind fun v cs hv => ?_
      by_cases hcontains : t.contains k = true
      · rw [if_pos hcontains]
        exact consumes_failure
      · rw [if_neg hcontains]
        refine (ih (t.emplace k v)).mono fun t' ds ⟨entries, hlength, hperm, hds⟩ => ?_
        refine ⟨(k, v) :: entries, by rw [List.length_cons, hlength], ?_, ?_⟩
        · refine hperm.trans ?_
          exact ((OrderedTable.perm_emplace hcontains v).append_left entries).trans
            List.perm_middle
        · rw [List.map_cons, fields_cons_eq_some]
          exact ⟨bs ++ cs, ds, by simp [fields, hk, hv], hds, by rw [List.append_assoc]⟩

theorem consumes_object : Consumes decObject fun o bs =>
    ∃ p : OrderedObject, p.object = o ∧ encOrdered p = some bs := by
  refine consumes_id.bind fun id _ _ => ?_
  refine consumes_g.bind fun generation _ _ => ?_
  refine (consumes_enum 11).bind fun kind _ _ => ?_
  refine consumes_u64.bind fun logicalSize _ _ => ?_
  refine consumes_digest.bind fun digest _ _ => ?_
  refine consumes_id.bind fun owner _ _ => ?_
  refine consumes_cast.bind fun origin _ _ => ?_
  refine consumes_id.bind fun worker _ _ => ?_
  refine consumes_id.bind fun boot _ _ => ?_
  refine consumes_g.bind fun authorityGeneration _ _ => ?_
  refine consumes_str.bind fun creator _ _ => ?_
  refine consumes_u32.bind fun minReplicas _ _ => ?_
  refine consumes_cast.bind fun restorePriority _ _ => ?_
  refine consumes_cast.bind fun preferred _ _ => ?_
  refine consumes_str.bind fun nodeHint _ _ => ?_
  refine consumes_cast.bind fun retention _ _ => ?_
  refine consumes_g.bind fun policyGeneration _ _ => ?_
  refine (consumes_encVec consumes_id (Nat.le_refl _)).bind fun dependencies _ _ => ?_
  refine (consumes_count kMetaMaxRecords).bind fun ncompat countBytes hcount => ?_
  refine (consumes_compatibility ncompat .empty).bind fun compatibility entryBytes hentries => ?_
  refine consumes_i64.bind fun createdAtMs _ _ => ?_
  obtain ⟨hn, hcount⟩ := hcount
  obtain ⟨entries, rfl, hperm, hentries⟩ := hentries
  have hvec : encVec (fun kv => fields [encStr kv.1, encStr kv.2]) entries =
      some (countBytes ++ entryBytes) := by
    rw [encVec, if_neg (Nat.not_lt.mpr hn), hcount]
    exact fields_cons_eq_some.mpr ⟨countBytes, entryBytes, rfl, hentries, rfl⟩
  have hperm : entries.Perm compatibility.entries := by
    simpa [OrderedTable.empty] using hperm.symm
  refine consumes_pure ⟨⟨_, entries, hperm⟩, rfl, ?_⟩
  rw [encOrdered, encObjectAs, hvec]
  simp [fields, *]

theorem consumes_chunk : Consumes decChunk fun c bs => encChunk c = some bs := by
  refine consumes_id.bind fun id _ _ => ?_
  refine consumes_g.bind fun generation _ _ => ?_
  refine consumes_u64.bind fun offset _ _ => ?_
  refine consumes_u64.bind fun logicalLength _ _ => ?_
  refine consumes_u64.bind fun physicalLength _ _ => ?_
  refine consumes_digest.bind fun digest _ _ => ?_
  refine consumes_id.bind fun blob _ _ => ?_
  refine (consumes_enum 5).bind fun provenance _ _ => ?_
  exact consumes_pure (by simp [encChunk, fields, *])

theorem consumes_manifest : Consumes decManifest fun m bs => encManifest m = some bs := by
  refine consumes_id.bind fun id _ _ => ?_
  refine consumes_g.bind fun generation _ _ => ?_
  refine consumes_id.bind fun object _ _ => ?_
  refine consumes_g.bind fun objectGeneration _ _ => ?_
  refine consumes_u64.bind fun totalLogicalLength _ _ => ?_
  refine consumes_digest.bind fun manifestDigest _ _ => ?_
  refine (consumes_encVec consumes_chunk (Nat.le_refl _)).bind fun chunks _ _ => ?_
  exact consumes_pure (by simp [encManifest, fields, *])

theorem consumes_placement : Consumes decPlacement fun p bs => encPlacement p = some bs := by
  refine consumes_id.bind fun id _ _ => ?_
  refine consumes_id.bind fun object _ _ => ?_
  refine consumes_g.bind fun objectGeneration _ _ => ?_
  refine consumes_id.bind fun replica _ _ => ?_
  refine consumes_g.bind fun replicaGeneration _ _ => ?_
  refine consumes_id.bind fun backend _ _ => ?_
  refine consumes_id.bind fun tier _ _ => ?_
  refine consumes_id.bind fun volume _ _ => ?_
  refine consumes_str.bind fun key _ _ => ?_
  refine consumes_id.bind fun manifest _ _ => ?_
  refine consumes_u64.bind fun logicalSize _ _ => ?_
  refine consumes_u64.bind fun physicalSize _ _ => ?_
  refine consumes_digest.bind fun digest _ _ => ?_
  refine consumes_u32.bind fun durabilityReplicas _ _ => ?_
  refine consumes_str.bind fun locality _ _ => ?_
  refine consumes_cast.bind fun lifecycle _ _ => ?_
  refine consumes_cast.bind fun freshness _ _ => ?_
  refine consumes_g.bind fun authorityGeneration _ _ => ?_
  refine consumes_cast.bind fun provenance _ _ => ?_
  refine consumes_id.bind fun writerWorker _ _ => ?_
  refine consumes_id.bind fun writerBoot _ _ => ?_
  refine consumes_g.bind fun placementGeneration _ _ => ?_
  refine consumes_i64.bind fun createdAtMs _ _ => ?_
  refine consumes_i64.bind fun availableAtMs _ _ => ?_
  exact consumes_pure (by simp [encPlacement, fields, *])

theorem consumes_replica : Consumes decReplica fun r bs => encReplica r = some bs := by
  refine consumes_id.bind fun id _ _ => ?_
  refine consumes_g.bind fun generation _ _ => ?_
  refine consumes_id.bind fun backend _ _ => ?_
  refine consumes_id.bind fun node _ _ => ?_
  refine consumes_str.bind fun failureDomain _ _ => ?_
  refine consumes_u64.bind fun logicalSize _ _ => ?_
  refine consumes_u64.bind fun physicalSize _ _ => ?_
  refine (consumes_enum 5).bind fun state _ _ => ?_
  refine consumes_g.bind fun placementGeneration _ _ => ?_
  refine consumes_bool.bind fun authoritative _ _ => ?_
  exact consumes_pure (by simp [encReplica, fields, *])

theorem consumes_replicaSet : Consumes decReplicaSet fun rs bs => encReplicaSet rs = some bs := by
  refine consumes_id.bind fun object _ _ => ?_
  refine consumes_g.bind fun currentGeneration _ _ => ?_
  refine consumes_u32.bind fun required _ _ => ?_
  refine consumes_u32.bind fun actual _ _ => ?_
  refine consumes_u32.bind fun distinctFailureDomains _ _ => ?_
  refine consumes_u32.bind fun authoritativeReplicas _ _ => ?_
  refine (consumes_enum 5).bind fun state _ _ => ?_
  refine consumes_g.bind fun authorityGeneration _ _ => ?_
  refine (consumes_encVec consumes_replica (Nat.le_refl _)).bind fun replicas _ _ => ?_
  refine consumes_i64.bind fun updatedAtMs _ _ => ?_
  exact consumes_pure (by simp [encReplicaSet, fields, *])

theorem consumes_backend : Consumes decBackend fun b bs => encBackend b = some bs := by
  refine consumes_id.bind fun id _ _ => ?_
  refine consumes_id.bind fun tier _ _ => ?_
  refine consumes_id.bind fun node _ _ => ?_
  refine consumes_str.bind fun name _ _ => ?_
  refine consumes_g.bind fun generation _ _ => ?_
  refine consumes_u64.bind fun totalBytes _ _ => ?_
  refine consumes_u64.bind fun freeBytes _ _ => ?_
  refine consumes_u64.bind fun reservedBytes _ _ => ?_
  refine consumes_u64.bind fun committedBytes _ _ => ?_
  refine consumes_u64.bind fun reclaimableBytes _ _ => ?_
  refine consumes_bool.bind fun unknown _ _ => ?_
  refine (consumes_encVec (consumes_enum 10) (by decide)).bind fun capabilities _ _ => ?_
  refine (consumes_enum 4).bind fun health _ _ => ?_
  refine (consumes_enum 3).bind fun freshness _ _ => ?_
  refine (consumes_enum 4).bind fun provenance _ _ => ?_
  refine consumes_i64.bind fun registeredAtMs _ _ => ?_
  exact consumes_pure (by simp [encBackend, fields, *])

theorem consumes_transfer : Consumes decTransfer fun t bs => encTransfer t = some bs := by
  refine consumes_id.bind fun id _ _ => ?_
  refine (consumes_enum 7).bind fun kind _ _ => ?_
  refine consumes_id.bind fun object _ _ => ?_
  refine consumes_id.bind fun sourceBackend _ _ => ?_
  refine consumes_id.bind fun targetBackend _ _ => ?_
  refine consumes_u64.bind fun bytes _ _ => ?_
  refine (consumes_enum 6).bind fun state _ _ => ?_
  refine consumes_i64.bind fun finishedAtMs _ _ => ?_
  exact consumes_pure (by simp [encTransfer, fields, *])

theorem consumes_accounting : Consumes decAccounting fun a bs => encAccounting a = some bs := by
  repeat refine consumes_u64.bind fun _ _ _ => ?_
  exact consumes_pure (by simp [encAccounting, fields, *])

/-! ### The payload -/

/-- The payload of a snapshot, with its objects written as they are given. -/
def encPayloadAs (objects : List OrderedObject) (snap : MetadataSnapshot) : Writer :=
  fields [encU8 kMetaVersion, encG snap.epoch, encAuthority snap.authority,
    encG snap.policyGeneration, encI64 snap.savedAtMs, encAccounting snap.accounting,
    encVec encOrdered objects, encVec encManifest snap.manifests,
    encVec encPlacement snap.placements, encVec encReplicaSet snap.replicaSets,
    encVec encBackend snap.backends, encVec encTransfer snap.completedTransfers,
    encVec encAuthority snap.authorities]

theorem encPayload_eq (snap : MetadataSnapshot) :
    encPayload snap = encPayloadAs (snap.objects.map .of) snap := by
  have hobjects : encVec encOrdered (snap.objects.map .of) = encVec encObject snap.objects := by
    rw [encVec, encVec, List.length_map, List.map_map, (funext encOrdered_of : encOrdered ∘ _ = _)]
  rw [encPayloadAs, hobjects]
  rfl

theorem consumes_records {α : Type} {dec : ByteReader α} {Q : List α → Bytes → Prop}
    (countDetail detail : String) (h : Consumes (decVec kMetaMaxRecords dec) Q) :
    Consumes (decRecords countDetail detail dec) Q := by
  intro s l t hrun
  refine h s l t ?_
  rw [decRecords, StateT.run_bind] at hrun
  rw [decVec, StateT.run_bind]
  cases hcount : (decCount kMetaMaxRecords).run s with
  | none =>
      rw [malformed, run_label_none hcount] at hrun
      cases hrun
  | some p =>
      rw [malformed, run_label_some hcount] at hrun
      cases hmany : (many dec p.1).run p.2 with
      | none =>
          have hlabel : (malformed detail (many dec p.1)).run p.2 =
            Except.error (Status.of .malformed detail) := run_label_none hmany
          replace hrun : (malformed detail (many dec p.1)).run p.2 = .ok (l, t) := hrun
          rw [hlabel] at hrun
          cases hrun
      | some q =>
          have hlabel : (malformed detail (many dec p.1)).run p.2 = Except.ok q :=
            run_label_some hmany
          replace hrun : (malformed detail (many dec p.1)).run p.2 = .ok (l, t) := hrun
          rw [hlabel] at hrun
          obtain rfl := Except.ok.inj hrun
          exact hmany

theorem consumes_payload : Consumes (decPayload {}) fun snap bs =>
    ∃ objects : List OrderedObject, objects.map OrderedObject.object = snap.objects ∧
      encPayloadAs objects snap = some bs := by
  have hversion : Consumes (malformed "bad payload version" do
      let version ← readU8
      if version ≠ kMetaVersion then failure) fun _ bs => encU8 kMetaVersion = some bs := by
    refine (consumes_u8.bind fun version bs hbs => ?_).label _
    by_cases heq : version = kMetaVersion
    · rw [if_neg (not_not.mpr heq)]
      exact consumes_pure (by simpa [heq] using hbs)
    · rw [if_pos heq]
      exact consumes_failure
  have hle : kMetaMaxRecords ≤ kMetaMaxRecords := Nat.le_refl _
  refine hversion.bind fun _ _ _ => ?_
  refine (consumes_g.label _).bind fun epoch _ _ => ?_
  refine (consumes_authority.label _).bind fun authority _ _ => ?_
  refine (consumes_g.label _).bind fun policyGeneration _ _ => ?_
  refine (consumes_i64.label _).bind fun savedAtMs _ _ => ?_
  refine (consumes_accounting.label _).bind fun accounting _ _ => ?_
  refine (consumes_records _ _ (consumes_vec consumes_object hle)).bind fun objects _ hobjects => ?_
  refine (consumes_records _ _ (consumes_encVec consumes_manifest hle)).bind fun _ _ _ => ?_
  refine (consumes_records _ _ (consumes_encVec consumes_placement hle)).bind fun _ _ _ => ?_
  refine (consumes_records _ _ (consumes_encVec consumes_replicaSet hle)).bind fun _ _ _ => ?_
  refine (consumes_records _ _ (consumes_encVec consumes_backend hle)).bind fun _ _ _ => ?_
  refine (consumes_records _ _ (consumes_encVec consumes_transfer hle)).bind fun _ _ _ => ?_
  refine (consumes_records _ _ (consumes_encVec consumes_authority hle)).bind fun _ _ _ => ?_
  obtain ⟨ordered, hordered, hobjects⟩ := hobjects
  refine consumes_pure ⟨ordered, hordered, ?_⟩
  simp [encPayloadAs, fields, *]

end Persist

end StorageFabric
