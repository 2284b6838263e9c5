import Mathlib.Data.List.Lex
import Mathlib.Tactic.MkIffOfInductiveProp
import StorageFabric.Core.Bytes
import StorageFabric.Model.Records

/-!
The encoding of the metadata records, each with its decoder beside it.

Encoder and decoder do not check the same things. The encoder bounds strings and
counts; the decoder bounds them as well, and rejects bytes that are no
enumerators, but only in some of the enumeration fields. What a record needs so
that its decoder reads what its encoder wrote is a predicate `Storable`; its
`ids` say that the ids fit the 64 bits that they have in the source. A record of
which only that is known (`Wide`) is read as it was, or refused.
-/

namespace StorageFabric

open ByteWriter ByteReader Codec

def kMetaMaxRecords : Nat := 2 ^ 24

def kMetaMaxString : Nat := 2 ^ 20

namespace Persist

abbrev Writer := Codec.Writer UInt8

/-! ### Fields -/

section Fields

variable {Tag E : Type}

def encU8 (v : UInt8) : Writer := some (putU8 v)

def encU32 (v : UInt32) : Writer := some (putU32 v)

def encU64 (v : UInt64) : Writer := some (putU64 v)

theorem reads_u8 (v : UInt8) : Reads (encU8 v) readU8 v :=
  reads_some fun _ => readU8_eq_some.mpr rfl

theorem reads_u32 (v : UInt32) : Reads (encU32 v) readU32 v :=
  reads_some fun _ => readU32_eq_some.mpr rfl

theorem reads_u64 (v : UInt64) : Reads (encU64 v) readU64 v :=
  reads_some fun _ => readU64_eq_some.mpr rfl

def encDigest (d : ContentDigest) : Writer := some (putBlob d.bytes)

def decDigest : ByteReader ContentDigest := do
  let b ← readBlob
  if h : b.length = 32 then return ⟨b, h⟩ else failure

theorem reads_digest (d : ContentDigest) : Reads (encDigest d) decDigest d := by
  have hblob : Reads (encDigest d) readBlob d.bytes :=
    reads_some fun _ => readBlob_eq_some.mpr ⟨by rw [d.size]; decide, rfl⟩
  refine hblob.andThen fun rest => ?_
  rw [dif_pos d.size]
  rfl

def encStr (s : Bytes) : Writer := if kMetaMaxString < s.length then none else some (putBlob s)

def decStr : ByteReader Bytes := do
  let b ← readBlob
  if kMetaMaxString < b.length then failure else return b

theorem reads_str (s : Bytes) : Reads (encStr s) decStr s := by
  intro bs hbs
  by_cases hs : kMetaMaxString < s.length
  · rw [encStr, if_pos hs] at hbs
    cases hbs
  · rw [encStr, if_neg hs] at hbs
    have hlt : s.length < 2 ^ 32 := Nat.lt_of_le_of_lt (Nat.le_of_not_lt hs) (by decide)
    have hblob : Reads (some (putBlob s)) readBlob s :=
      reads_some fun _ => readBlob_eq_some.mpr ⟨hlt, rfl⟩
    refine hblob.andThen (fun rest => ?_) bs hbs
    rw [if_neg hs]
    rfl

def encId (id : StrongId Tag) : Writer := some (LittleEndian.encode 8 id.value)

def decId : ByteReader (StrongId Tag) := StrongId.mk <$> readWord 8

theorem reads_id {id : StrongId Tag} (h : id.value < 2 ^ 64) : Reads (encId id) decId id := by
  have hword : Reads (encId id) (readWord 8) id.value :=
    reads_some fun _ => readWord_eq_some.mpr ⟨h, rfl⟩
  exact hword.map

def encG (g : Generation Tag) : Writer := some (putU64 g.value)

def decG : ByteReader (Generation Tag) := Generation.mk <$> readU64

theorem reads_g (g : Generation Tag) : Reads (encG g) decG g := (reads_u64 g.value).map

def encI64 (v : Int64) : Writer := some (putU64 v.toUInt64)

def decI64 : ByteReader Int64 := UInt64.toInt64 <$> readU64

theorem reads_i64 (v : Int64) : Reads (encI64 v) decI64 v := (reads_u64 v.toUInt64).map

def encBool (b : Bool) : Writer := some (putU8 (if b then 1 else 0))

def decBool : ByteReader Bool := do
  let b ← readU8
  if 1 < b then failure else return b = 1

theorem reads_bool (b : Bool) : Reads (encBool b) decBool b :=
  (reads_u8 (if b then 1 else 0)).andThen fun _ => by cases b <;> rfl

variable [Enumerators E] [DecidableEq E]

def encEnum (e : EnumValue E) : Writer := some (putU8 e.toByte)

/-- `dec_enum<E, Max>`. -/
def decEnum (max : UInt8) : ByteReader (EnumValue E) := do
  let b ← readU8
  if max < b then failure else return EnumValue.ofByte b

/-- A byte that is cast to the enumeration as it is. -/
def castEnum : ByteReader (EnumValue E) := EnumValue.ofByte <$> readU8

/-- The bound of a decoder is the last enumerator, so that it accepts the declared
values. -/
theorem readsIf_enum {P : Prop} {max : UInt8}
    (hmax : max.toNat + 1 = (Enumerators.all E).length) {e : EnumValue E} (h : P → e.Declared) :
    ReadsIf P (encEnum e) (decEnum max) e := by
  by_cases hbyte : max < e.toByte
  · intro bs hbs rest
    have hnone : (decEnum max : ByteReader (EnumValue E)).run (bs ++ rest) = none := by
      rw [decEnum, StateT.run_bind, reads_u8 e.toByte bs hbs rest, pure_bind, if_pos hbyte]
      rfl
    rw [hnone]
    refine ⟨fun hP => ?_, fun p hp => nomatch hp⟩
    have hlt := (EnumValue.declared_iff e).mp (h hP)
    rw [UInt8.lt_iff_toNat_lt] at hbyte
    omega
  · refine (Reads.andThen (reads_u8 e.toByte) fun rest => ?_).readsIf
    rw [if_neg hbyte, EnumValue.ofByte_toByte]
    rfl

theorem reads_cast (e : EnumValue E) : Reads (encEnum e) castEnum e := by
  have h := (reads_u8 e.toByte).map (f := (EnumValue.ofByte : UInt8 → EnumValue E))
  rwa [EnumValue.ofByte_toByte] at h

end Fields

/-! ### Vectors -/

section Vectors

variable {α : Type}

def encVec (enc : α → Writer) (l : List α) : Writer :=
  if kMetaMaxRecords < l.length then none
  else fields (some (putU32 (UInt32.ofNat l.length)) :: l.map enc)

def decCount (bound : Nat) : ByteReader Nat := do
  let n ← readU32
  if bound < n.toNat then failure else return n.toNat

def decVec (bound : Nat) (dec : ByteReader α) : ByteReader (List α) := do
  let n ← decCount bound
  many dec n

theorem readsIf_count {P : Prop} {n bound : Nat} (hn : n ≤ kMetaMaxRecords)
    (h : P → n ≤ bound) : ReadsIf P (some (putU32 (UInt32.ofNat n))) (decCount bound) n := by
  have hword : (UInt32.ofNat n).toNat = n := by
    rw [UInt32.toNat_ofNat', Nat.mod_eq_of_lt]
    exact Nat.lt_of_le_of_lt hn (by decide)
  by_cases hbound : bound < n
  · intro bs hbs rest
    have hnone : (decCount bound).run (bs ++ rest) = none := by
      rw [decCount, StateT.run_bind, reads_u32 (UInt32.ofNat n) bs hbs rest, pure_bind, hword,
        if_pos hbound]
      rfl
    rw [hnone]
    exact ⟨fun hP => absurd hbound (Nat.not_lt.mpr (h hP)), fun p hp => nomatch hp⟩
  · refine (Reads.andThen (reads_u32 (UInt32.ofNat n)) fun rest => ?_).readsIf
    rw [hword, if_neg hbound]
    rfl

theorem encVec_some {enc : α → Writer} {l : List α} {bs : Bytes} (h : encVec enc l = some bs) :
    l.length ≤ kMetaMaxRecords ∧
      fields (some (putU32 (UInt32.ofNat l.length)) :: l.map enc) = some bs := by
  by_cases hl : kMetaMaxRecords < l.length
  · rw [encVec, if_pos hl] at h
    cases h
  · rw [encVec, if_neg hl] at h
    exact ⟨Nat.le_of_not_lt hl, h⟩

/-- A vector whose elements are not read by `decVec`: its count, then the rest. -/
theorem readsIf_counted {P : Prop} {enc : α → Writer} {l : List α} {ws : List Writer}
    {bound : Nat} {γ : Type} {k : Nat → ByteReader γ} {c : γ}
    (hbound : l.length ≤ kMetaMaxRecords → P → l.length ≤ bound)
    (h : ReadsIf P (fields (l.map enc ++ ws)) (k l.length) c) :
    ReadsIf P (fields (encVec enc l :: ws)) (decCount bound >>= k) c := by
  intro bs hbs
  obtain ⟨front, rest, hfront, hrest, rfl⟩ := fields_cons_eq_some.mp hbs
  obtain ⟨hl, hfront⟩ := encVec_some hfront
  have hcounted := (readsIf_count hl (hbound hl)).field h
  exact hcounted.nested _ (fields_cons_eq_some.mpr ⟨front, rest, hfront, hrest, rfl⟩)

theorem readsIf_vec {P : Prop} {enc : α → Writer} {dec : ByteReader α} {l : List α} {bound : Nat}
    (hbound : l.length ≤ kMetaMaxRecords → P → l.length ≤ bound)
    (h : ∀ a ∈ l, ReadsIf P (enc a) dec a) :
    ReadsIf P (encVec enc l) (decVec bound dec) l := by
  intro bs hbs
  obtain ⟨hl, hbs⟩ := encVec_some hbs
  exact (readsIf_count hl (hbound hl)).field (readsIf_many h) bs hbs

end Vectors

/-! ### Authority -/

def encAuthority (a : AuthorityEnvelope) : Writer :=
  fields [encG a.epoch, encId a.boot, encId a.worker, encG a.generation, encEnum a.origin]

def decAuthority : ByteReader AuthorityEnvelope := do
  let epoch ← decG
  let boot ← decId
  let worker ← decId
  let generation ← decG
  let origin ← decEnum 5
  return { epoch, boot, worker, generation, origin }

end Persist

def AuthorityEnvelope.Wide (a : AuthorityEnvelope) : Prop :=
  ∀ n ∈ [a.boot.value, a.worker.value], n < 2 ^ 64

@[mk_iff]
structure AuthorityEnvelope.Storable (a : AuthorityEnvelope) : Prop where
  ids : ∀ n ∈ [a.boot.value, a.worker.value], n < 2 ^ 64
  origin : a.origin.Declared

instance (a : AuthorityEnvelope) : Decidable a.Storable :=
  decidable_of_iff _ (AuthorityEnvelope.storable_iff a).symm

namespace Persist

theorem readsIf_authority {a : AuthorityEnvelope} (h : a.Wide) :
    ReadsIf a.Storable (encAuthority a) decAuthority a := by
  simp only [AuthorityEnvelope.Wide, List.forall_mem_cons] at h
  refine (reads_g a.epoch).readsIf.field ?_
  refine (reads_id h.1).readsIf.field ?_
  refine (reads_id h.2.1).readsIf.field ?_
  refine (reads_g a.generation).readsIf.field ?_
  refine (readsIf_enum rfl fun h => h.origin).field ?_
  exact Reads.done.readsIf

/-! ### Objects -/

def encObject (o : ObjectDescriptor) : Writer :=
  fields [encId o.id, encG o.generation, encEnum o.kind, encU64 o.logicalSize, encDigest o.digest,
    encId o.owner, encEnum o.provenance.origin, encId o.provenance.worker,
    encId o.provenance.boot, encG o.provenance.authorityGeneration, encStr o.provenance.creator,
    encU32 o.durability.minReplicas, encEnum o.restorePriority, encEnum o.locality.preferred,
    encStr o.locality.nodeHint, encEnum o.retention, encG o.policyGeneration,
    encVec encId o.dependencies,
    encVec (fun kv => fields [encStr kv.1, encStr kv.2]) o.compatibility.entries,
    encI64 o.createdAtMs]

/-- The loop over the compatibility entries that are left; a key may come only
once. -/
def decCompatibility : Nat → CompatibilityMetadata → ByteReader CompatibilityMetadata
  | 0, t => pure t
  | n + 1, t => do
      let k ← decStr
      let v ← decStr
      if t.contains k then failure else decCompatibility n (t.emplace k v)

def decObject : ByteReader ObjectDescriptor := do
  let id ← decId
  let generation ← decG
  let kind ← decEnum 11
  let logicalSize ← readU64
  let digest ← decDigest
  let owner ← decId
  let origin ← castEnum
  let worker ← decId
  let boot ← decId
  let authorityGeneration ← decG
  let creator ← decStr
  let minReplicas ← readU32
  let restorePriority ← castEnum
  let preferred ← castEnum
  let nodeHint ← decStr
  let retention ← castEnum
  let policyGeneration ← decG
  let dependencies ← decVec kMetaMaxRecords decId
  let ncompat ← decCount kMetaMaxRecords
  let compatibility ← decCompatibility ncompat OrderedTable.empty
  let createdAtMs ← decI64
  return {
    id, generation, kind, logicalSize, digest, owner
    provenance := { origin, worker, boot, authorityGeneration, creator }
    durability := { minReplicas }
    restorePriority
    locality := { preferred, nodeHint }
    retention, policyGeneration, dependencies, compatibility, createdAtMs }

end Persist

structure ObjectDescriptor.Wide (o : ObjectDescriptor) : Prop where
  ids : ∀ n ∈ [o.id.value, o.owner.value, o.provenance.worker.value, o.provenance.boot.value],
    n < 2 ^ 64
  dependencies : ∀ d ∈ o.dependencies, d.value < 2 ^ 64

@[mk_iff]
structure ObjectDescriptor.Storable (o : ObjectDescriptor) : Prop where
  ids : ∀ n ∈ [o.id.value, o.owner.value, o.provenance.worker.value, o.provenance.boot.value],
    n < 2 ^ 64
  dependencies : ∀ d ∈ o.dependencies, d.value < 2 ^ 64
  kind : o.kind.Declared

instance (o : ObjectDescriptor) : Decidable o.Storable :=
  decidable_of_iff _ (ObjectDescriptor.storable_iff o).symm

namespace Persist

theorem reads_compatibility {t : CompatibilityMetadata} {es : List (Bytes × Bytes)}
    (h : (t.entries ++ es).Pairwise fun a b => a.1 < b.1) :
    Reads (fields (es.map fun kv => fields [encStr kv.1, encStr kv.2]))
      (decCompatibility es.length t) ⟨t.entries ++ es, h⟩ := by
  induction es generalizing t with
  | nil =>
      have ht : (⟨t.entries ++ [], h⟩ : CompatibilityMetadata) = t :=
        OrderedTable.ext (List.append_nil _)
      rw [ht]
      exact .done
  | cons e es ih =>
      have hlast : ∀ d ∈ t.entries, d.1 < e.1 := fun d hd =>
        (List.pairwise_append.mp h).2.2 d hd e List.mem_cons_self
      have hentries : (t.emplace e.1 e.2).entries = t.entries ++ [e] :=
        OrderedTable.insertEntry_of_last hlast
      have hbehind : ((t.emplace e.1 e.2).entries ++ es).Pairwise fun a b => a.1 < b.1 := by
        rwa [hentries, List.append_assoc]
      have hsame : (⟨(t.emplace e.1 e.2).entries ++ es, hbehind⟩ : CompatibilityMetadata) =
          ⟨t.entries ++ e :: es, h⟩ := by
        apply OrderedTable.ext
        show (t.emplace e.1 e.2).entries ++ es = t.entries ++ e :: es
        rw [hentries, List.append_assoc]
        rfl
      have htail := ih hbehind
      rw [hsame] at htail
      refine .nested ((reads_str e.1).field ((reads_str e.2).field ?_))
      rw [if_neg (by rw [OrderedTable.contains_of_last hlast]; exact Bool.false_ne_true)]
      exact htail

theorem readsIf_object {o : ObjectDescriptor} (h : o.Wide) :
    ReadsIf o.Storable (encObject o) decObject o := by
  obtain ⟨hids, hdependencies⟩ := h
  simp only [List.forall_mem_cons] at hids
  refine (reads_id hids.1).readsIf.field ?_
  refine (reads_g o.generation).readsIf.field ?_
  refine (readsIf_enum rfl fun h => h.kind).field ?_
  refine (reads_u64 o.logicalSize).readsIf.field ?_
  refine (reads_digest o.digest).readsIf.field ?_
  refine (reads_id hids.2.1).readsIf.field ?_
  refine (reads_cast o.provenance.origin).readsIf.field ?_
  refine (reads_id hids.2.2.1).readsIf.field ?_
  refine (reads_id hids.2.2.2.1).readsIf.field ?_
  refine (reads_g o.provenance.authorityGeneration).readsIf.field ?_
  refine (reads_str o.provenance.creator).readsIf.field ?_
  refine (reads_u32 o.durability.minReplicas).readsIf.field ?_
  refine (reads_cast o.restorePriority).readsIf.field ?_
  refine (reads_cast o.locality.preferred).readsIf.field ?_
  refine (reads_str o.locality.nodeHint).readsIf.field ?_
  refine (reads_cast o.retention).readsIf.field ?_
  refine (reads_g o.policyGeneration).readsIf.field ?_
  refine (readsIf_vec (fun hl _ => hl) fun d hd => (reads_id (hdependencies d hd)).readsIf).field ?_
  refine readsIf_counted (fun hl _ => hl) ?_
  refine (reads_compatibility (t := OrderedTable.empty) o.compatibility.ordered).readsIf.append ?_
  refine (reads_i64 o.createdAtMs).readsIf.field ?_
  exact Reads.done.readsIf

/-! ### Manifests -/

def encChunk (c : ChunkDescriptor) : Writer :=
  fields [encId c.id, encG c.generation, encU64 c.offset, encU64 c.logicalLength,
    encU64 c.physicalLength, encDigest c.digest, encId c.blob, encEnum c.provenance]

def decChunk : ByteReader ChunkDescriptor := do
  let id ← decId
  let generation ← decG
  let offset ← readU64
  let logicalLength ← readU64
  let physicalLength ← readU64
  let digest ← decDigest
  let blob ← decId
  let provenance ← decEnum 5
  return { id, generation, offset, logicalLength, physicalLength, digest, blob, provenance }

def encManifest (m : Manifest) : Writer :=
  fields [encId m.id, encG m.generation, encId m.object, encG m.objectGeneration,
    encU64 m.totalLogicalLength, encDigest m.manifestDigest, encVec encChunk m.chunks]

def decManifest : ByteReader Manifest := do
  let id ← decId
  let generation ← decG
  let object ← decId
  let objectGeneration ← decG
  let totalLogicalLength ← readU64
  let manifestDigest ← decDigest
  let chunks ← decVec kMetaMaxRecords decChunk
  return { id, generation, object, objectGeneration, totalLogicalLength, manifestDigest, chunks }

end Persist

def ChunkDescriptor.Wide (c : ChunkDescriptor) : Prop :=
  ∀ n ∈ [c.id.value, c.blob.value], n < 2 ^ 64

@[mk_iff]
structure ChunkDescriptor.Storable (c : ChunkDescriptor) : Prop where
  ids : ∀ n ∈ [c.id.value, c.blob.value], n < 2 ^ 64
  provenance : c.provenance.Declared

instance (c : ChunkDescriptor) : Decidable c.Storable :=
  decidable_of_iff _ (ChunkDescriptor.storable_iff c).symm

structure Manifest.Wide (m : Manifest) : Prop where
  ids : ∀ n ∈ [m.id.value, m.object.value], n < 2 ^ 64
  chunks : ∀ c ∈ m.chunks, c.Wide

@[mk_iff]
structure Manifest.Storable (m : Manifest) : Prop where
  ids : ∀ n ∈ [m.id.value, m.object.value], n < 2 ^ 64
  chunks : ∀ c ∈ m.chunks, c.Storable

instance (m : Manifest) : Decidable m.Storable :=
  decidable_of_iff _ (Manifest.storable_iff m).symm

namespace Persist

theorem readsIf_chunk {c : ChunkDescriptor} (h : c.Wide) :
    ReadsIf c.Storable (encChunk c) decChunk c := by
  simp only [ChunkDescriptor.Wide, List.forall_mem_cons] at h
  refine (reads_id h.1).readsIf.field ?_
  refine (reads_g c.generation).readsIf.field ?_
  refine (reads_u64 c.offset).readsIf.field ?_
  refine (reads_u64 c.logicalLength).readsIf.field ?_
  refine (reads_u64 c.physicalLength).readsIf.field ?_
  refine (reads_digest c.digest).readsIf.field ?_
  refine (reads_id h.2.1).readsIf.field ?_
  refine (readsIf_enum rfl fun h => h.provenance).field ?_
  exact Reads.done.readsIf

theorem readsIf_manifest {m : Manifest} (h : m.Wide) :
    ReadsIf m.Storable (encManifest m) decManifest m := by
  obtain ⟨hids, hchunks⟩ := h
  simp only [List.forall_mem_cons] at hids
  refine (reads_id hids.1).readsIf.field ?_
  refine (reads_g m.generation).readsIf.field ?_
  refine (reads_id hids.2.1).readsIf.field ?_
  refine (reads_g m.objectGeneration).readsIf.field ?_
  refine (reads_u64 m.totalLogicalLength).readsIf.field ?_
  refine (reads_digest m.manifestDigest).readsIf.field ?_
  refine (readsIf_vec (fun hl _ => hl) fun c hc =>
    (readsIf_chunk (hchunks c hc)).mono fun h => h.chunks c hc).field ?_
  exact Reads.done.readsIf

/-! ### Placements -/

def encPlacement (p : PlacementRecord) : Writer :=
  fields [encId p.id, encId p.object, encG p.objectGeneration, encId p.replica,
    encG p.replicaGeneration, encId p.backend, encId p.tier, encId p.volume, encStr p.key,
    encId p.manifest, encU64 p.logicalSize, encU64 p.physicalSize, encDigest p.digest,
    encU32 p.durabilityReplicas, encStr p.locality, encEnum p.lifecycle, encEnum p.freshness,
    encG p.authorityGeneration, encEnum p.provenance, encId p.writerWorker, encId p.writerBoot,
    encG p.placementGeneration, encI64 p.createdAtMs, encI64 p.availableAtMs]

def decPlacement : ByteReader PlacementRecord := do
  let id ← decId
  let object ← decId
  let objectGeneration ← decG
  let replica ← decId
  let replicaGeneration ← decG
  let backend ← decId
  let tier ← decId
  let volume ← decId
  let key ← decStr
  let manifest ← decId
  let logicalSize ← readU64
  let physicalSize ← readU64
  let digest ← decDigest
  let durabilityReplicas ← readU32
  let locality ← decStr
  let lifecycle ← castEnum
  let freshness ← castEnum
  let authorityGeneration ← decG
  let provenance ← castEnum
  let writerWorker ← decId
  let writerBoot ← decId
  let placementGeneration ← decG
  let createdAtMs ← decI64
  let availableAtMs ← decI64
  return {
    id, object, objectGeneration, replica, replicaGeneration, backend, tier, volume, key, manifest
    logicalSize, physicalSize, digest, durabilityReplicas, locality, lifecycle, freshness
    authorityGeneration, provenance, writerWorker, writerBoot, placementGeneration, createdAtMs
    availableAtMs }

end Persist

def PlacementRecord.Wide (p : PlacementRecord) : Prop :=
  ∀ n ∈ [p.id.value, p.object.value, p.replica.value, p.backend.value, p.tier.value,
    p.volume.value, p.manifest.value, p.writerWorker.value, p.writerBoot.value], n < 2 ^ 64

@[mk_iff]
structure PlacementRecord.Storable (p : PlacementRecord) : Prop where
  ids : ∀ n ∈ [p.id.value, p.object.value, p.replica.value, p.backend.value, p.tier.value,
    p.volume.value, p.manifest.value, p.writerWorker.value, p.writerBoot.value], n < 2 ^ 64

instance (p : PlacementRecord) : Decidable p.Storable :=
  decidable_of_iff _ (PlacementRecord.storable_iff p).symm

namespace Persist

theorem readsIf_placement {p : PlacementRecord} (h : p.Wide) :
    ReadsIf p.Storable (encPlacement p) decPlacement p := by
  simp only [PlacementRecord.Wide, List.forall_mem_cons] at h
  obtain ⟨hid, hobject, hreplica, hbackend, htier, hvolume, hmanifest, hworker, hboot, -⟩ := h
  refine (reads_id hid).readsIf.field ?_
  refine (reads_id hobject).readsIf.field ?_
  refine (reads_g p.objectGeneration).readsIf.field ?_
  refine (reads_id hreplica).readsIf.field ?_
  refine (reads_g p.replicaGeneration).readsIf.field ?_
  refine (reads_id hbackend).readsIf.field ?_
  refine (reads_id htier).readsIf.field ?_
  refine (reads_id hvolume).readsIf.field ?_
  refine (reads_str p.key).readsIf.field ?_
  refine (reads_id hmanifest).readsIf.field ?_
  refine (reads_u64 p.logicalSize).readsIf.field ?_
  refine (reads_u64 p.physicalSize).readsIf.field ?_
  refine (reads_digest p.digest).readsIf.field ?_
  refine (reads_u32 p.durabilityReplicas).readsIf.field ?_
  refine (reads_str p.locality).readsIf.field ?_
  refine (reads_cast p.lifecycle).readsIf.field ?_
  refine (reads_cast p.freshness).readsIf.field ?_
  refine (reads_g p.authorityGeneration).readsIf.field ?_
  refine (reads_cast p.provenance).readsIf.field ?_
  refine (reads_id hworker).readsIf.field ?_
  refine (reads_id hboot).readsIf.field ?_
  refine (reads_g p.placementGeneration).readsIf.field ?_
  refine (reads_i64 p.createdAtMs).readsIf.field ?_
  refine (reads_i64 p.availableAtMs).readsIf.field ?_
  exact Reads.done.readsIf

/-! ### Replica sets -/

def encReplica (r : ReplicaInfo) : Writer :=
  fields [encId r.id, encG r.generation, encId r.backend, encId r.node, encStr r.failureDomain,
    encU64 r.logicalSize, encU64 r.physicalSize, encEnum r.state, encG r.placementGeneration,
    encBool r.authoritative]

def decReplica : ByteReader ReplicaInfo := do
  let id ← decId
  let generation ← decG
  let backend ← decId
  let node ← decId
  let failureDomain ← decStr
  let logicalSize ← readU64
  let physicalSize ← readU64
  let state ← decEnum 5
  let placementGeneration ← decG
  let authoritative ← decBool
  return {
    id, generation, backend, node, failureDomain, logicalSize, physicalSize, state
    placementGeneration, authoritative }

def encReplicaSet (rs : ReplicaSet) : Writer :=
  fields [encId rs.object, encG rs.currentGeneration, encU32 rs.required, encU32 rs.actual,
    encU32 rs.distinctFailureDomains, encU32 rs.authoritativeReplicas, encEnum rs.state,
    encG rs.authorityGeneration, encVec encReplica rs.replicas, encI64 rs.updatedAtMs]

def decReplicaSet : ByteReader ReplicaSet := do
  let object ← decId
  let currentGeneration ← decG
  let required ← readU32
  let actual ← readU32
  let distinctFailureDomains ← readU32
  let authoritativeReplicas ← readU32
  let state ← decEnum 5
  let authorityGeneration ← decG
  let replicas ← decVec kMetaMaxRecords decReplica
  let updatedAtMs ← decI64
  return {
    object, currentGeneration, required, actual, state, distinctFailureDomains
    authoritativeReplicas, authorityGeneration, replicas, updatedAtMs }

end Persist

def ReplicaInfo.Wide (r : ReplicaInfo) : Prop :=
  ∀ n ∈ [r.id.value, r.backend.value, r.node.value], n < 2 ^ 64

structure ReplicaSet.Wide (rs : ReplicaSet) : Prop where
  ids : rs.object.value < 2 ^ 64
  replicas : ∀ r ∈ rs.replicas, r.Wide

@[mk_iff]
structure ReplicaInfo.Storable (r : ReplicaInfo) : Prop where
  ids : ∀ n ∈ [r.id.value, r.backend.value, r.node.value], n < 2 ^ 64
  state : r.state.Declared

instance (r : ReplicaInfo) : Decidable r.Storable :=
  decidable_of_iff _ (ReplicaInfo.storable_iff r).symm

@[mk_iff]
structure ReplicaSet.Storable (rs : ReplicaSet) : Prop where
  ids : rs.object.value < 2 ^ 64
  state : rs.state.Declared
  replicas : ∀ r ∈ rs.replicas, r.Storable

instance (rs : ReplicaSet) : Decidable rs.Storable :=
  decidable_of_iff _ (ReplicaSet.storable_iff rs).symm

namespace Persist

theorem readsIf_replica {r : ReplicaInfo} (h : r.Wide) :
    ReadsIf r.Storable (encReplica r) decReplica r := by
  simp only [ReplicaInfo.Wide, List.forall_mem_cons] at h
  refine (reads_id h.1).readsIf.field ?_
  refine (reads_g r.generation).readsIf.field ?_
  refine (reads_id h.2.1).readsIf.field ?_
  refine (reads_id h.2.2.1).readsIf.field ?_
  refine (reads_str r.failureDomain).readsIf.field ?_
  refine (reads_u64 r.logicalSize).readsIf.field ?_
  refine (reads_u64 r.physicalSize).readsIf.field ?_
  refine (readsIf_enum rfl fun h => h.state).field ?_
  refine (reads_g r.placementGeneration).readsIf.field ?_
  refine (reads_bool r.authoritative).readsIf.field ?_
  exact Reads.done.readsIf

theorem readsIf_replicaSet {rs : ReplicaSet} (h : rs.Wide) :
    ReadsIf rs.Storable (encReplicaSet rs) decReplicaSet rs := by
  obtain ⟨hobject, hreplicas⟩ := h
  refine (reads_id hobject).readsIf.field ?_
  refine (reads_g rs.currentGeneration).readsIf.field ?_
  refine (reads_u32 rs.required).readsIf.field ?_
  refine (reads_u32 rs.actual).readsIf.field ?_
  refine (reads_u32 rs.distinctFailureDomains).readsIf.field ?_
  refine (reads_u32 rs.authoritativeReplicas).readsIf.field ?_
  refine (readsIf_enum rfl fun h => h.state).field ?_
  refine (reads_g rs.authorityGeneration).readsIf.field ?_
  refine (readsIf_vec (fun hl _ => hl) fun r hr =>
    (readsIf_replica (hreplicas r hr)).mono fun h => h.replicas r hr).field ?_
  refine (reads_i64 rs.updatedAtMs).readsIf.field ?_
  exact Reads.done.readsIf

/-! ### Backends -/

def encBackend (b : BackendDescriptor) : Writer :=
  fields [encId b.id, encId b.tier, encId b.node, encStr b.name, encG b.generation,
    encU64 b.capacity.totalBytes, encU64 b.capacity.freeBytes, encU64 b.capacity.reservedBytes,
    encU64 b.capacity.committedBytes, encU64 b.capacity.reclaimableBytes,
    encBool b.capacity.unknown, encVec encEnum b.capabilities, encEnum b.health,
    encEnum b.freshness, encEnum b.provenance, encI64 b.registeredAtMs]

/-- The most capabilities that the decoder takes; the encoder knows no such bound. -/
def kMetaMaxCapabilities : Nat := 16

def decBackend : ByteReader BackendDescriptor := do
  let id ← decId
  let tier ← decId
  let node ← decId
  let name ← decStr
  let generation ← decG
  let totalBytes ← readU64
  let freeBytes ← readU64
  let reservedBytes ← readU64
  let committedBytes ← readU64
  let reclaimableBytes ← readU64
  let unknown ← decBool
  let capabilities ← decVec kMetaMaxCapabilities (decEnum 10)
  let health ← decEnum 4
  let freshness ← decEnum 3
  let provenance ← decEnum 4
  let registeredAtMs ← decI64
  return {
    id, tier, node, name, generation
    capacity := { totalBytes, freeBytes, reservedBytes, committedBytes, reclaimableBytes, unknown }
    capabilities, health, freshness, provenance, registeredAtMs }

end Persist

def BackendDescriptor.Wide (b : BackendDescriptor) : Prop :=
  ∀ n ∈ [b.id.value, b.tier.value, b.node.value], n < 2 ^ 64

@[mk_iff]
structure BackendDescriptor.Storable (b : BackendDescriptor) : Prop where
  ids : ∀ n ∈ [b.id.value, b.tier.value, b.node.value], n < 2 ^ 64
  few : b.capabilities.length ≤ Persist.kMetaMaxCapabilities
  capabilities : ∀ c ∈ b.capabilities, c.Declared
  health : b.health.Declared
  freshness : b.freshness.Declared
  provenance : b.provenance.Declared

instance (b : BackendDescriptor) : Decidable b.Storable :=
  decidable_of_iff _ (BackendDescriptor.storable_iff b).symm

namespace Persist

theorem readsIf_backend {b : BackendDescriptor} (h : b.Wide) :
    ReadsIf b.Storable (encBackend b) decBackend b := by
  simp only [BackendDescriptor.Wide, List.forall_mem_cons] at h
  refine (reads_id h.1).readsIf.field ?_
  refine (reads_id h.2.1).readsIf.field ?_
  refine (reads_id h.2.2.1).readsIf.field ?_
  refine (reads_str b.name).readsIf.field ?_
  refine (reads_g b.generation).readsIf.field ?_
  refine (reads_u64 b.capacity.totalBytes).readsIf.field ?_
  refine (reads_u64 b.capacity.freeBytes).readsIf.field ?_
  refine (reads_u64 b.capacity.reservedBytes).readsIf.field ?_
  refine (reads_u64 b.capacity.committedBytes).readsIf.field ?_
  refine (reads_u64 b.capacity.reclaimableBytes).readsIf.field ?_
  refine (reads_bool b.capacity.unknown).readsIf.field ?_
  refine (readsIf_vec (fun _ h => h.few) fun c hc => readsIf_enum rfl fun h => h.capabilities c hc).field ?_
  refine (readsIf_enum rfl fun h => h.health).field ?_
  refine (readsIf_enum rfl fun h => h.freshness).field ?_
  refine (readsIf_enum rfl fun h => h.provenance).field ?_
  refine (reads_i64 b.registeredAtMs).readsIf.field ?_
  exact Reads.done.readsIf

/-! ### Accounting -/

def encAccounting (a : AccountingTotals) : Writer :=
  fields [encU64 a.logicalObjects, encU64 a.logicalBytes, encU64 a.physicalBlobs,
    encU64 a.physicalBytes, encU64 a.deduplicatedBytes, encU64 a.chunks, encU64 a.manifests,
    encU64 a.activePlacements, encU64 a.replicas, encU64 a.reservedBytes, encU64 a.committedBytes,
    encU64 a.activeWrites, encU64 a.activeReads, encU64 a.transferredBytes,
    encU64 a.restoredBytes, encU64 a.evictedBytes, encU64 a.integrityFailures,
    encU64 a.staleRejections, encU64 a.duplicateRejections, encU64 a.backendFailures,
    encU64 a.participantRestarts]

def decAccounting : ByteReader AccountingTotals := do
  let logicalObjects ← readU64
  let logicalBytes ← readU64
  let physicalBlobs ← readU64
  let physicalBytes ← readU64
  let deduplicatedBytes ← readU64
  let chunks ← readU64
  let manifests ← readU64
  let activePlacements ← readU64
  let replicas ← readU64
  let reservedBytes ← readU64
  let committedBytes ← readU64
  let activeWrites ← readU64
  let activeReads ← readU64
  let transferredBytes ← readU64
  let restoredBytes ← readU64
  let evictedBytes ← readU64
  let integrityFailures ← readU64
  let staleRejections ← readU64
  let duplicateRejections ← readU64
  let backendFailures ← readU64
  let participantRestarts ← readU64
  return {
    logicalObjects, logicalBytes, physicalBlobs, physicalBytes, deduplicatedBytes, chunks
    manifests, activePlacements, replicas, reservedBytes, committedBytes, activeWrites
    activeReads, transferredBytes, restoredBytes, evictedBytes, integrityFailures
    staleRejections, duplicateRejections, backendFailures, participantRestarts }

theorem reads_accounting (a : AccountingTotals) : Reads (encAccounting a) decAccounting a := by
  repeat refine (reads_u64 _).field ?_
  exact .done

end Persist

end StorageFabric
