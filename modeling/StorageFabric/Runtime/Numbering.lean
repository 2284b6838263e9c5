import StorageFabric.Model.Coverage
import StorageFabric.Runtime.Commits
import StorageFabric.Runtime.Slices

/-!
What a publication comes to, read off the state before it.

A slice gets the blob that the dedup index offers for its digest, or the next number, which
is then on offer for the slices to come. So the index and the counter fix the chunks and
what has to be stored; whether it can be stored, and is found again, is up to the backend
object alone, and whether the manifest is valid to the ids and the digests. `Lands` is all
of this together, and `commits_iff_lands` says that it decides how far a publication gets.
-/

namespace StorageFabric

open StorageBackend

namespace Fabric

variable {β : Type}

/-! ### Numbering -/

def offer (dedupe : Bool) (index : Table ContentDigest BlobId) (slice : Bytes) : Option BlobId :=
  if dedupe then index.lookup (ContentDigest.of slice) else none

/-- The chunks of the slices from `offset` on, where `next` is the next blob id. -/
def chunksFor (dedupe : Bool) :
    Table ContentDigest BlobId → Nat → Nat → List Bytes → List ChunkDescriptor
  | _, _, _, [] => []
  | index, next, offset, slice :: rest =>
      match offer dedupe index slice with
      | some b => chunkAt offset slice b :: chunksFor dedupe index next (offset + slice.length) rest
      | none =>
          chunkAt offset slice ⟨next⟩ ::
            chunksFor dedupe (index.insert (ContentDigest.of slice) ⟨next⟩) (next + 1)
              (offset + slice.length) rest

/-- The slices that have to be stored, each under its new blob. -/
def newBlobs (dedupe : Bool) :
    Table ContentDigest BlobId → Nat → List Bytes → List (BlobId × Bytes)
  | _, _, [] => []
  | index, next, slice :: rest =>
      match offer dedupe index slice with
      | some _ => newBlobs dedupe index next rest
      | none =>
          (⟨next⟩, slice) ::
            newBlobs dedupe (index.insert (ContentDigest.of slice) ⟨next⟩) (next + 1) rest

theorem offer_insert (dedupe : Bool) (index : Table ContentDigest BlobId) (slice s : Bytes)
    (b : BlobId) :
    offer dedupe (index.insert (ContentDigest.of slice) b) s =
      if dedupe = true ∧ ContentDigest.of s = ContentDigest.of slice then some b
      else offer dedupe index s := by
  unfold offer
  cases dedupe with
  | false => simp
  | true =>
      simp only [if_true, true_and]
      by_cases hs : ContentDigest.of s = ContentDigest.of slice
      · rw [if_pos hs, hs]
        exact AList.lookup_insert _
      · rw [if_neg hs]
        exact AList.lookup_insert_ne hs

theorem chunksFor_shapes (dedupe : Bool) (index : Table ContentDigest BlobId) (next offset : Nat)
    (parts : List Bytes) :
    (chunksFor dedupe index next offset parts).map forgetBlob = shapes offset parts := by
  induction parts generalizing index next offset with
  | nil => rfl
  | cons slice parts ih =>
      rw [chunksFor, shapes]
      cases offer dedupe index slice with
      | some b => exact congrArg (_ :: ·) (ih ..)
      | none => exact congrArg (_ :: ·) (ih ..)

/-- The new blobs are numbered one after the other. -/
theorem newBlobs_ids (dedupe : Bool) (index : Table ContentDigest BlobId) (next : Nat)
    (parts : List Bytes) :
    (newBlobs dedupe index next parts).map (fun e => e.1.value) =
      List.range' next (newBlobs dedupe index next parts).length := by
  induction parts generalizing index next with
  | nil => rfl
  | cons slice parts ih =>
      rw [newBlobs]
      cases offer dedupe index slice with
      | some b => exact ih index next
      | none => exact congrArg (next :: ·) (ih ..)

theorem newBlobs_nodup (dedupe : Bool) (index : Table ContentDigest BlobId) (next : Nat)
    (parts : List Bytes) : ((newBlobs dedupe index next parts).map (·.1)).Nodup := by
  have h : ((newBlobs dedupe index next parts).map fun e => e.1.value).Nodup := by
    rw [newBlobs_ids]
    exact List.nodup_range'
  exact List.Nodup.of_map StrongId.value (by rwa [List.map_map])

theorem newBlobs_length_le (dedupe : Bool) (index : Table ContentDigest BlobId) (next : Nat)
    (parts : List Bytes) : (newBlobs dedupe index next parts).length ≤ parts.length := by
  induction parts generalizing index next with
  | nil => exact Nat.le_refl _
  | cons slice parts ih =>
      rw [newBlobs, List.length_cons]
      cases offer dedupe index slice with
      | some b => exact Nat.le_succ_of_le (ih index next)
      | none => exact Nat.succ_le_succ (ih ..)

/-- Only a slice that nothing is offered for is stored. -/
theorem newBlobs_missed {dedupe : Bool} {index : Table ContentDigest BlobId} {next : Nat}
    {parts : List Bytes} : ∀ e ∈ newBlobs dedupe index next parts,
      e.2 ∈ parts ∧ offer dedupe index e.2 = none := by
  induction parts generalizing index next with
  | nil => exact fun e he => absurd he List.not_mem_nil
  | cons slice parts ih =>
      rw [newBlobs]
      intro e he
      cases hoffer : offer dedupe index slice with
      | some b =>
          rw [hoffer] at he
          obtain ⟨hmem, hmiss⟩ := ih e he
          exact ⟨List.mem_cons_of_mem _ hmem, hmiss⟩
      | none =>
          rw [hoffer] at he
          rcases List.mem_cons.mp he with rfl | he
          · exact ⟨List.mem_cons_self, hoffer⟩
          · obtain ⟨hmem, hmiss⟩ := ih e he
            rw [offer_insert] at hmiss
            split at hmiss
            · cases hmiss
            · exact ⟨List.mem_cons_of_mem _ hmem, hmiss⟩

theorem newBlobs_digests (index : Table ContentDigest BlobId) (next : Nat) (parts : List Bytes) :
    ((newBlobs true index next parts).map fun e => ContentDigest.of e.2).Nodup := by
  induction parts generalizing index next with
  | nil => exact .nil
  | cons slice parts ih =>
      rw [newBlobs]
      cases hoffer : offer true index slice with
      | some b => exact ih index next
      | none =>
          refine List.nodup_cons.mpr ⟨fun hmem => ?_, ih ..⟩
          obtain ⟨e, he, hdigest⟩ := List.mem_map.mp hmem
          have hmiss := (newBlobs_missed e he).2
          rw [offer_insert, if_pos ⟨rfl, hdigest⟩] at hmiss
          cases hmiss

theorem newBlobs_plain_length (index : Table ContentDigest BlobId) (next : Nat)
    (parts : List Bytes) : (newBlobs false index next parts).length = parts.length := by
  induction parts generalizing index next with
  | nil => rfl
  | cons slice parts ih => exact congrArg (· + 1) (ih _ _)

/-- Without deduplication every slice is stored, so no fewer ids are drawn than with it. -/
theorem drawn_of_plain {dedupe : Bool} {index : Table ContentDigest BlobId} {next : Nat}
    {parts : List Bytes} (h : ∀ e ∈ newBlobs false index next parts, e.1.isNil = false) :
    ∀ e ∈ newBlobs dedupe index next parts, e.1.isNil = false := by
  intro e he
  have hid : e.1.value ∈ (newBlobs dedupe index next parts).map fun e => e.1.value :=
    List.mem_map_of_mem he
  have hle := newBlobs_length_le dedupe index next parts
  have hplain : e.1.value ∈ (newBlobs false index next parts).map fun e => e.1.value := by
    rw [newBlobs_ids, List.mem_range'_1] at hid ⊢
    rw [newBlobs_plain_length]
    omega
  obtain ⟨e', he', heq⟩ := List.mem_map.mp hplain
  rw [← StrongId.ext heq]
  exact h e' he'

/-- Where the blob of a chunk comes from: the index offers it for the slice, or it is new,
and stored with what has the digest of the slice. -/
def Sourced (dedupe : Bool) (index : Table ContentDigest BlobId) (new : List (BlobId × Bytes))
    (c : ChunkDescriptor) (slice : Bytes) : Prop :=
  offer dedupe index slice = some c.blob ∨
    offer dedupe index slice = none ∧
      ∃ s, (c.blob, s) ∈ new ∧ ContentDigest.of s = ContentDigest.of slice ∧
        (dedupe = false → s = slice)

theorem Sourced.of_insert {dedupe : Bool} {index : Table ContentDigest BlobId}
    {new : List (BlobId × Bytes)} {b : BlobId} {slice : Bytes} {c : ChunkDescriptor} {s : Bytes}
    (hoffer : offer dedupe index slice = none)
    (h : Sourced dedupe (index.insert (ContentDigest.of slice) b) new c s) :
    Sourced dedupe index ((b, slice) :: new) c s := by
  unfold Sourced at h
  rw [offer_insert] at h
  by_cases hs : dedupe = true ∧ ContentDigest.of s = ContentDigest.of slice
  · -- the entry that was just made is what is offered now
    obtain ⟨rfl, hdigest⟩ := hs
    rw [if_pos ⟨rfl, hdigest⟩] at h
    obtain h | ⟨h, -⟩ := h
    · have hmiss : offer true index s = none := by
        unfold offer at hoffer ⊢
        rwa [hdigest]
      rw [Option.some.inj h]
      exact .inr ⟨hmiss, slice, List.mem_cons_self, hdigest.symm, fun hfalse => by cases hfalse⟩
    · cases h
  · rw [if_neg hs] at h
    obtain h | ⟨h, data, hmem, hdata⟩ := h
    · exact .inl h
    · exact .inr ⟨h, data, List.mem_cons_of_mem _ hmem, hdata⟩

theorem chunksFor_sourced (dedupe : Bool) (index : Table ContentDigest BlobId)
    (next offset : Nat) (parts : List Bytes) :
    List.Forall₂ (Sourced dedupe index (newBlobs dedupe index next parts))
      (chunksFor dedupe index next offset parts) parts := by
  induction parts generalizing index next offset with
  | nil => exact .nil
  | cons slice parts ih =>
      rw [chunksFor, newBlobs]
      cases hoffer : offer dedupe index slice with
      | some b => exact .cons (.inl hoffer) (ih ..)
      | none =>
          refine .cons (.inr ⟨hoffer, slice, List.mem_cons_self, rfl, fun _ => rfl⟩) ?_
          exact (ih ..).imp fun c s h => h.of_insert hoffer

theorem newBlobs_used {dedupe : Bool} {index : Table ContentDigest BlobId} {next : Nat}
    {parts : List Bytes} (offset : Nat) : ∀ e ∈ newBlobs dedupe index next parts,
      ∃ c ∈ chunksFor dedupe index next offset parts, c.blob = e.1 := by
  induction parts generalizing index next offset with
  | nil => exact fun e he => absurd he List.not_mem_nil
  | cons slice parts ih =>
      rw [newBlobs, chunksFor]
      intro e he
      cases hoffer : offer dedupe index slice with
      | some b =>
          rw [hoffer] at he
          obtain ⟨c, hc, heq⟩ := ih _ e he
          exact ⟨c, List.mem_cons_of_mem _ hc, heq⟩
      | none =>
          rw [hoffer] at he
          rcases List.mem_cons.mp he with rfl | he
          · exact ⟨_, List.mem_cons_self, rfl⟩
          · obtain ⟨c, hc, heq⟩ := ih _ e he
            exact ⟨c, List.mem_cons_of_mem _ hc, heq⟩

/-- No blob that the slices get is nil, whether the index offers it or it is drawn. -/
structure NamesBlobs (dedupe : Bool) (index : Table ContentDigest BlobId) (next : Nat)
    (parts : List Bytes) : Prop where
  offered : ∀ slice ∈ parts, ∀ b, offer dedupe index slice = some b → b.isNil = false
  drawn : ∀ e ∈ newBlobs dedupe index next parts, e.1.isNil = false

theorem namesBlobs_iff {dedupe : Bool} {index : Table ContentDigest BlobId} {next : Nat}
    {parts : List Bytes} (offset : Nat) : NamesBlobs dedupe index next parts ↔
      ∀ c ∈ chunksFor dedupe index next offset parts, c.blob.isNil = false := by
  have hsourced := chunksFor_sourced dedupe index next offset parts
  constructor
  · intro h c hc
    obtain ⟨slice, hslice, hoffer | ⟨-, s, hs, -⟩⟩ := forall₂_exists_right hsourced c hc
    · exact h.offered slice hslice _ hoffer
    · exact h.drawn _ hs
  · intro h
    constructor
    · intro slice hslice b hb
      obtain ⟨c, hc, hoffer | ⟨hmiss, -⟩⟩ := forall₂_exists_left hsourced slice hslice
      · rw [Option.some.inj (hb.symm.trans hoffer)]
        exact h c hc
      · cases hmiss.symm.trans hb
    · intro e he
      obtain ⟨c, hc, heq⟩ := newBlobs_used offset e he
      exact heq ▸ h c hc

section Backend

variable [StorageBackend β]

/-- The backend object after it has taken everything, if it does. -/
def putAll (be : β) : List (BlobId × Bytes) → Option β
  | [] => some be
  | (b, data) :: rest =>
      match put be data (blobKey b) with
      | (.error _, _) => none
      | (.ok _, be) => putAll be rest

theorem chunkStep_offer {k : StorageBackendId} {dedupe : Bool} {offset : Nat} {slice : Bytes}
    {f : Fabric β} {b : BlobId} (h : offer dedupe f.blobByDigest slice = some b) :
    chunkStep k dedupe offset slice f = (.ok (chunkAt offset slice b), f.reuseBlob b slice) := by
  unfold offer at h
  rw [chunkStep, h]

theorem chunkStep_new {k : StorageBackendId} {dedupe : Bool} {offset : Nat} {slice : Bytes}
    {f : Fabric β} {be : β} (hbe : f.backends.lookup k = some be)
    (h : offer dedupe f.blobByDigest slice = none) :
    chunkStep k dedupe offset slice f =
      match put be slice (blobKey ⟨f.blobCounter⟩) with
      | (.error s, be') => (.error s, f.allocBlobId.2.setBackend k be')
      | (.ok _, be') => (.ok (chunkAt offset slice ⟨f.blobCounter⟩),
          (f.allocBlobId.2.setBackend k be').recordBlob ⟨f.blobCounter⟩ slice) := by
  unfold offer at h
  have hbe' : f.allocBlobId.2.backends.lookup k = some be := hbe
  rw [chunkStep, h]
  simp only [putOn, hbe', show f.allocBlobId.1 = ⟨f.blobCounter⟩ from rfl]
  rcases put be slice (blobKey ⟨f.blobCounter⟩) with ⟨r, be'⟩
  cases r <;> rfl

/-- A loop ends in `g` with `rc`: with an error if the backend did not take everything,
and otherwise with the chunks `cs`. -/
def Ends (k : StorageBackendId) (cs : List ChunkDescriptor) (rc : Result (List ChunkDescriptor))
    (g : Fabric β) : Option β → Prop
  | none => ∃ s, rc = .error s
  | some be => rc = .ok cs ∧ g.backends.lookup k = some be

omit [StorageBackend β] in
theorem Ends.cons {k : StorageBackendId} {cs : List ChunkDescriptor}
    {rc : Result (List ChunkDescriptor)} {g : Fabric β} {left : Option β}
    (h : Ends k cs rc g left) (c : ChunkDescriptor) : Ends k (c :: cs) (rc.map (c :: ·)) g left := by
  cases left with
  | none =>
      obtain ⟨s, rfl⟩ := h
      exact ⟨s, rfl⟩
  | some be =>
      obtain ⟨rfl, hbe⟩ := h
      exact ⟨rfl, hbe⟩

/-- How the chunk loop ends, and what it leaves of the backend. -/
theorem chunkLoop_ends (k : StorageBackendId) (dedupe : Bool) (chunk turns offset : Nat)
    (rest : Bytes) (f : Fabric β) {be : β} (hbe : f.backends.lookup k = some be) :
    Ends k (chunksFor dedupe f.blobByDigest f.blobCounter offset (slices chunk turns rest))
      (chunkLoop k dedupe chunk turns offset rest f).1
      (chunkLoop k dedupe chunk turns offset rest f).2
      (putAll be (newBlobs dedupe f.blobByDigest f.blobCounter (slices chunk turns rest))) := by
  refine chunkLoop_induction k dedupe (Q := fun offset parts f rc g =>
    ∀ be, f.backends.lookup k = some be →
      Ends k (chunksFor dedupe f.blobByDigest f.blobCounter offset parts) rc g
        (putAll be (newBlobs dedupe f.blobByDigest f.blobCounter parts))) ?_ ?_ ?_ chunk turns
    offset rest f be hbe
  -- no content is left
  · exact fun offset f be hbe => ⟨rfl, hbe⟩
  · intro offset slice parts f s g hstep be hbe
    rw [newBlobs]
    cases hoffer : offer dedupe f.blobByDigest slice with
    | some b =>
        rw [chunkStep_offer hoffer] at hstep
        cases hstep
    | none =>
        rw [chunkStep_new hbe hoffer] at hstep
        dsimp only
        rw [putAll]
        rcases hput : put be slice (blobKey ⟨f.blobCounter⟩) with ⟨r, be'⟩
        rw [hput] at hstep
        cases r with
        | error e => exact ⟨s, rfl⟩
        | ok n => cases hstep
  · intro offset slice parts f c m rc g hstep ih be hbe
    rw [newBlobs, chunksFor]
    cases hoffer : offer dedupe f.blobByDigest slice with
    | some b =>
        rw [chunkStep_offer hoffer] at hstep
        obtain ⟨hc, rfl⟩ := Prod.mk.inj hstep
        obtain rfl := Except.ok.inj hc
        exact (ih be hbe).cons _
    | none =>
        rw [chunkStep_new hbe hoffer] at hstep
        dsimp only
        rw [putAll]
        rcases hput : put be slice (blobKey ⟨f.blobCounter⟩) with ⟨r, be'⟩
        rw [hput] at hstep
        cases r with
        | error e => cases hstep
        | ok n =>
            obtain ⟨hc, rfl⟩ := Prod.mk.inj hstep
            obtain rfl := Except.ok.inj hc
            have hbe' : ((f.allocBlobId.2.setBackend k be').recordBlob ⟨f.blobCounter⟩
                slice).backends.lookup k = some be' := by
              show (f.backends.modify k fun _ => be').lookup k = some be'
              rw [AList.lookup_modify_self, hbe]
              rfl
            exact (ih be' hbe').cons _

/-- The verification comes down to what the backend object gives back. -/
theorem verifyChunks_ok_iff {f : Fabric β} {k : StorageBackendId} {be : β}
    (hbe : f.backends.lookup k = some be) {chunks : List ChunkDescriptor} :
    f.verifyChunks k chunks = .ok () ↔ ∀ c ∈ chunks, ∃ data,
      StorageBackend.read be (blobKey c.blob) = .ok data ∧ ContentDigest.of data = c.digest := by
  induction chunks with
  | nil => exact iff_of_true rfl fun c hc => absurd hc List.not_mem_nil
  | cons c cs ih =>
      rw [verifyChunks, getBackend, hbe, List.forall_mem_cons]
      dsimp only
      cases hread : StorageBackend.read be (blobKey c.blob) with
      | error s =>
          refine iff_of_false (fun hok => ?_) ?_
          · cases hok
          · rintro ⟨⟨data, hdata, -⟩, -⟩
            cases hdata
      | ok data =>
          by_cases hdigest : ContentDigest.of data = c.digest
          · simp only [hdigest, ne_eq, not_true_eq_false, if_false]
            rw [ih]
            exact ⟨fun h => ⟨⟨data, rfl, hdigest⟩, h⟩, And.right⟩
          · simp only [hdigest, ne_eq, not_false_eq_true, if_true]
            refine iff_of_false (fun hok => ?_) ?_
            · cases hok
            · rintro ⟨⟨data', hdata', heq⟩, -⟩
              exact hdigest (Except.ok.inj hdata' ▸ heq)

end Backend

theorem view_putAll [KeyValueBackend β] {be be' : β} {new : List (BlobId × Bytes)}
    (hnodup : (new.map (·.1)).Nodup) (h : putAll be new = some be') :
    (∀ e ∈ new, KeyValueBackend.view be' (blobKey e.1) = some e.2) ∧
      ∀ b, b ∉ new.map (·.1) →
        KeyValueBackend.view be' (blobKey b) = KeyValueBackend.view be (blobKey b) := by
  induction new generalizing be with
  | nil =>
      obtain rfl := Option.some.inj h
      exact ⟨fun e he => absurd he List.not_mem_nil, fun b _ => rfl⟩
  | cons e new ih =>
      obtain ⟨b, data⟩ := e
      rw [List.map_cons, List.nodup_cons] at hnodup
      obtain ⟨hfirst, hnodup⟩ := hnodup
      rw [putAll] at h
      rcases hput : put be data (blobKey b) with ⟨r, be₁⟩
      rw [hput] at h
      cases r with
      | error s => cases h
      | ok n =>
          have hview : ∀ key, KeyValueBackend.view be₁ key =
              if key = blobKey b then some data else KeyValueBackend.view be key := by
            have hok := KeyValueBackend.put_ok
              (congrArg Prod.fst hput : (put be data (blobKey b)).1 = .ok n)
            rwa [hput] at hok
          obtain ⟨hnew, hold⟩ := ih hnodup h
          constructor
          · rw [List.forall_mem_cons]
            exact ⟨by rw [hold b hfirst, hview, if_pos rfl], hnew⟩
          · intro b' hb'
            rw [List.map_cons, List.mem_cons, not_or] at hb'
            rw [hold b' hb'.2, hview, if_neg fun heq => hb'.1 (blobKey_injective heq)]

/-! ### Validity -/

theorem extent_chunkAt {offset : Nat} {slice : Bytes} (h : offset + slice.length < 2 ^ 64)
    (blob : BlobId) : (chunkAt offset slice blob).extent = ⟨offset, slice.length⟩ := by
  have hoffset : (UInt64.ofNat offset).toNat = offset := by
    rw [UInt64.toNat_ofNat', Nat.mod_eq_of_lt (by omega)]
  have hlength : (UInt64.ofNat slice.length).toNat = slice.length := by
    rw [UInt64.toNat_ofNat', Nat.mod_eq_of_lt (by omega)]
  show Extent.mk (UInt64.ofNat offset).toNat (UInt64.ofNat slice.length).toNat = _
  rw [hoffset, hlength]

theorem tiles_shapes (offset : Nat) {parts : List Bytes}
    (h : offset + parts.flatten.length < 2 ^ 64) :
    Extent.Tiles offset ((shapes offset parts).map ChunkDescriptor.extent)
      (offset + parts.flatten.length) := by
  induction parts generalizing offset with
  | nil => rfl
  | cons slice parts ih =>
      rw [List.flatten_cons, List.length_append] at h ⊢
      rw [shapes, List.map_cons, extent_chunkAt (by omega), ← Nat.add_assoc]
      exact ⟨rfl, ih (offset + slice.length) (by omega)⟩

theorem digest_shapes (offset : Nat) (parts : List Bytes) :
    (shapes offset parts).map (·.digest) = parts.map ContentDigest.of := by
  induction parts generalizing offset with
  | nil => rfl
  | cons slice parts ih => rw [shapes, List.map_cons, List.map_cons, ih]; rfl

theorem mem_shapes {c : ChunkDescriptor} {offset : Nat} {parts : List Bytes}
    (h : c ∈ shapes offset parts) : ∃ o, ∃ slice ∈ parts, c = chunkAt o slice default ∧
      o + slice.length ≤ offset + parts.flatten.length := by
  induction parts generalizing offset with
  | nil => exact absurd h List.not_mem_nil
  | cons slice parts ih =>
      rw [List.flatten_cons, List.length_append]
      rcases List.mem_cons.mp h with rfl | h
      · exact ⟨offset, slice, List.mem_cons_self, rfl, by omega⟩
      · obtain ⟨o, part, hpart, heq, hle⟩ := ih h
        exact ⟨o, part, List.mem_cons_of_mem _ hpart, heq, by omega⟩

theorem wellFormed_of_shapes {chunks : List ChunkDescriptor} {parts : List Bytes}
    (hshapes : chunks.map forgetBlob = shapes 0 parts) (hbound : 0 + parts.flatten.length < 2 ^ 64)
    (hne : ∀ slice ∈ parts, slice ≠ [])
    (hdigests : ∀ slice ∈ parts, (ContentDigest.of slice).isZero = false)
    (hblobs : ∀ c ∈ chunks, c.blob.isNil = false) : ∀ c ∈ chunks, c.WellFormed := by
  intro c hc
  have hmem : forgetBlob c ∈ shapes 0 parts := hshapes ▸ List.mem_map_of_mem hc
  obtain ⟨o, slice, hslice, heq, hle⟩ := mem_shapes hmem
  have hlength : 0 < slice.length := List.length_pos_iff.mpr (hne slice hslice)
  have hpos : 0 < UInt64.ofNat slice.length := by
    rw [UInt64.lt_iff_toNat_lt, UInt64.toNat_ofNat', Nat.mod_eq_of_lt (by omega)]
    exact hlength
  have hid : c.id = ⟨o + 1⟩ := congrArg ChunkDescriptor.id heq
  have hdigest : c.digest = ContentDigest.of slice := congrArg ChunkDescriptor.digest heq
  have hlogical : c.logicalLength = UInt64.ofNat slice.length :=
    congrArg ChunkDescriptor.logicalLength heq
  have hphysical : c.physicalLength = UInt64.ofNat slice.length :=
    congrArg ChunkDescriptor.physicalLength heq
  constructor
  · rw [hid]
    exact decide_eq_false (Nat.succ_ne_zero o)
  · exact hblobs c hc
  · rw [hdigest]
    exact hdigests slice hslice
  · rw [hlogical]
    exact hpos
  · rw [hphysical]
    exact hpos

theorem nodup_ids_of_shapes {chunks : List ChunkDescriptor} {parts : List Bytes}
    (hshapes : chunks.map forgetBlob = shapes 0 parts) (hbound : 0 + parts.flatten.length < 2 ^ 64)
    (hne : ∀ slice ∈ parts, slice ≠ []) : (chunks.map (·.id)).Nodup := by
  obtain ⟨hids, hsorted⟩ := shapes_ordered 0 hne hbound
  have hnodup : ((chunks.map forgetBlob).map (·.id)).Nodup := by
    rw [hshapes, List.Nodup, List.pairwise_map]
    refine hsorted.imp_of_mem fun {a b} ha hb hlt heq => ?_
    have hvalue : a.id.value = b.id.value := congrArg (·.value) heq
    rw [(hids a ha).2, (hids b hb).2] at hvalue
    have hoffset := UInt64.lt_iff_toNat_lt.mp hlt
    omega
  rwa [List.map_map] at hnodup

/-- When the manifest of a publication is valid: if its ids and its digests are. -/
theorem validate_manifestOf_iff {f : Fabric β} {c : Call} {chunks : List ChunkDescriptor}
    (hshapes : chunks.map forgetBlob = shapes 0 c.slices)
    (hsize : c.content.length = c.obj.logicalSize.toNat) (hpos : 0 < c.obj.logicalSize) :
    (f.manifestOf c chunks).chunks = chunks ∧
      ((f.manifestOf c chunks).validate = .ok () ↔
        f.manifestCounter ≠ 0 ∧ c.obj.id.isNil = false ∧
        (f.manifestOf c chunks).manifestDigest.isZero = false ∧
        (∀ slice ∈ c.slices, (ContentDigest.of slice).isZero = false) ∧
        ∀ ch ∈ chunks, ch.blob.isNil = false) := by
  have hne : c.content ≠ [] := by
    intro hnil
    rw [hnil] at hsize
    exact (UInt64.lt_iff_toNat_lt.mp hpos).ne hsize
  have hparts : ∀ slice ∈ c.slices, slice ≠ [] :=
    fun _ h => ne_nil_of_mem_slices (Call.chunkLength_pos hsize hne) h
  have hflat := Call.flatten_slices hsize
  have hbound : 0 + c.slices.flatten.length < 2 ^ 64 := by
    rw [hflat, Nat.zero_add, hsize]
    exact c.obj.logicalSize.toNat_lt
  -- the layout is right by construction, so only the ids and digests remain
  have htiles : Extent.Tiles 0 (chunks.map ChunkDescriptor.extent) c.obj.logicalSize.toNat := by
    have h := tiles_shapes 0 hbound
    rw [← hshapes, List.map_map, hflat, Nat.zero_add, hsize] at h
    exact h
  have hsorted : chunks.Pairwise Manifest.chunkLe := by
    have h := (shapes_ordered 0 hparts hbound).2
    rw [← hshapes, List.pairwise_map] at h
    exact h.imp fun hlt => .inl hlt
  have hchunks : (f.manifestOf c chunks).chunks = chunks := hsorted.insertionSort_eq
  have hids := nodup_ids_of_shapes hshapes hbound hparts
  refine ⟨hchunks, ?_⟩
  rw [Manifest.validate, validateManifest_strict_iff, hchunks, Manifest.extents, hchunks]
  constructor
  · rintro ⟨hid, hobject, hdigest, -, hwell, -, -⟩
    refine ⟨of_decide_eq_false hid, hobject, hdigest, ?_, fun ch hch => (hwell ch hch).blob⟩
    intro slice hslice
    obtain ⟨ch, hch, hdesc⟩ : ∃ ch ∈ chunks, ch.digest = ContentDigest.of slice := by
      have hmem : ContentDigest.of slice ∈ (shapes 0 c.slices).map (·.digest) := by
        rw [digest_shapes]
        exact List.mem_map_of_mem hslice
      rw [← hshapes, List.map_map] at hmem
      obtain ⟨ch, hch, heq⟩ := List.mem_map.mp hmem
      exact ⟨ch, hch, heq⟩
    exact hdesc ▸ (hwell ch hch).digest
  · rintro ⟨hid, hobject, hdigest, hdigests, hblobs⟩
    exact ⟨decide_eq_false hid, hobject, hdigest, hpos,
      wellFormed_of_shapes hshapes hbound hparts hdigests hblobs, hids, htiles⟩

/-! ### Landing -/

def chunksOf (f : Fabric β) (c : Call) : List ChunkDescriptor :=
  chunksFor c.opts.dedupe f.blobByDigest f.blobCounter 0 c.slices

/-- What a publication has to store. -/
def storesFor (f : Fabric β) (c : Call) : List (BlobId × Bytes) :=
  newBlobs c.opts.dedupe f.blobByDigest f.blobCounter c.slices

/-- The backend takes what the publication has to store and, where that is asked for, gives
back what has the digests of the chunks. -/
def Takes [StorageBackend β] (f : Fabric β) (c : Call) : Prop :=
  ∃ be be', f.backends.lookup c.backend = some be ∧ putAll be (f.storesFor c) = some be' ∧
    (c.opts.eagerVerify = true → ∀ ch ∈ f.chunksOf c, ∃ data,
      StorageBackend.read be' (blobKey ch.blob) = .ok data ∧ ContentDigest.of data = ch.digest)

/-- A publication goes all the way to the commit of its reservation: it is let in, the
backend takes it, every id and every digest in its manifest is one, and there is a place
for the manifest and for the placement. -/
structure Lands [StorageBackend β] (f : Fabric β) (c : Call) : Prop where
  accepted : ¬f.Refuses c
  takes : f.Takes c
  named : NamesBlobs c.opts.dedupe f.blobByDigest f.blobCounter c.slices
  object : c.obj.id.isNil = false
  manifest : f.manifestCounter ≠ 0
  digests : ∀ slice ∈ c.slices, (ContentDigest.of slice).isZero = false
  manifestDigest : (f.manifestOf c (f.chunksOf c)).manifestDigest.isZero = false
  freshManifest : ⟨f.manifestCounter⟩ ∉ f.manifests
  registered : ∃ desc t, f.backendDescriptors.lookup c.backend = some desc ∧
    f.tiers.lookup desc.tier = some t
  freshPlacement : ⟨f.placementCounter⟩ ∉ f.placements

theorem pos_of_accepts {f : Fabric β} {c : Call} (h : ¬f.Refuses c) : 0 < c.obj.logicalSize := by
  refine UInt64.pos_iff_ne_zero.mpr fun hzero => h (.inr (.inr (.inr (.inr ?_))))
  unfold ReservationLedger.Refuses
  split
  · trivial
  · exact .inl hzero

/-- How far a publication gets can be told from the state before it. -/
theorem commits_iff_lands [StorageBackend β] {f : Fabric β} {c : Call} :
    f.Commits c ↔ f.Lands c := by
  by_cases haccepted : ¬f.Refuses c
  · obtain ⟨be, hbe⟩ := AList.mem_iff_lookup.mp (backend_of_accepts haccepted)
    have hshapes : (f.chunksOf c).map forgetBlob = shapes 0 c.slices := chunksFor_shapes ..
    have hvalid := (validate_manifestOf_iff (f := f) hshapes (size_of_accepts haccepted)
      (pos_of_accepts haccepted)).2
    rw [show (∀ ch ∈ f.chunksOf c, ch.blob.isNil = false) ↔
      NamesBlobs c.opts.dedupe f.blobByDigest f.blobCounter c.slices from
        (namesBlobs_iff 0).symm] at hvalid
    have hends : Ends c.backend (f.chunksOf c) (f.storeChunks c).1 (f.storeChunks c).2
        (putAll be (f.storesFor c)) :=
      chunkLoop_ends c.backend c.opts.dedupe (chunkLength c.obj c.opts) c.content.length 0
        c.content (f.holding c).allocManifestId.2 hbe
    constructor
    · rintro ⟨-, chunks, hok, hpass⟩
      -- a loop that ended well had all its blobs taken
      cases htook : putAll be (f.storesFor c) with
      | none =>
          rw [htook] at hends
          obtain ⟨s, hs⟩ := hends
          cases hok.symm.trans hs
      | some be' =>
          rw [htook] at hends
          obtain ⟨hchunks, hbe'⟩ := hends
          obtain rfl : f.chunksOf c = chunks := Except.ok.inj (hchunks.symm.trans hok)
          obtain ⟨hmanifest, hobject, hdigest, hdigests, hnamed⟩ := hvalid.mp hpass.valid
          exact
            { accepted := haccepted
              takes := ⟨be, be', hbe, htook, fun heager =>
                (verifyChunks_ok_iff hbe').mp (hpass.verified heager)⟩
              named := hnamed
              object := hobject
              manifest := hmanifest
              digests := hdigests
              manifestDigest := hdigest
              freshManifest := hpass.freshManifest
              registered := hpass.registered
              freshPlacement := hpass.freshPlacement }
    · intro h
      obtain ⟨be₀, be', hbe₀, htook, hback⟩ := h.takes
      obtain rfl : be = be₀ := Option.some.inj (hbe.symm.trans hbe₀)
      rw [htook] at hends
      obtain ⟨hchunks, hbe'⟩ := hends
      exact ⟨haccepted, f.chunksOf c, hchunks,
        { verified := fun heager => (verifyChunks_ok_iff hbe').mpr (hback heager)
          valid := hvalid.mpr ⟨h.manifest, h.object, h.manifestDigest, h.digests, h.named⟩
          freshManifest := h.freshManifest
          registered := h.registered
          freshPlacement := h.freshPlacement }⟩
  · exact iff_of_false (fun h => haccepted h.1) fun h => haccepted h.accepted

end Fabric

end StorageFabric
