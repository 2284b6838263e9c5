import StorageFabric.Lib.Extents
import StorageFabric.Model.Manifest

/-!
What validation accepts.

The loop adds offsets and lengths on 64 bits and checks no carry. Without gaps
this is harmless: an end that wraps lies before the offset it was computed
from, so the next chunk would be out of order and the last one would not reach
the total. With gaps allowed a wrapped end is simply the next cursor.
-/

namespace StorageFabric

def ChunkDescriptor.extent (c : ChunkDescriptor) : Extent :=
  ⟨c.offset.toNat, c.logicalLength.toNat⟩

def Manifest.extents (m : Manifest) : List Extent := m.chunks.map ChunkDescriptor.extent

/-- What the loop asks of a chunk by itself. -/
structure ChunkDescriptor.WellFormed (c : ChunkDescriptor) : Prop where
  id : c.id.isNil = false
  blob : c.blob.isNil = false
  digest : c.digest.isZero = false
  logicalLength : 0 < c.logicalLength
  physicalLength : 0 < c.physicalLength

def ChunkDescriptor.Fits (c : ChunkDescriptor) : Prop :=
  c.offset.toNat + c.logicalLength.toNat < 2 ^ 64

instance : DecidablePred ChunkDescriptor.Fits := fun c =>
  inferInstanceAs (Decidable (c.offset.toNat + c.logicalLength.toNat < 2 ^ 64))

/-- The way of the cursor through the chunks, on 64 bits as in the loop. -/
def Walks (total : UInt64) (allowGaps : Bool) : UInt64 → List ChunkDescriptor → UInt64 → Prop
  | cursor, [], stop => cursor = stop
  | cursor, c :: cs, stop =>
      c.offset ≤ total ∧ cursor ≤ c.offset ∧ (allowGaps = false → c.offset = cursor) ∧
        c.offset + c.logicalLength ≤ total ∧
          Walks total allowGaps (c.offset + c.logicalLength) cs stop

theorem refusal_ok_iff {α : Type} {p : Prop} [Decidable p] {code : StatusCode} {msg : String}
    {r : Except Status α} {a : α} :
    (if p then Result.fail code msg else r) = .ok a ↔ ¬p ∧ r = .ok a := by
  by_cases hp : p
  · simp [hp, Result.fail]
  · simp [hp]

theorem validateChunks_cons {total cursor stop : UInt64} {allowGaps : Bool} {ids : List ChunkId}
    {c : ChunkDescriptor} {cs : List ChunkDescriptor} :
    validateChunks total allowGaps ids cursor (c :: cs) = .ok stop ↔
      c.id ∉ ids ∧ c.WellFormed ∧
        (c.offset ≤ total ∧ cursor ≤ c.offset ∧ (allowGaps = false → c.offset = cursor) ∧
          c.offset + c.logicalLength ≤ total) ∧
        validateChunks total allowGaps (c.id :: ids) (c.offset + c.logicalLength) cs =
          .ok stop := by
  simp only [validateChunks, refusal_ok_iff]
  constructor
  · rintro ⟨hseen, hnil, hzero, hlogical, hphysical, hoffset, hcursor, hgap, hend, hrest⟩
    rw [Bool.or_eq_true, not_or] at hnil
    refine ⟨hseen, ⟨Bool.eq_false_iff.mpr hnil.1, Bool.eq_false_iff.mpr hnil.2,
      Bool.eq_false_iff.mpr hzero, UInt64.pos_iff_ne_zero.mpr hlogical,
      UInt64.pos_iff_ne_zero.mpr hphysical⟩,
      ⟨UInt64.not_lt.mp hoffset, UInt64.not_lt.mp hcursor, ?_, UInt64.not_lt.mp hend⟩, hrest⟩
    intro hstrict
    by_contra hne
    exact hgap (by simp [hstrict, hne])
  · rintro ⟨hseen, hwell, ⟨hoffset, hcursor, hgap, hend⟩, hrest⟩
    refine ⟨hseen, by simp [hwell.id, hwell.blob], by simp [hwell.digest],
      UInt64.pos_iff_ne_zero.mp hwell.logicalLength,
      UInt64.pos_iff_ne_zero.mp hwell.physicalLength, UInt64.not_lt.mpr hoffset, UInt64.not_lt.mpr hcursor, ?_,
      UInt64.not_lt.mpr hend, hrest⟩
    rw [Bool.and_eq_true, Bool.not_eq_true', decide_eq_true_eq]
    exact fun h => h.2 (hgap h.1)

theorem validateChunks_ok_iff {total cursor stop : UInt64} {allowGaps : Bool}
    {ids : List ChunkId} {cs : List ChunkDescriptor} :
    validateChunks total allowGaps ids cursor cs = .ok stop ↔
      (∀ c ∈ cs, c.WellFormed) ∧ (∀ c ∈ cs, c.id ∉ ids) ∧ (cs.map (·.id)).Nodup ∧
        Walks total allowGaps cursor cs stop := by
  induction cs generalizing ids cursor with
  | nil => simp [validateChunks, Walks]
  | cons c cs ih =>
      rw [validateChunks_cons, ih, List.map_cons, List.nodup_cons, List.forall_mem_cons,
        List.forall_mem_cons, Walks]
      have hfresh : (∀ c' ∈ cs, c'.id ∉ c.id :: ids) ↔
          c.id ∉ cs.map (·.id) ∧ ∀ c' ∈ cs, c'.id ∉ ids := by
        simp only [List.mem_cons, not_or, List.mem_map, not_exists, not_and]
        exact forall₂_and
      rw [hfresh]
      tauto

/-! ### The order of the chunks -/

instance : Std.Total Manifest.chunkLe where
  total a b := by
    rcases Nat.lt_trichotomy a.offset.toNat b.offset.toNat with hlt | heq | hgt
    · exact .inl (.inl (UInt64.lt_iff_toNat_lt.mpr hlt))
    · have hoffset : a.offset = b.offset := UInt64.toNat_inj.mp heq
      exact (Nat.le_total a.id.value b.id.value).imp (fun h => .inr ⟨hoffset, h⟩)
        fun h => .inr ⟨hoffset.symm, h⟩
    · exact .inr (.inl (UInt64.lt_iff_toNat_lt.mpr hgt))

instance : IsTrans ChunkDescriptor Manifest.chunkLe where
  trans a b c hab hbc := by
    rcases hab with hab | ⟨hab, hid⟩
    · rcases hbc with hbc | ⟨hbc, -⟩
      · exact .inl (UInt64.lt_trans hab hbc)
      · exact .inl (hbc ▸ hab)
    · rcases hbc with hbc | ⟨hbc, hid'⟩
      · exact .inl (hab ▸ hbc)
      · exact .inr ⟨hab.trans hbc, hid.trans hid'⟩

theorem sorted_of_keys {m : Manifest}
    (h : m.sortChunks.chunks.map (fun c => (c.offset, c.id)) =
      m.chunks.map (fun c => (c.offset, c.id))) : m.chunks.Pairwise Manifest.chunkLe := by
  let keyLe : UInt64 × ChunkId → UInt64 × ChunkId → Prop := fun a b =>
    a.1 < b.1 ∨ a.1 = b.1 ∧ a.2.value ≤ b.2.value
  have hsorted : m.sortChunks.chunks.Pairwise Manifest.chunkLe :=
    List.pairwise_insertionSort Manifest.chunkLe m.chunks
  have hkeys : (m.sortChunks.chunks.map fun c => (c.offset, c.id)).Pairwise keyLe :=
    List.pairwise_map.mpr hsorted
  rw [h, List.pairwise_map] at hkeys
  exact hkeys

theorem keys_of_sorted {m : Manifest} (h : m.chunks.Pairwise Manifest.chunkLe) :
    m.sortChunks.chunks.map (fun c => (c.offset, c.id)) =
      m.chunks.map (fun c => (c.offset, c.id)) := by
  rw [Manifest.sortChunks, h.insertionSort_eq]

/-! ### Ends of chunks -/

theorem ChunkDescriptor.Fits.toNat_end {c : ChunkDescriptor} (h : c.Fits) :
    (c.offset + c.logicalLength).toNat = c.extent.stop := by
  rw [UInt64.toNat_add, Nat.mod_eq_of_lt h]
  rfl

theorem ChunkDescriptor.end_lt_of_not_fits {c : ChunkDescriptor} (h : ¬c.Fits) :
    c.offset + c.logicalLength < c.offset := by
  have hlength := c.logicalLength.toNat_lt
  have hoffset := c.offset.toNat_lt
  rw [Fits, Nat.not_lt] at h
  rw [UInt64.lt_iff_toNat_lt, UInt64.toNat_add]
  omega

/-- Without gaps no end wraps on the way to the total. -/
theorem Walks.fits {total cursor : UInt64} {cs : List ChunkDescriptor}
    (h : Walks total false cursor cs total) (hsorted : cs.Pairwise Manifest.chunkLe) :
    ∀ c ∈ cs, c.Fits := by
  induction cs generalizing cursor with
  | nil => exact fun c hc => absurd hc List.not_mem_nil
  | cons c cs ih =>
      obtain ⟨hoffset, -, -, -, hrest⟩ := h
      obtain ⟨hlater, hsorted⟩ := List.pairwise_cons.mp hsorted
      refine List.forall_mem_cons.mpr ⟨?_, ih hrest hsorted⟩
      by_contra hwraps
      have hlt := c.end_lt_of_not_fits hwraps
      cases cs with
      | nil =>
          have hend : c.offset + c.logicalLength = total := hrest
          rw [hend] at hlt
          exact UInt64.not_lt.mpr hoffset hlt
      | cons next cs =>
          have hnext : next.offset = c.offset + c.logicalLength := hrest.2.2.1 rfl
          rw [← hnext] at hlt
          rcases hlater next List.mem_cons_self with hle | ⟨heq, -⟩
          · exact UInt64.lt_asymm hlt hle
          · exact UInt64.lt_irrefl _ (heq ▸ hlt)

/-! ### The walk over the integers -/

theorem Walks.packed {total cursor stop : UInt64} {allowGaps : Bool} {cs : List ChunkDescriptor}
    (h : Walks total allowGaps cursor cs stop) (hfits : ∀ c ∈ cs, c.Fits) :
    Extent.Packed cursor.toNat (cs.map ChunkDescriptor.extent) stop.toNat := by
  induction cs generalizing cursor with
  | nil => exact Nat.le_of_eq (congrArg UInt64.toNat h)
  | cons c cs ih =>
      obtain ⟨-, hcursor, -, -, hrest⟩ := h
      obtain ⟨hc, hfits⟩ := List.forall_mem_cons.mp hfits
      refine ⟨UInt64.le_iff_toNat_le.mp hcursor, ?_⟩
      rw [← hc.toNat_end]
      exact ih hrest hfits

theorem Walks.tiles {total cursor stop : UInt64} {cs : List ChunkDescriptor}
    (h : Walks total false cursor cs stop) (hfits : ∀ c ∈ cs, c.Fits) :
    Extent.Tiles cursor.toNat (cs.map ChunkDescriptor.extent) stop.toNat := by
  induction cs generalizing cursor with
  | nil => exact congrArg UInt64.toNat h
  | cons c cs ih =>
      obtain ⟨-, -, hgap, -, hrest⟩ := h
      obtain ⟨hc, hfits⟩ := List.forall_mem_cons.mp hfits
      refine ⟨congrArg UInt64.toNat (hgap rfl), ?_⟩
      rw [← hc.toNat_end]
      exact ih hrest hfits

theorem walks_of_tiles {total cursor : UInt64} {allowGaps : Bool} {cs : List ChunkDescriptor}
    (h : Extent.Tiles cursor.toNat (cs.map ChunkDescriptor.extent) total.toNat) :
    Walks total allowGaps cursor cs total := by
  induction cs generalizing cursor with
  | nil => exact UInt64.toNat_inj.mp h
  | cons c cs ih =>
      obtain ⟨hstart, hrest⟩ := h
      have hstop : c.extent.stop ≤ total.toNat := hrest.packed.le
      have hfits : c.Fits := hstop.trans_lt total.toNat_lt
      have hoffset : c.offset = cursor := UInt64.toNat_inj.mp hstart
      rw [← hfits.toNat_end] at hstop hrest
      refine ⟨UInt64.le_iff_toNat_le.mpr ?_, hoffset ▸ UInt64.le_refl _, fun _ => hoffset,
        UInt64.le_iff_toNat_le.mpr hstop, ih hrest⟩
      rw [hfits.toNat_end] at hstop
      exact (Nat.le_add_right _ _).trans hstop

theorem sorted_of_tiles {lo hi : Nat} {cs : List ChunkDescriptor}
    (h : Extent.Tiles lo (cs.map ChunkDescriptor.extent) hi) (hwell : ∀ c ∈ cs, c.WellFormed) :
    cs.Pairwise Manifest.chunkLe := by
  have hpos : ∀ e ∈ cs.map ChunkDescriptor.extent, 0 < e.length := by
    intro e he
    obtain ⟨c, hc, rfl⟩ := List.mem_map.mp he
    exact UInt64.lt_iff_toNat_lt.mp (hwell c hc).logicalLength
  have hascending := List.pairwise_map.mp (h.packed.ascending hpos)
  exact hascending.imp fun hlt => .inl (UInt64.lt_iff_toNat_lt.mpr hlt)

/-! ### Acceptance -/

theorem validateManifest_of_tiles {m : Manifest} (hid : m.id.isNil = false)
    (hobject : m.object.isNil = false) (hdigest : m.manifestDigest.isZero = false)
    (htotal : 0 < m.totalLogicalLength) (hwell : ∀ c ∈ m.chunks, c.WellFormed)
    (hids : (m.chunks.map (·.id)).Nodup)
    (htiles : Extent.Tiles 0 m.extents m.totalLogicalLength.toNat) (allowGaps : Bool) :
    validateManifest m allowGaps = .ok () := by
  refine validateManifest_ok_iff.mpr ⟨hid, hobject, UInt64.pos_iff_ne_zero.mp htotal, hdigest,
    keys_of_sorted (sorted_of_tiles htiles hwell), ?_, ?_⟩
  · exact validateChunks_ok_iff.mpr
      ⟨hwell, fun _ _ => List.not_mem_nil, hids, walks_of_tiles htiles⟩
  · intro hnil
    rw [Manifest.extents, hnil] at htiles
    exact (UInt64.lt_iff_toNat_lt.mp htotal).ne htiles

/-- Without gaps, a manifest is accepted exactly if it is identified and its chunks
are well formed, told apart by their ids, and tile the object over the integers. -/
theorem validateManifest_strict_iff {m : Manifest} :
    validateManifest m false = .ok () ↔
      m.id.isNil = false ∧ m.object.isNil = false ∧ m.manifestDigest.isZero = false ∧
        0 < m.totalLogicalLength ∧ (∀ c ∈ m.chunks, c.WellFormed) ∧
        (m.chunks.map (·.id)).Nodup ∧
        Extent.Tiles 0 m.extents m.totalLogicalLength.toNat := by
  constructor
  · intro h
    obtain ⟨hid, hobject, htotal, hdigest, hkeys, hloop, -⟩ := validateManifest_ok_iff.mp h
    obtain ⟨hwell, -, hids, hwalks⟩ := validateChunks_ok_iff.mp hloop
    have hfits := hwalks.fits (sorted_of_keys hkeys)
    exact ⟨hid, hobject, hdigest, UInt64.pos_iff_ne_zero.mpr htotal, hwell, hids,
      hwalks.tiles hfits⟩
  · rintro ⟨hid, hobject, hdigest, htotal, hwell, hids, htiles⟩
    exact validateManifest_of_tiles hid hobject hdigest htotal hwell hids htiles false

/-- Every chunk lies inside the object and no two share a byte, over the integers. -/
structure Manifest.LaidOut (m : Manifest) : Prop where
  within : ∀ e ∈ m.extents, e.stop ≤ m.totalLogicalLength.toNat
  apart : m.extents.Pairwise fun e e' => Disjoint e.positions e'.positions

/-- With gaps allowed, the chunks of an accepted manifest are laid out in the object
exactly if no end of a chunk wraps. -/
theorem validateManifest_gaps_iff {m : Manifest} (h : validateManifest m true = .ok ()) :
    m.LaidOut ↔ ∀ c ∈ m.chunks, c.Fits := by
  obtain ⟨-, -, -, -, -, hloop, -⟩ := validateManifest_ok_iff.mp h
  obtain ⟨-, -, -, hwalks⟩ := validateChunks_ok_iff.mp hloop
  constructor
  · intro hlaid c hc
    have hstop := hlaid.within c.extent (List.mem_map_of_mem hc)
    exact hstop.trans_lt m.totalLogicalLength.toNat_lt
  · intro hfits
    have hpacked : Extent.Packed 0 m.extents m.totalLogicalLength.toNat := hwalks.packed hfits
    exact ⟨fun e he => (hpacked.within e he).2, hpacked.disjoint⟩

/-- Two chunks of an object of 100 bytes. The end of the first wraps to 20. -/
def wrappedManifest : Manifest :=
  let digest := ContentDigest.of []
  { id := ⟨1⟩
    object := ⟨1⟩
    totalLogicalLength := 100
    manifestDigest := digest
    chunks :=
      [{ id := ⟨1⟩, offset := 50, logicalLength := 18446744073709551586, physicalLength := 1,
         digest, blob := ⟨1⟩ },
       { id := ⟨2⟩, offset := 60, logicalLength := 40, physicalLength := 40,
         digest, blob := ⟨2⟩ }] }

theorem wrappedManifest_accepted :
    validateManifest wrappedManifest true = .ok () ∧ ¬wrappedManifest.LaidOut := by
  refine ⟨by decide +kernel, fun hlaid => ?_⟩
  have hstop := hlaid.within ⟨50, 18446744073709551586⟩ List.mem_cons_self
  exact absurd hstop (by decide)

/-- The same two chunks, the first of 10 bytes behind a gap of 50. -/
def gappedManifest : Manifest :=
  { wrappedManifest with
    chunks := wrappedManifest.chunks.map fun c =>
      if c.Fits then c else { c with logicalLength := 10 } }

theorem gappedManifest_laidOut : gappedManifest.LaidOut :=
  (validateManifest_gaps_iff (by decide +kernel)).mpr (by decide +kernel)

end StorageFabric
