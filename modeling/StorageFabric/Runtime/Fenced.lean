import StorageFabric.Lib.Runs
import StorageFabric.Runtime.Outcome

/-!
Mutations under a stale authority.

Publication is the one place where the authority of a caller is compared with the
live one. The definition of an object does not compare it, and a replication or a
movement reads its source before it gets there, so that a read that stops half-way
leaves its mark in the accounting.
-/

namespace StorageFabric

namespace Op

variable {β : Type}

def authority : Op β → Option AuthorityEnvelope
  | .defineObject _ _ _ writer _ _ => some writer
  | .publishTo _ _ _ opts => some opts.authority
  | .publish _ _ _ opts => some opts.authority
  | .replicate _ _ opts => some opts.authority
  | .move _ _ opts => some opts.authority
  | _ => none

end Op

namespace Fabric

variable {β : Type}

/-- A given authority that is strictly older than the live one. -/
def isStale (f : Fabric β) (a : AuthorityEnvelope) : Bool :=
  !a.isNil && decide (AuthorityEnvelope.compare a f.authority < 0)

/-- The operation carries a stale authority. -/
def CarriesStale (f : Fabric β) (op : Op β) : Prop := op.authority.any f.isStale = true

instance (f : Fabric β) (op : Op β) : Decidable (f.CarriesStale op) :=
  inferInstanceAs (Decidable (_ = true))

/-- Nothing that the authority protects differs, apart from the count of stale
rejections. -/
structure Unmutated (f f' : Fabric β) : Prop where
  catalog : f'.catalog = f.catalog
  placements : f'.placements = f.placements
  manifests : f'.manifests = f.manifests
  blobByDigest : f'.blobByDigest = f.blobByDigest
  blobDigest : f'.blobDigest = f.blobDigest
  blobRefs : f'.blobRefs = f.blobRefs
  blobSizes : f'.blobSizes = f.blobSizes
  reservations : f'.reservations = f.reservations
  accounting : f'.accounting =
    { f.accounting with staleRejections := f'.accounting.staleRejections }

theorem unmutated_iff {f : Fabric β} {a : AccountingTotals} :
    Unmutated f { f with accounting := a } ↔
      a = { f.accounting with staleRejections := a.staleRejections } :=
  ⟨fun h => h.accounting, fun h => ⟨rfl, rfl, rfl, rfl, rfl, rfl, rfl, rfl, h⟩⟩

theorem Unmutated.refl (f : Fabric β) : Unmutated f f := unmutated_iff.mpr rfl

/-! ### What a read leaves in the accounting -/

/-- The lookup of a read has found its placement. -/
def raiseReads (a : AccountingTotals) : AccountingTotals :=
  { a with activeReads := a.activeReads + 1 }

/-- The read is over. -/
def lowerReads (a : AccountingTotals) : AccountingTotals :=
  if 0 < a.activeReads then { a with activeReads := a.activeReads - 1 } else a

theorem raiseReads_ne (a : AccountingTotals) (n : UInt64) :
    raiseReads a ≠ { a with staleRejections := n } := by
  intro h
  have hreads : a.activeReads + 1 = a.activeReads := congrArg AccountingTotals.activeReads h
  have hnat := congrArg UInt64.toNat hreads
  rw [UInt64.toNat_add] at hnat
  have hword := a.activeReads.toNat_lt
  have hone : (1 : UInt64).toNat = 1 := rfl
  omega

theorem toNat_raiseReads (a : AccountingTotals) :
    (raiseReads a).activeReads.toNat = (a.activeReads.toNat + 1) % 2 ^ 64 := UInt64.toNat_add _ _

theorem lowerReads_raiseReads {a : AccountingTotals} (hroom : a.activeReads.toNat < 2 ^ 64 - 1) :
    lowerReads (raiseReads a) = a := by
  have hpos : 0 < (raiseReads a).activeReads := by
    apply UInt64.lt_iff_toNat_lt.mpr
    rw [toNat_raiseReads, UInt64.toNat_zero]
    omega
  rw [lowerReads, if_pos hpos]
  simp only [raiseReads, UInt64.add_sub_cancel]

theorem lowerReads_raiseReads_iff (a : AccountingTotals) (n : UInt64) :
    { lowerReads (raiseReads a) with staleRejections := n } = { a with staleRejections := n } ↔
      a.activeReads.toNat < 2 ^ 64 - 1 := by
  have hword := a.activeReads.toNat_lt
  have hone : (1 : UInt64).toNat = 1 := rfl
  by_cases hroom : a.activeReads.toNat < 2 ^ 64 - 1
  · rw [lowerReads_raiseReads hroom]
    exact iff_of_true rfl hroom
  · refine iff_of_false (fun h => ?_) hroom
    have hzero : (raiseReads a).activeReads = 0 := by
      apply UInt64.toNat_inj.mp
      rw [toNat_raiseReads, UInt64.toNat_zero]
      omega
    have hend : ¬0 < (raiseReads a).activeReads := by
      rw [hzero]
      exact UInt64.lt_irrefl 0
    rw [lowerReads, if_neg hend] at h
    have hsame := congrArg AccountingTotals.activeReads h
    change (raiseReads a).activeReads = a.activeReads at hsame
    rw [hzero] at hsame
    rw [← hsame, UInt64.toNat_zero] at hroom
    exact hroom (by decide)

/-- What a read leaves of the accounting is what was there, up to a count of stale
rejections, exactly if it completes and the counter was not at its end. -/
theorem leaves_reads_iff (completes : Bool) (a : AccountingTotals) (n : UInt64) :
    { (if completes then lowerReads (raiseReads a) else raiseReads a) with staleRejections := n } =
        { a with staleRejections := n } ↔
      completes = true ∧ a.activeReads.toNat < 2 ^ 64 - 1 := by
  cases completes with
  | false =>
      refine iff_of_false (fun h => ?_) fun h => Bool.false_ne_true h.1
      exact raiseReads_ne { a with staleRejections := n } n h
  | true => exact (lowerReads_raiseReads_iff a n).trans (and_iff_right rfl).symm

section Backend

variable [StorageBackend β]

/-- The backend of the placement is registered and holds every chunk of the manifest in
its length. -/
def HoldsChunks (f : Fabric β) (p : PlacementRecord) (man : Manifest) : Prop :=
  ∃ be, f.backends.lookup p.backend = some be ∧ ∀ c ∈ man.chunks, ∃ data,
    StorageBackend.read be (blobKey c.blob) = .ok data ∧ data.length = c.physicalLength.toNat

/-- A read stops before it raises the counter of active reads, or gets to where it
lowers it again. -/
def ReadSettles (f : Fabric β) (object : ObjectId) (placement : Option PlacementId) : Prop :=
  ∀ p man, f.lookupForRead object placement = .ok (p, man) →
    f.HoldsChunks p man ∧ Reservable man ∧ f.accounting.activeReads.toNat < 2 ^ 64 - 1

/-- A read that has found its placement and manifest gets all chunks. -/
def completes (f : Fabric β) (p : PlacementRecord) (man : Manifest) : Bool :=
  match f.getBackend p.backend with
  | .error _ => false
  | .ok be => (reserveOut man).toOption.isSome &&
      (readChunks (man.chunks.map fun c => (be, c))).toOption.isSome

theorem readChunks_isSome_iff {be : β} {cs : List ChunkDescriptor} :
    (readChunks (cs.map fun c => (be, c))).toOption.isSome = true ↔
      ∀ c ∈ cs, ∃ data, StorageBackend.read be (blobKey c.blob) = .ok data ∧
        data.length = c.physicalLength.toNat := by
  induction cs with
  | nil => exact iff_of_true rfl nofun
  | cons c cs ih =>
      rw [List.forall_mem_cons, ← ih, List.map_cons, readChunks]
      cases StorageBackend.read be (blobKey c.blob) with
      | error s => exact iff_of_false nofun fun h => by simp at h
      | ok data =>
          by_cases hlength : data.length = c.physicalLength.toNat
          · have hfirst : ∃ d, (.ok data : Result Bytes) = .ok d ∧
                d.length = c.physicalLength.toNat := ⟨data, rfl, hlength⟩
            simp only [ne_eq, hlength, not_true_eq_false, if_false]
            rw [and_iff_right hfirst]
            cases readChunks (cs.map fun c => (be, c)) <;> rfl
          · simp only [ne_eq, hlength, not_false_eq_true, if_true]
            refine iff_of_false nofun ?_
            rintro ⟨⟨d, hd, hlength'⟩, -⟩
            obtain rfl := Except.ok.inj hd
            exact hlength hlength'

theorem completes_iff {f : Fabric β} {p : PlacementRecord} {man : Manifest} :
    f.completes p man = true ↔ f.HoldsChunks p man ∧ Reservable man := by
  unfold completes HoldsChunks getBackend
  have hreserve : (reserveOut man).toOption.isSome = true ↔ Reservable man := by
    rw [← reserveOut_ok_iff]
    cases reserveOut man with
    | error s => simp [Except.toOption]
    | ok u => simp [Except.toOption]
  cases f.backends.lookup p.backend with
  | none => simp [Result.fail]
  | some be => simp [readChunks_isSome_iff, hreserve, and_comm]

theorem readSettles_of_found {f : Fabric β} {object : ObjectId} {placement : Option PlacementId}
    {p : PlacementRecord} {man : Manifest}
    (hfound : f.lookupForRead object placement = .ok (p, man)) :
    f.ReadSettles object placement ↔
      f.completes p man = true ∧ f.accounting.activeReads.toNat < 2 ^ 64 - 1 := by
  rw [completes_iff, and_assoc]
  constructor
  · exact fun h => h p man hfound
  · intro h p' man' hfound'
    obtain ⟨rfl, rfl⟩ := Prod.mk.inj (Except.ok.inj (hfound.symm.trans hfound'))
    exact h

theorem readSettles_of_error {f : Fabric β} {object : ObjectId} {placement : Option PlacementId}
    {s : Status} (herror : f.lookupForRead object placement = .error s) :
    f.ReadSettles object placement := by
  intro p man hfound
  rw [herror] at hfound
  cases hfound

/-- What a read leaves: nothing if it finds no placement, else the counter raised, and
lowered again only if it gets all chunks. -/
theorem state_read (f : Fabric β) (object : ObjectId) (placement : Option PlacementId) :
    (f.read object placement).2 =
      match f.lookupForRead object placement with
      | .error _ => f
      | .ok (p, man) =>
          f.account fun a => if f.completes p man then lowerReads (raiseReads a) else raiseReads a := by
  unfold read
  cases f.lookupForRead object placement with
  | error s => rfl
  | ok found =>
      obtain ⟨p, man⟩ := found
      have hbackend : ∀ u, (f.account u).getBackend p.backend = f.getBackend p.backend :=
        fun _ => rfl
      dsimp only
      rw [hbackend]
      cases hbe : f.getBackend p.backend with
      | error s =>
          have hcompletes : f.completes p man = false := by rw [completes, hbe]
          rw [hcompletes]
          rfl
      | ok be =>
          have hcompletes : f.completes p man = ((reserveOut man).toOption.isSome &&
              (readChunks (man.chunks.map fun c => (be, c))).toOption.isSome) := by
            rw [completes, hbe]
          rw [hcompletes]
          dsimp only
          cases reserveOut man with
          | error s => rfl
          | ok u =>
              dsimp only
              cases readChunks (man.chunks.map fun c => (be, c)) with
              | error s => rfl
              | ok out => rfl

theorem read_settles (f : Fabric β) (object : ObjectId) (placement : Option PlacementId) :
    ∃ a, (f.read object placement).2 = { f with accounting := a } ∧
      ∀ n, { a with staleRejections := n } = { f.accounting with staleRejections := n } ↔
        f.ReadSettles object placement := by
  rw [state_read]
  cases hfound : f.lookupForRead object placement with
  | error s => exact ⟨f.accounting, rfl, fun n => iff_of_true rfl (readSettles_of_error hfound)⟩
  | ok found =>
      obtain ⟨p, man⟩ := found
      exact ⟨_, rfl, fun n => (leaves_reads_iff _ _ n).trans (readSettles_of_found hfound).symm⟩

/-! ### The operations -/

theorem publishCall_stale {f : Fabric β} {c : Call} (h : f.isStale c.opts.authority = true) :
    (f.publishCall c).1.toOption.isSome = false ∧
      ∃ n, (f.publishCall c).2 =
        { f with accounting := { f.accounting with staleRejections := n } } := by
  have hfence : f.isFenced c.opts = true := h
  unfold publishCall publishTo
  by_cases hsize : c.content.length ≠ c.obj.logicalSize.toNat
  · simp only [if_pos hsize]
    exact ⟨rfl, _, rfl⟩
  by_cases hauth : (f.publishAuthority c.opts).isNil = true
  · simp only [if_neg hsize, hauth, if_true]
    exact ⟨rfl, _, rfl⟩
  simp only [if_neg hsize, if_neg hauth, if_pos hfence]
  exact ⟨rfl, _, rfl⟩

def fails (f : Fabric β) : Op β → Bool
  | .defineObject kind size content writer durability priority =>
      !(f.defineObject kind size content writer durability priority).1.toOption.isSome
  | .publishTo obj content backend opts => !(f.publishTo obj content backend opts).1.toOption.isSome
  | .publish score obj content opts => !(f.publish score obj content opts).1.toOption.isSome
  | .replicate source target opts => !(f.replicate source target opts).1.toOption.isSome
  | .move source target opts => !(f.move source target opts).1.toOption.isSome
  | _ => false

/-- Where a mutator keeps a stale authority out: the definition of an object only
if it fails for another reason, a replication or a movement only if its read
settles. -/
def KeepsOut (f : Fabric β) : Op β → Prop
  | .defineObject _ size content _ _ _ => ¬f.Defines size content
  | .replicate source _ _ | .move source _ _ =>
      source.object ∉ f.catalog ∨ f.ReadSettles source.object (some source.id)
  | _ => True

theorem replicate_stale {f : Fabric β} (source : PlacementRecord) (target : StorageBackendId)
    {opts : PublishOptions} (h : f.isStale opts.authority = true) :
    (f.replicate source target opts).1.toOption.isSome = false ∧
      (Unmutated f (f.replicate source target opts).2 ↔
        source.object ∉ f.catalog ∨ f.ReadSettles source.object (some source.id)) := by
  unfold replicate
  cases hentry : f.catalog.lookup source.object with
  | none => exact ⟨rfl, iff_of_true (.refl f) (.inl (AList.notMem_iff_lookup.mpr hentry))⟩
  | some entry =>
      have hmem : ¬source.object ∉ f.catalog :=
        not_not.mpr (AList.mem_iff_lookup.mpr ⟨entry, hentry⟩)
      rw [or_iff_right hmem]
      obtain ⟨a, hstate, hsettles⟩ := read_settles f source.object (some source.id)
      rcases hread : f.read source.object (some source.id) with ⟨r, g⟩
      rw [hread] at hstate
      dsimp only at hstate
      cases r with
      | error s =>
          refine ⟨rfl, ?_⟩
          dsimp only
          rw [hstate, unmutated_iff]
          exact hsettles a.staleRejections
      | ok data =>
          dsimp only
          -- the authority is passed on, so the publication is the one to reject it
          have hauthority : (replicateOptions source opts).authority = opts.authority := by
            unfold replicateOptions
            split <;> rfl
          have hstale : g.isStale (replicateOptions source opts).authority = true := by
            rw [hauthority, hstate]
            exact h
          obtain ⟨hfail, n, hout⟩ := publishCall_stale
            (c := ⟨entry.object, data, target, replicateOptions source opts⟩) hstale
          refine ⟨hfail, ?_⟩
          show Unmutated f (g.publishCall ⟨entry.object, data, target,
            replicateOptions source opts⟩).2 ↔ _
          rw [hout, hstate]
          exact unmutated_iff.trans (hsettles n)

theorem move_stale {f : Fabric β} (source : PlacementRecord) (target : StorageBackendId)
    {opts : PublishOptions} (h : f.isStale opts.authority = true) :
    f.move source target opts = f.replicate source target opts := by
  have hfail := (replicate_stale source target h).1
  unfold move
  rcases hreplicate : f.replicate source target opts with ⟨r, g⟩
  cases r with
  | error s => rfl
  | ok p =>
      rw [hreplicate] at hfail
      cases hfail

omit [StorageBackend β] in
theorem defineObject_fails (f : Fabric β) (kind : EnumValue ObjectKind) (size : UInt64)
    (content : Bytes) (writer : AuthorityEnvelope) (durability : DurabilityRequirement)
    (priority : EnumValue RestorePriority) :
    ((f.defineObject kind size content writer durability priority).1.toOption.isSome = false ∧
      Unmutated f (f.defineObject kind size content writer durability priority).2) ↔
      ¬f.Defines size content := by
  obtain ⟨hdefines, obj, -, heq⟩ | ⟨hnot, s, n, -, heq⟩ :=
    f.defineObject_cases kind size content writer durability priority
  · rw [heq]
    exact iff_of_false (fun h => nomatch h.1) (not_not.mpr hdefines)
  · rw [heq]
    exact iff_of_true ⟨rfl, ⟨rfl, rfl, rfl, rfl, rfl, rfl, rfl, rfl, rfl⟩⟩ hnot

theorem publish_stale {f : Fabric β} (score : PlanRequest → TierCandidate → ℚ)
    (obj : ObjectDescriptor) (content : Bytes) {opts : PublishOptions}
    (h : f.isStale opts.authority = true) :
    (f.publish score obj content opts).1.toOption.isSome = false ∧
      Unmutated f (f.publish score obj content opts).2 := by
  unfold publish
  cases f.makePlanRequest obj opts.requiredReplicas with
  | error s => exact ⟨rfl, .refl f⟩
  | ok req =>
      dsimp only
      split
      · rename_i best _ _
        have hcall : f.isStale (Call.opts ⟨obj, content, best.backend, opts⟩).authority = true := h
        obtain ⟨hfail, n, hout⟩ := publishCall_stale hcall
        refine ⟨hfail, ?_⟩
        show Unmutated f (f.publishCall ⟨obj, content, best.backend, opts⟩).2
        rw [hout]
        exact unmutated_iff.mpr rfl
      · exact ⟨rfl, .refl f⟩

end Backend

/-- A publication under an authority of the epoch before the live one. -/
def stalePublication : Op SyntheticBackend :=
  .publishTo Small.object [7] ⟨1⟩ { authority := { boot := ⟨1⟩ } }

end Fabric

end StorageFabric
