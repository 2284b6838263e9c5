import StorageFabric.Model.Authority
import StorageFabric.Runtime.Commits

/-!
What a publication needs to succeed, from any state.

Past its checks a publication can still fail at its end: the ledger may not commit
the reservation, or the catalog may not know the object. For a content that makes a
single chunk the chunk loop is one turn, and then all that a publication needs can
be said of the state before it.
-/

namespace StorageFabric

open StorageBackend

namespace ReservationLedger

/-- A reservation that was just made can be committed exactly if the reserved bytes
did not wrap around with it. -/
theorem commit_reserve_isOk_iff {l l' : ReservationLedger} {backend : StorageBackendId}
    {bytes : UInt64} {gen : ReservationGeneration} {owner : WorkerId} {reason : Bytes}
    {res : Reservation} (h : l.reserve backend bytes gen owner reason = (.ok res, l'))
    (placement : PlacementId) :
    (l'.commit res.id placement).1.isOk = true ↔
      ∃ cap, l.backends.lookup backend = some cap ∧ bytes ≤ cap.reservedBytes + bytes := by
  obtain ⟨c, hc, -, -, hres, rfl⟩ := reserve_eq_ok h
  have hactive : res.state = .active := by rw [hres]
  have hbytes : res.bytes = bytes := by rw [hres]
  have hbackend : res.backend = backend := by rw [hres]
  have hfound : (l.reserved res).reservations.lookup res.id = some res :=
    AList.lookup_insert l.reservations
  have hcap : (l.reserved res).backends.lookup res.backend = some (hold bytes c) := by
    show (l.backends.modify res.backend (hold res.bytes)).lookup res.backend = _
    rw [AList.lookup_modify_self, hbackend, hc, hbytes]
    rfl
  unfold commit
  simp only [hfound, hcap, hactive, hbytes, hc, ne_eq, not_true_eq_false, if_false,
    Option.some.injEq, exists_eq_left']
  by_cases hwraps : (hold bytes c).reservedBytes < bytes
  · rw [if_pos hwraps]
    exact iff_of_false nofun (UInt64.not_le.mpr hwraps)
  · rw [if_neg hwraps]
    exact iff_of_true rfl (UInt64.not_lt.mp hwraps)

end ReservationLedger

namespace AuthorityEnvelope

theorem not_isNil_of_newer {a b : AuthorityEnvelope} (h : a.isStrictlyNewerThan b = true) :
    a.isNil = false := by
  rw [isStrictlyNewerThan_iff, triple_lt_iff, incarnation_lt_iff] at h
  rw [Bool.eq_false_iff]
  intro hnil
  simp only [isNil, Bool.and_eq_true] at hnil
  obtain ⟨⟨⟨hepoch, hboot⟩, -⟩, hgen⟩ := hnil
  have hepoch0 : a.epoch.value = 0 := by simpa [Generation.isNil] using hepoch
  have hboot0 : a.boot.value = 0 := by simpa [StrongId.isNil] using hboot
  have hgen0 : a.generation.value = 0 := by simpa [Generation.isNil] using hgen
  rw [hepoch0, hboot0, hgen0] at h
  have hzero : (0 : UInt64).toNat = 0 := rfl
  omega

end AuthorityEnvelope

namespace Fabric

variable {β : Type}

section Backend

variable [StorageBackend β]

theorem PassesChecks.not_stops {f : Fabric β} {c : Call} {chunks : List ChunkDescriptor}
    {g : Fabric β} (h : f.PassesChecks c chunks g) {res : Reservation} {ledger : ReservationLedger}
    (hcommit : (ledger.commit res.id ⟨f.placementCounter⟩).1.isOk = true)
    (hknown : c.obj.id ∈ f.catalog) : ¬f.Stops res ledger c (.ok chunks) g := by
  rintro (⟨heager, s, hs⟩ | ⟨s, hs⟩ | hmanifest | hplace)
  · rw [h.verified heager] at hs
    cases hs
  · rw [h.valid] at hs
    cases hs
  · exact h.freshManifest hmanifest
  · obtain ⟨desc, t, hdesc, htier⟩ := h.registered
    obtain hnone | ⟨desc', hdesc', hnone⟩ | htaken | hfails | hunknown := hplace
    · exact absurd (hdesc.symm.trans hnone) nofun
    · obtain rfl := Option.some.inj (hdesc.symm.trans hdesc')
      exact absurd (htier.symm.trans hnone) nofun
    · exact h.freshPlacement htaken
    · exact absurd (hcommit.symm.trans hfails) nofun
    · exact hunknown hknown

/-- A publication succeeds exactly if it gets to the commit of its reservation, the
ledger commits it, and the catalog knows the object. -/
theorem publishCall_isSome_iff (f : Fabric β) (c : Call) :
    (f.publishCall c).1.toOption.isSome = true ↔
      f.Commits c ∧ c.obj.id ∈ f.catalog ∧
        ∃ cap, f.reservations.backends.lookup c.backend = some cap ∧
          c.obj.logicalSize ≤ cap.reservedBytes + c.obj.logicalSize := by
  by_cases hrefuses : f.Refuses c
  · obtain ⟨⟨s, hs, -⟩, -⟩ := publishCall_refused hrefuses
    rw [hs]
    exact ⟨fun h => by simp [Except.toOption] at h, fun h => absurd hrefuses h.1.1⟩
  · obtain ⟨res, hres, heq⟩ := publishCall_accepted hrefuses
    have hcommit := ReservationLedger.commit_reserve_isOk_iff
      (Prod.ext hres rfl : f.reserveFor c.obj c.backend c.opts =
        (.ok res, (f.reserveFor c.obj c.backend c.opts).2)) ⟨f.placementCounter⟩
    have hloop : chunkLoop c.backend c.opts.dedupe (chunkLength c.obj c.opts) c.content.length 0
        c.content (f.holding c).allocManifestId.2 =
          ((f.storeChunks c).1, (f.storeChunks c).2) := rfl
    rw [heq, ← hcommit]
    simp only
    obtain ⟨s, guard, g, hout, haborted⟩ | ⟨chunks, desc, t, g, hok, hout, hpublished⟩ :=
      publishReserved_cases (f.holding c) { res } c hloop
    · rw [hout]
      refine ⟨fun h => by simp [Except.toOption] at h, ?_⟩
      rintro ⟨⟨-, chunks, hok, hpass⟩, hknown, hcommitted⟩
      have hstops := haborted.stops
      rw [hok] at hstops
      have hheld : (f.holding c).PassesChecks c chunks (f.storeChunks c).2 :=
        ⟨hpass.1, hpass.2, hpass.3, hpass.4, hpass.5⟩
      exact absurd hstops (hheld.not_stops hcommitted hknown)
    · rw [hout]
      refine ⟨fun _ => ?_, fun _ => rfl⟩
      have hpasses : f.PassesChecks c chunks (f.storeChunks c).2 :=
        { verified := hpublished.verified
          valid := hpublished.valid
          freshManifest := hpublished.freshManifest
          registered := ⟨desc, t, hpublished.descriptor, hpublished.tier⟩
          freshPlacement := hpublished.freshPlacement }
      exact ⟨⟨hrefuses, chunks, hok, hpasses⟩, hpublished.known, hpublished.committed⟩

/-! ### A content in one chunk -/

theorem chunkLoop_whole {backend : StorageBackendId} {dedupe : Bool} {chunk : Nat}
    {content : Bytes} (hne : content ≠ []) (hchunk : content.length ≤ chunk) (f : Fabric β) :
    chunkLoop backend dedupe chunk content.length 0 content f =
      ((chunkStep backend dedupe 0 content f).1.map fun c => [c],
        (chunkStep backend dedupe 0 content f).2) := by
  obtain ⟨turns, hturns⟩ := Nat.exists_eq_succ_of_ne_zero
    (fun hzero => hne (List.eq_nil_of_length_eq_zero hzero))
  have htake : content.take chunk = content := List.take_of_length_le hchunk
  have hdrop : content.drop chunk = [] := List.drop_eq_nil_of_le hchunk
  rcases hturn : chunkStep backend dedupe 0 content f with ⟨r, g⟩
  rw [← htake] at hturn
  rw [hturns]
  cases r with
  | error s =>
      rw [chunkLoop_error hne hturn]
      rfl
  | ok c =>
      rw [chunkLoop_ok hne hturn, hdrop, chunkLoop_nil]
      rfl

/-- The backend reads the key, and what it reads has the digest. -/
def ReadsBack (be : β) (key : Bytes) (digest : ContentDigest) : Prop :=
  ∃ data, StorageBackend.read be key = .ok data ∧ ContentDigest.of data = digest

/-- The blob that a chunk with these contents refers to. -/
def blobOf (f : Fabric β) (content : Bytes) : BlobId :=
  (f.blobByDigest.lookup (ContentDigest.of content)).getD ⟨f.blobCounter⟩

/-- The backend keeps the content and gives it back: as the blob that the index has
for its digest, or else as a new one. -/
def KeepsContent (f : Fabric β) (be : β) (content : Bytes) : Prop :=
  match f.blobByDigest.lookup (ContentDigest.of content) with
  | some blob => ReadsBack be (blobKey blob) (ContentDigest.of content)
  | none =>
      (put be content (blobKey ⟨f.blobCounter⟩)).1.toOption.isSome = true ∧
        ReadsBack (put be content (blobKey ⟨f.blobCounter⟩)).2 (blobKey ⟨f.blobCounter⟩)
          (ContentDigest.of content)

theorem verifyChunks_singleton {f : Fabric β} {backend : StorageBackendId} {be : β}
    (hbe : f.backends.lookup backend = some be) (c : ChunkDescriptor) :
    f.verifyChunks backend [c] = .ok () ↔ ReadsBack be (blobKey c.blob) c.digest := by
  unfold ReadsBack
  simp only [verifyChunks, getBackend, hbe]
  cases hread : StorageBackend.read be (blobKey c.blob) with
  | error s => simp [Result.fail]
  | ok data => by_cases hdigest : ContentDigest.of data = c.digest <;> simp [hdigest, Result.fail]

theorem chunkStep_verified_iff {f : Fabric β} {backend : StorageBackendId} {be : β}
    (hbe : f.backends.lookup backend = some be) (content : Bytes) (chunk : ChunkDescriptor) :
    ((chunkStep backend true 0 content f).1 = .ok chunk ∧
      (chunkStep backend true 0 content f).2.verifyChunks backend [chunk] = .ok ()) ↔
    chunk = chunkAt 0 content (f.blobOf content) ∧ f.KeepsContent be content := by
  unfold KeepsContent blobOf
  cases hindex : f.blobByDigest.lookup (ContentDigest.of content) with
  | some blob =>
      -- an offered blob is read as it lies, nothing is put
      have hreuse : (f.reuseBlob blob content).backends.lookup backend = some be := hbe
      rw [chunkStep_reuse hindex, Except.ok.injEq, verifyChunks_singleton hreuse,
        Option.getD_some, eq_comm]
      exact and_congr_right fun hchunk => by rw [hchunk]; rfl
  | none =>
      have hput : f.allocBlobId.2.putOn backend content (blobKey ⟨f.blobCounter⟩) =
          ((put be content (blobKey ⟨f.blobCounter⟩)).1,
            f.allocBlobId.2.setBackend backend (put be content (blobKey ⟨f.blobCounter⟩)).2) := by
        rw [putOn, show f.allocBlobId.2.backends.lookup backend = some be from hbe]
      rw [Option.getD_none]
      simp only
      obtain ⟨blob, -, hblob, -⟩ | ⟨s, hs, heq⟩ | ⟨n, hn, heq⟩ :=
        chunkStep_cases backend true 0 content f
      · exact absurd (hindex.symm.trans hblob) nofun
      · rw [hput] at hs
        rw [heq, show (put be content (blobKey ⟨f.blobCounter⟩)).1 = .error s from hs]
        exact ⟨fun h => absurd h.1 nofun, fun h => by simp [Except.toOption] at h⟩
      · rw [hput] at hn heq
        have hstored : ((f.allocBlobId.2.setBackend backend
            (put be content (blobKey ⟨f.blobCounter⟩)).2).recordBlob ⟨f.blobCounter⟩
              content).backends.lookup backend =
                some (put be content (blobKey ⟨f.blobCounter⟩)).2 := by
          change (f.backends.modify backend _).lookup backend = _
          rw [AList.lookup_modify_self, hbe]
          rfl
        rw [heq, show (put be content (blobKey ⟨f.blobCounter⟩)).1 = .ok n from hn,
          Except.ok.injEq, verifyChunks_singleton hstored, eq_comm]
        refine and_congr_right fun hchunk => ?_
        rw [hchunk]
        exact ⟨fun h => ⟨rfl, h⟩, fun h => h.2⟩

/-- What a publication of a content in one chunk, verified and looked up in the index,
needs of the state before it. -/
structure Accommodates (f : Fabric β) (c : Call) : Prop where
  room : ¬f.reservations.Refuses c.backend c.obj.logicalSize
  unwrapped : ∃ cap, f.reservations.backends.lookup c.backend = some cap ∧
    c.obj.logicalSize ≤ cap.reservedBytes + c.obj.logicalSize
  keeps : ∃ be, f.backends.lookup c.backend = some be ∧ f.KeepsContent be c.content
  valid : (f.manifestOf c [chunkAt 0 c.content (f.blobOf c.content)]).validate = .ok ()
  freshManifest : ⟨f.manifestCounter⟩ ∉ f.manifests
  registered : ∃ desc t, f.backendDescriptors.lookup c.backend = some desc ∧
    f.tiers.lookup desc.tier = some t
  freshPlacement : ⟨f.placementCounter⟩ ∉ f.placements

/-- A call that publishes its content as one chunk, with dedup and eager verification. -/
structure Whole (c : Call) : Prop where
  size : c.content.length = c.obj.logicalSize.toNat
  positive : c.obj.logicalSize ≠ 0
  chunk : c.opts.chunkSize = 0
  dedupe : c.opts.dedupe = true
  eager : c.opts.eagerVerify = true

theorem publishCall_whole_iff {f : Fabric β} {c : Call} (hwhole : Whole c)
    (hauth : (f.publishAuthority c.opts).isNil = false) (hfence : f.isFenced c.opts = false)
    (hknown : c.obj.id ∈ f.catalog) :
    (f.publishCall c).1.toOption.isSome = true ↔ f.Accommodates c := by
  have hne : c.content ≠ [] := by
    intro hnil
    have hzero : c.obj.logicalSize.toNat = 0 := by rw [← hwhole.size, hnil]; rfl
    exact hwhole.positive (UInt64.toNat_inj.mp hzero)
  have hlength : c.content.length ≤ chunkLength c.obj c.opts := by
    rw [chunkLength, if_pos hwhole.chunk, hwhole.size]
  have hloop : f.storeChunks c =
      ((chunkStep c.backend true 0 c.content (f.holding c).allocManifestId.2).1.map fun d => [d],
        (chunkStep c.backend true 0 c.content (f.holding c).allocManifestId.2).2) := by
    rw [storeChunks, hwhole.dedupe, chunkLoop_whole hne hlength]
  have hrefuses : f.Refuses c ↔ c.backend ∉ f.backends ∨
      f.reservations.Refuses c.backend c.obj.logicalSize := by
    simp [Refuses, hwhole.size, hauth, hfence]
  -- what one turn of the loop and its verification come to, in the state before
  have hturn : ∀ be, f.backends.lookup c.backend = some be → ∀ chunk,
      ((chunkStep c.backend true 0 c.content (f.holding c).allocManifestId.2).1 = .ok chunk ∧
        (chunkStep c.backend true 0 c.content
          (f.holding c).allocManifestId.2).2.verifyChunks c.backend [chunk] = .ok ()) ↔
      chunk = chunkAt 0 c.content (f.blobOf c.content) ∧ f.KeepsContent be c.content :=
    fun be hbe chunk => chunkStep_verified_iff
      (f := (f.holding c).allocManifestId.2) hbe c.content chunk
  rw [publishCall_isSome_iff]
  constructor
  · rintro ⟨⟨haccepted, chunks, hok, hpass⟩, -, hunwrapped⟩
    rw [hrefuses, not_or, not_not] at haccepted
    obtain ⟨be, hbe⟩ := AList.mem_iff_lookup.mp haccepted.1
    have hverified := hpass.verified hwhole.eager
    rw [hloop] at hok hverified
    obtain ⟨chunk, hchunk, rfl⟩ : ∃ chunk, (chunkStep c.backend true 0 c.content
        (f.holding c).allocManifestId.2).1 = .ok chunk ∧ chunks = [chunk] := by
      cases hstep : (chunkStep c.backend true 0 c.content (f.holding c).allocManifestId.2).1 with
      | error s => rw [hstep] at hok; cases hok
      | ok chunk => rw [hstep] at hok; exact ⟨chunk, rfl, (Except.ok.inj hok).symm⟩
    obtain ⟨rfl, hkeeps⟩ := (hturn be hbe chunk).mp ⟨hchunk, hverified⟩
    exact ⟨haccepted.2, hunwrapped, ⟨be, hbe, hkeeps⟩, hpass.valid, hpass.freshManifest,
      hpass.registered, hpass.freshPlacement⟩
  · rintro ⟨hroom, hunwrapped, ⟨be, hbe, hkeeps⟩, hvalid, hmanifest, hregistered, hplacement⟩
    obtain ⟨hchunk, hverified⟩ := (hturn be hbe _).mpr ⟨rfl, hkeeps⟩
    have haccepted : ¬f.Refuses c := by
      rw [hrefuses, not_or, not_not]
      exact ⟨AList.mem_iff_lookup.mpr ⟨be, hbe⟩, hroom⟩
    refine ⟨⟨haccepted, [chunkAt 0 c.content (f.blobOf c.content)], ?_, fun _ => ?_, hvalid,
      hmanifest, hregistered, hplacement⟩, hknown, hunwrapped⟩
    · rw [hloop, hchunk]
      rfl
    · rw [hloop]
      exact hverified

end Backend

end Fabric

end StorageFabric
