import StorageFabric.Core.Occupancy
import StorageFabric.Runtime.Outcome

/-!
How far a publication gets, and what becomes of its reservation.

The commit of the reservation is not the last thing that can fail: the object is
looked up in the catalog only after it. `Commits` says that a publication gets to
the commit, and `publishCall_settles` what follows from that for the ledger.
-/

namespace StorageFabric

open StorageBackend

namespace Fabric

variable {β : Type}

/-- The state of a publication that has got its reservation. -/
def holding (f : Fabric β) (c : Call) : Fabric β :=
  ({ f with reservations := (f.reserveFor c.obj c.backend c.opts).2 } : Fabric β).account fun a =>
    { a with reservedBytes := a.reservedBytes + 1 }

def storeChunks [StorageBackend β] (f : Fabric β) (c : Call) :
    Result (List ChunkDescriptor) × Fabric β :=
  chunkLoop c.backend c.opts.dedupe (chunkLength c.obj c.opts) c.content.length 0 c.content
    (f.holding c).allocManifestId.2

/-- What a publication checks between its chunk loop, which left `chunks` in `g`,
and the commit of its reservation. -/
structure PassesChecks [StorageBackend β] (f : Fabric β) (c : Call) (chunks : List ChunkDescriptor)
    (g : Fabric β) : Prop where
  verified : c.opts.eagerVerify = true → g.verifyChunks c.backend chunks = .ok ()
  valid : (f.manifestOf c chunks).validate = .ok ()
  freshManifest : ⟨f.manifestCounter⟩ ∉ f.manifests
  registered : ∃ desc t, f.backendDescriptors.lookup c.backend = some desc ∧
    f.tiers.lookup desc.tier = some t
  freshPlacement : ⟨f.placementCounter⟩ ∉ f.placements

/-- A publication gets to the commit of its reservation. -/
def Commits [StorageBackend β] (f : Fabric β) (c : Call) : Prop :=
  ¬f.Refuses c ∧ ∃ chunks, (f.storeChunks c).1 = .ok chunks ∧
    f.PassesChecks c chunks (f.storeChunks c).2

/-- How a part of a publication leaves the guard and the ledger, according to
whether it reaches the commit: if it does, it succeeds exactly if it knows the
object. -/
def Settles (reached known : Prop) (guard : ReservationGuard) (l : ReservationLedger)
    (placement : PlacementId) (out : Result PlacementRecord × ReservationGuard × Fabric β) : Prop :=
  (reached ∧ out.2.1 = { guard with armed := false } ∧
    out.2.2.reservations = (l.commit guard.res.id placement).2 ∧
    (out.1.toOption.isSome = true ↔ known)) ∨
  (¬reached ∧ out.2.1 = guard ∧ out.2.2.reservations = l ∧ out.1.toOption.isSome = false)

/-- The last part reaches the commit unless it lacks a descriptor or a tier, or the
id of the placement is taken. -/
theorem commitPlacement_settles (f : Fabric β) (guard : ReservationGuard) (obj : ObjectDescriptor)
    (backend : StorageBackendId) (auth : AuthorityEnvelope) (opts : PublishOptions)
    (man : Manifest)
    (hcommit : (f.reservations.commit guard.res.id ⟨f.placementCounter⟩).1.isOk = true) :
    Settles ((∃ desc t, f.backendDescriptors.lookup backend = some desc ∧
        f.tiers.lookup desc.tier = some t) ∧ ⟨f.placementCounter⟩ ∉ f.placements)
      (obj.id ∈ f.catalog) guard f.reservations ⟨f.placementCounter⟩
      (f.commitPlacement guard obj backend auth opts man) := by
  unfold commitPlacement
  simp only [allocPlacementId, allocReplicaId]
  cases hdesc : f.backendDescriptors.lookup backend with
  | none => exact .inr ⟨fun h => by simp at h, rfl, rfl, rfl⟩
  | some desc =>
      dsimp only
      cases htier : f.tiers.lookup desc.tier with
      | none =>
          refine .inr ⟨?_, rfl, rfl, rfl⟩
          rintro ⟨⟨desc', t, hdesc', htier'⟩, -⟩
          obtain rfl := Option.some.inj hdesc'
          rw [htier] at htier'
          cases htier'
      | some t =>
          dsimp only
          by_cases hid : (⟨f.placementCounter⟩ : PlacementId) ∈ f.placements
          · simp only [hid, if_true]
            exact .inr ⟨fun h => h.2 trivial, rfl, rfl, rfl⟩
          · have hst : (guard.commit f.reservations ⟨f.placementCounter⟩).1.isOk = true := hcommit
            have hguard : (guard.commit f.reservations ⟨f.placementCounter⟩).2.1 =
                { guard with armed := false } := if_pos hst
            simp only [hid, if_false, hst, account, hguard]
            refine .inl ⟨⟨⟨desc, t, rfl, htier⟩, not_false⟩, ?_⟩
            cases hentry : f.catalog.lookup obj.id with
            | none =>
                have hmem : obj.id ∉ f.catalog := AList.notMem_iff_lookup.mpr hentry
                exact ⟨rfl, rfl, by simp [hmem, Result.fail, Except.toOption]⟩
            | some entry =>
                have hmem : obj.id ∈ f.catalog := AList.mem_iff_lookup.mpr ⟨entry, hentry⟩
                exact ⟨rfl, rfl, by simp [hmem, Except.toOption]⟩

/-- The codes with which a publication is turned down before it has a reservation. -/
def refusals : List StatusCode :=
  [.lengthMismatch, .invalidArgument, .staleAuthority, .notFound, .insufficientCapacity,
    .duplicateReservation]

section Backend

variable [StorageBackend β]

theorem publishReserved_settles (f : Fabric β) (guard : ReservationGuard) (c : Call)
    {rc : Result (List ChunkDescriptor)} {g : Fabric β}
    (hloop : chunkLoop c.backend c.opts.dedupe (chunkLength c.obj c.opts) c.content.length 0
      c.content f.allocManifestId.2 = (rc, g))
    (hcommit : (f.reservations.commit guard.res.id ⟨f.placementCounter⟩).1.isOk = true) :
    Settles (∃ chunks, rc = .ok chunks ∧ f.PassesChecks c chunks g) (c.obj.id ∈ f.catalog) guard
      f.reservations ⟨f.placementCounter⟩
      (f.publishReserved guard c.obj c.content c.backend (f.publishAuthority c.opts) c.opts) := by
  -- the chunk loop leaves the catalog, the manifests and the ledger alone
  have hcat : g.catalogView = f.catalogView := by
    have := catalogView_chunkLoop c.backend c.opts.dedupe (chunkLength c.obj c.opts)
      c.content.length 0 c.content f.allocManifestId.2
    rwa [hloop] at this
  have hman : g.manifestView = ⟨f.manifests, f.manifestCounter + 1⟩ := by
    have := manifestView_chunkLoop c.backend c.opts.dedupe (chunkLength c.obj c.opts)
      c.content.length 0 c.content f.allocManifestId.2
    rwa [hloop] at this
  have hledger : g.reservations = f.reservations := by
    have := book_chunkLoop c.backend c.opts.dedupe (chunkLength c.obj c.opts)
      c.content.length 0 c.content f.allocManifestId.2
    rw [hloop] at this
    exact congrArg Book.reservations this
  have hmanifests : g.manifests = f.manifests := congrArg ManifestView.manifests hman
  have hid : f.allocManifestId.1 = ⟨f.manifestCounter⟩ := rfl
  unfold publishReserved
  simp only [hloop]
  cases rc with
  | error s => exact .inr ⟨nofun, rfl, hledger, rfl⟩
  | ok chunks =>
      have hreached : (∃ chunks', (Except.ok chunks : Result (List ChunkDescriptor)) = .ok chunks' ∧
          f.PassesChecks c chunks' g) ↔ f.PassesChecks c chunks g :=
        ⟨fun ⟨_, h, hpass⟩ => Except.ok.inj h ▸ hpass, fun hpass => ⟨chunks, rfl, hpass⟩⟩
      rw [hreached]
      simp only
      -- a check that fails returns with the guard still armed
      cases hverify : (if c.opts.eagerVerify then g.verifyChunks c.backend chunks else .ok ()) with
      | error s =>
          refine .inr ⟨fun hpass => ?_, rfl, hledger, rfl⟩
          cases heager : c.opts.eagerVerify with
          | false => simp [heager] at hverify
          | true => simp [heager, hpass.verified heager] at hverify
      | ok u =>
          simp only [hid]
          cases hvalid : (buildManifest ⟨f.manifestCounter⟩ c.obj chunks).validate with
          | error s =>
              refine .inr ⟨fun hpass => ?_, rfl, hledger, rfl⟩
              have hok := hpass.valid
              rw [manifestOf, hvalid] at hok
              cases hok
          | ok v =>
              have hmanId : (buildManifest ⟨f.manifestCounter⟩ c.obj chunks).id =
                ⟨f.manifestCounter⟩ := rfl
              simp only [hmanId]
              by_cases hfresh : (⟨f.manifestCounter⟩ : ManifestId) ∈ g.manifests
              · simp only [hfresh, if_true]
                exact .inr ⟨fun hpass => hpass.freshManifest (hmanifests ▸ hfresh), rfl, hledger, rfl⟩
              · simp only [hfresh, if_false]
                have hk : (g.addManifest (f.manifestOf c chunks)).catalogView = f.catalogView :=
                  hcat
                have hkl : (g.addManifest (f.manifestOf c chunks)).reservations = f.reservations :=
                  hledger
                obtain ⟨htiers, hdescs, hcatalog, hplacements, -, -, -, -, hp⟩ :=
                  CatalogView.mk.inj hk
                have hsettles := commitPlacement_settles (g.addManifest (f.manifestOf c chunks))
                  guard c.obj c.backend (f.publishAuthority c.opts) c.opts (f.manifestOf c chunks)
                rw [htiers, hdescs, hcatalog, hplacements, hp, hkl] at hsettles
                have hpasses : f.PassesChecks c chunks g ↔
                    (∃ desc t, f.backendDescriptors.lookup c.backend = some desc ∧
                      f.tiers.lookup desc.tier = some t) ∧ ⟨f.placementCounter⟩ ∉ f.placements :=
                  ⟨fun hpass => ⟨hpass.registered, hpass.freshPlacement⟩, fun h =>
                    { verified := fun heager => by simpa [heager] using hverify
                      valid := hvalid
                      freshManifest := hmanifests ▸ hfresh
                      registered := h.1
                      freshPlacement := h.2 }⟩
                rw [hpasses]
                exact hsettles hcommit

omit [StorageBackend β] in
theorem reserve_error_code {f : Fabric β} {c : Call} {s : Status} {l : ReservationLedger}
    (h : f.reserveFor c.obj c.backend c.opts = (.error s, l)) : s.code ∈ refusals := by
  unfold reserveFor ReservationLedger.reserve at h
  dsimp only at h
  split at h
  · cases h
    exact List.mem_of_elem_eq_true rfl
  · split at h
    · cases h
      exact List.mem_of_elem_eq_true rfl
    · split at h
      · cases h
        exact List.mem_of_elem_eq_true rfl
      · split at h
        · cases h
          exact List.mem_of_elem_eq_true rfl
        · cases h

/-- A publication that is refused says why, and leaves the ledger to `reserve` at
most. -/
theorem publishCall_refused {f : Fabric β} {c : Call} (h : f.Refuses c) :
    (∃ s, (f.publishCall c).1 = .error s ∧ s.code ∈ refusals) ∧
      ((f.publishCall c).2.reservations = f.reservations ∨
        ∃ s, f.reserveFor c.obj c.backend c.opts = (.error s, (f.publishCall c).2.reservations)) := by
  unfold publishCall publishTo
  by_cases hsize : c.content.length ≠ c.obj.logicalSize.toNat
  · simp only [if_pos hsize]
    exact ⟨⟨_, rfl, List.mem_of_elem_eq_true rfl⟩, .inl trivial⟩
  by_cases hauth : (f.publishAuthority c.opts).isNil = true
  · simp only [if_neg hsize, hauth, if_true]
    exact ⟨⟨_, rfl, List.mem_of_elem_eq_true rfl⟩, .inl trivial⟩
  by_cases hfence : f.isFenced c.opts = true
  · simp only [if_neg hsize, if_neg hauth, if_pos hfence]
    exact ⟨⟨_, rfl, List.mem_of_elem_eq_true rfl⟩, .inl rfl⟩
  simp only [if_neg hsize, if_neg hauth, if_neg hfence, getBackend]
  cases hbackend : f.backends.lookup c.backend with
  | none => exact ⟨⟨_, rfl, List.mem_of_elem_eq_true rfl⟩, .inl rfl⟩
  | some be =>
      rcases hreserve : f.reserveFor c.obj c.backend c.opts with ⟨r, ledger⟩
      cases r with
      | error s => exact ⟨⟨s, rfl, reserve_error_code hreserve⟩, .inr ⟨s, rfl⟩⟩
      | ok res =>
          obtain hlength | hnil | hfenced | hunknown | hledger := h
          · exact absurd hlength hsize
          · exact absurd hnil hauth
          · exact absurd hfenced hfence
          · exact absurd (AList.mem_iff_lookup.mpr ⟨be, hbackend⟩) hunknown
          · obtain ⟨s, hs⟩ := reserveFor_error_iff.mpr hledger
            rw [hreserve] at hs
            cases hs

theorem publishCall_accepted {f : Fabric β} {c : Call} (h : ¬f.Refuses c) :
    ∃ res, (f.reserveFor c.obj c.backend c.opts).1 = .ok res ∧
      f.publishCall c =
        let out := (f.holding c).publishReserved { res } c.obj c.content c.backend
          ((f.holding c).publishAuthority c.opts) c.opts
        (out.1, { out.2.2 with reservations := out.2.1.destroy out.2.2.reservations }) := by
  simp only [Refuses, not_or, Bool.not_eq_true, Decidable.not_not] at h
  obtain ⟨hsize, hauth, hfence, hbackend, hledger⟩ := h
  obtain ⟨be, hbe⟩ := AList.mem_iff_lookup.mp hbackend
  rcases hreserve : f.reserveFor c.obj c.backend c.opts with ⟨r, ledger⟩
  cases r with
  | error s => exact absurd (reserveFor_error_iff.mp ⟨s, congrArg Prod.fst hreserve⟩) hledger
  | ok res =>
      refine ⟨res, rfl, ?_⟩
      have hheld : f.holding c = ({ f with reservations := ledger } : Fabric β).account fun a =>
          { a with reservedBytes := a.reservedBytes + 1 } := by rw [holding, hreserve]
      rw [hheld]
      simp only [publishCall, publishTo, hsize, hauth, hfence, getBackend, hbe, hreserve, ne_eq,
        not_true_eq_false, if_false, Bool.false_eq_true]
      rfl

theorem started_holding {f : Fabric β} {c : Call} (h : ¬f.Refuses c) :
    ∃ res, Started f c res (f.reserveFor c.obj c.backend c.opts).2 (f.holding c).allocManifestId.2
      (f.storeChunks c).1 (f.storeChunks c).2 := by
  obtain ⟨res, hres, -⟩ := publishCall_accepted h
  exact ⟨res,
    { accepted := h
      reserve := Prod.ext hres rfl
      catalog := rfl
      manifests := rfl
      blobs := rfl
      accounting := rfl
      loop := rfl }⟩

theorem publishCall_ends {f : Fabric β} (h : f.reservations.Quiet) {c : Call}
    (haccepted : ¬f.Refuses c) :
    ∃ res cap, f.reservations.Admitted c.backend c.obj.logicalSize res cap ∧
      let out := (f.holding c).publishReserved { res } c.obj c.content c.backend
        ((f.holding c).publishAuthority c.opts) c.opts
      (f.publishCall c).1 = out.1 ∧ (f.publishCall c).2.accounting = out.2.2.accounting ∧
      ((f.Commits c ∧ out.2.1 = { res, armed := false } ∧
          (f.publishCall c).2.reservations =
            (f.reservations.reserved res).settled res.id res ⟨f.placementCounter⟩ ∧
          (out.1.toOption.isSome = true ↔ c.obj.id ∈ f.catalog)) ∨
        (¬f.Commits c ∧ out.2.1 = { res } ∧
          (f.publishCall c).2.reservations = (f.reservations.reserved res).released res.id res ∧
          out.1.toOption.isSome = false)) := by
  obtain ⟨res, hres, heq⟩ := publishCall_accepted haccepted
  obtain ⟨cap, hadmitted, hledger⟩ := h.reserve (Prod.ext hres rfl :
    f.reserveFor c.obj c.backend c.opts = (.ok res, (f.reserveFor c.obj c.backend c.opts).2))
  have hreached : f.Commits c ↔ ∃ chunks, (f.storeChunks c).1 = .ok chunks ∧
      (f.holding c).PassesChecks c chunks (f.storeChunks c).2 :=
    ⟨fun ⟨_, chunks, hok, hpass⟩ => ⟨chunks, hok, ⟨hpass.1, hpass.2, hpass.3, hpass.4, hpass.5⟩⟩,
      fun ⟨chunks, hok, hpass⟩ =>
        ⟨haccepted, chunks, hok, ⟨hpass.1, hpass.2, hpass.3, hpass.4, hpass.5⟩⟩⟩
  have hcommit := h.commit hadmitted ⟨f.placementCounter⟩
  have hrelease := h.release hadmitted
  have hheld : (f.holding c).reservations = f.reservations.reserved res := hledger
  have hok : ((f.holding c).reservations.commit res.id ⟨f.placementCounter⟩).1.isOk = true := by
    rw [hheld]
    exact congrArg (Status.isOk ∘ Prod.fst) hcommit
  have hloop : chunkLoop c.backend c.opts.dedupe (chunkLength c.obj c.opts) c.content.length 0
      c.content (f.holding c).allocManifestId.2 = ((f.storeChunks c).1, (f.storeChunks c).2) := rfl
  have hsettles := publishReserved_settles (f.holding c) { res } c hloop hok
  refine ⟨res, cap, hadmitted, congrArg Prod.fst heq, congrArg (accounting ∘ Prod.snd) heq, ?_⟩
  rw [heq]
  simp only
  generalize (f.holding c).publishReserved { res } c.obj c.content c.backend
    ((f.holding c).publishAuthority c.opts) c.opts = out at hsettles ⊢
  obtain ⟨hpass, hguard, hout, hknown⟩ | ⟨hpass, hguard, hout, hfail⟩ := hsettles
  · refine .inl ⟨hreached.mpr hpass, hguard, ?_, hknown⟩
    -- the guard is disarmed, and what it was to release stays committed
    rw [hguard, hout, hheld]
    exact congrArg Prod.snd hcommit
  · refine .inr ⟨fun hcommits => hpass (hreached.mp hcommits), hguard, ?_, hfail⟩
    rw [hguard, hout, hheld]
    have harmed : (decide (res.state = .active)) = true := decide_eq_true hadmitted.active
    simp only [ReservationGuard.destroy, harmed, Bool.true_and, if_true]
    exact congrArg Prod.snd hrelease

theorem reservations_of_refuses {f : Fabric β} (h : f.reservations.Quiet) {c : Call}
    (hrefuses : f.Refuses c) : (f.publishCall c).2.reservations = f.reservations := by
  obtain ⟨-, hsame | ⟨s, hs⟩⟩ := publishCall_refused hrefuses
  · exact hsame
  · exact h.reserve_error hs

/-- What a publication does to a quiet ledger. If it gets to the commit, the backend
has the size of the object more committed; if not, no capacity changes. -/
theorem publishCall_settles {f : Fabric β} (h : f.reservations.Quiet) (c : Call) :
    (f.publishCall c).2.reservations.Quiet ∧
    ((f.Commits c ∧ ∃ cap, f.reservations.backends.lookup c.backend = some cap ∧
        c.obj.logicalSize ≠ 0 ∧
        cap.committedBytes.toNat + c.obj.logicalSize.toNat ≤ cap.freeBytes.toNat ∧
        (∀ b, (f.publishCall c).2.reservations.backends.lookup b =
          if b = c.backend then
            some { cap with committedBytes := cap.committedBytes + c.obj.logicalSize }
          else f.reservations.backends.lookup b) ∧
        ((f.publishCall c).1.toOption.isSome = true ↔ c.obj.id ∈ f.catalog)) ∨
      (¬f.Commits c ∧ (f.publishCall c).1.toOption.isSome = false ∧
        ∀ b, (f.publishCall c).2.reservations.backends.lookup b =
          f.reservations.backends.lookup b)) := by
  by_cases hrefuses : f.Refuses c
  · obtain ⟨⟨s, hs, -⟩, -⟩ := publishCall_refused hrefuses
    have hfail : (f.publishCall c).1.toOption.isSome = false := by
      rw [hs]
      rfl
    rw [reservations_of_refuses h hrefuses]
    exact ⟨h, .inr ⟨fun hcommits => hcommits.1 hrefuses, hfail, fun _ => rfl⟩⟩
  · obtain ⟨res, cap, hadmitted, hresult, -, hends⟩ := publishCall_ends h hrefuses
    rw [hresult]
    obtain ⟨hcommits, -, hledger, hknown⟩ | ⟨hcommits, -, hledger, hfail⟩ := hends
    · rw [hledger]
      exact ⟨h.settled hadmitted _, .inl ⟨hcommits, cap, hadmitted.found, hadmitted.positive,
        hadmitted.room, hadmitted.lookup_settled _, hknown⟩⟩
    · rw [hledger]
      exact ⟨h.released hadmitted, .inr ⟨hcommits, hfail, hadmitted.lookup_released⟩⟩

theorem commits_of_isSome {f : Fabric β} (h : f.reservations.Quiet) {c : Call}
    (hok : (f.publishCall c).1.toOption.isSome = true) : f.Commits c := by
  obtain ⟨-, ⟨hcommits, -⟩ | ⟨-, hfail, -⟩⟩ := publishCall_settles h c
  · exact hcommits
  · rw [hfail] at hok
    cases hok

end Backend

end Fabric

end StorageFabric
