import StorageFabric.Runtime.Counters
import StorageFabric.Runtime.Host
import StorageFabric.Runtime.Numbering
import StorageFabric.Runtime.Restore
import StorageFabric.Storage.Local

/-!
The books of the runtime: the ledger, and the capacities that the planner goes by.

The ledger changes with every publication and eviction, the probed capacities only
when a backend is registered. Between two calls nothing is reserved, whatever the
operations were; but the bytes that the ledger has committed never reach the
planner, and a publication that fails behind its commit leaves them committed.
-/

namespace StorageFabric

namespace Op

variable {β : Type}

/-- The capacity with which an operation registers its backend. -/
def capacity : Op β → Option BackendCapacity
  | .registerLocalBackend _ _ _ probe =>
      some (match probe with
        | .ok cap => cap
        | .error _ => { unknown := true })
  | .registerSyntheticBackend _ profile _ =>
      some { totalBytes := profile.totalBytes, freeBytes := profile.freeBytes }
  | _ => none

/-- A local backend is registered with what its `query_capacity` answers. -/
def Probed : Op β → Prop
  | .registerLocalBackend _ _ _ probe => ∃ space, probe = LocalBackend.queryCapacity space
  | _ => True

theorem Probed.reservedBytes {op : Op β} (h : op.Probed) {cap : BackendCapacity}
    (hcap : op.capacity = some cap) : cap.reservedBytes = 0 := by
  cases op with
  | registerLocalBackend name storageClass be probe =>
      obtain ⟨space, rfl⟩ := h
      cases space <;> cases hcap <;> rfl
  | registerSyntheticBackend name profile be =>
      cases hcap
      rfl
  | _ => cases hcap

end Op

namespace Fabric

variable {β : Type}

/-- The ledger and the probed capacities. -/
structure Books where
  reservations : ReservationLedger
  capacityProbe : Table StorageBackendId BackendCapacity

def books (f : Fabric β) : Books := ⟨f.reservations, f.capacityProbe⟩

/-! ### What each operation does to the books -/

theorem capacityProbe_commitPlacement (f : Fabric β) (guard : ReservationGuard)
    (obj : ObjectDescriptor) (backend : StorageBackendId) (auth : AuthorityEnvelope)
    (opts : PublishOptions) (man : Manifest) :
    (f.commitPlacement guard obj backend auth opts man).2.2.capacityProbe = f.capacityProbe := by
  unfold commitPlacement
  simp only [allocPlacementId, allocReplicaId]
  cases f.backendDescriptors.lookup backend with
  | none => rfl
  | some desc =>
      dsimp only
      cases f.tiers.lookup desc.tier with
      | none => rfl
      | some t =>
          dsimp only
          by_cases hid : (⟨f.placementCounter⟩ : PlacementId) ∈ f.placements
          · simp only [hid, if_true]
          · simp only [hid, if_false]
            by_cases hst : (guard.commit f.reservations ⟨f.placementCounter⟩).1.isOk = true
            · simp only [hst, account]
              cases f.catalog.lookup obj.id <;> rfl
            · simp only [hst]
              rfl

theorem Idle.books {f g : Fabric β} (h : Idle f g) : g.books = f.books := by
  rw [h.rest]
  rfl

theorem books_defineObject (f : Fabric β) (kind : EnumValue ObjectKind) (size : UInt64)
    (content : Bytes) (writer : AuthorityEnvelope) (durability : DurabilityRequirement)
    (priority : EnumValue RestorePriority) :
    (f.defineObject kind size content writer durability priority).2.books = f.books := by
  obtain ⟨-, obj, -, heq⟩ | ⟨-, s, n, -, heq⟩ :=
    f.defineObject_cases kind size content writer durability priority <;>
  · rw [heq]
    rfl

section Backend

variable [StorageBackend β]

theorem capacityProbe_chunkLoop (backend : StorageBackendId) (dedupe : Bool)
    (chunk turns offset : Nat) (rest : Bytes) (f : Fabric β) :
    (chunkLoop backend dedupe chunk turns offset rest f).2.capacityProbe = f.capacityProbe := by
  have hput : ∀ (g : Fabric β) id data key,
      (g.putOn id data key).2.capacityProbe = g.capacityProbe := by
    intro g id data key
    unfold putOn
    cases g.backends.lookup id <;> rfl
  refine chunkLoop_invariant (I := fun g => g.capacityProbe = f.capacityProbe) ?_ _ _ _ _ _ rfl
  intro offset slice g hg
  rcases chunkStep_cases backend dedupe offset slice g with ⟨_, _, _, h⟩ | ⟨_, _, h⟩ | ⟨_, _, h⟩
  · rw [h]
    exact hg
  · rw [h]
    exact (hput _ _ _ _).trans hg
  · rw [h]
    exact (hput _ _ _ _).trans hg

theorem capacityProbe_publishReserved (f : Fabric β) (guard : ReservationGuard)
    (obj : ObjectDescriptor) (content : Bytes) (backend : StorageBackendId)
    (auth : AuthorityEnvelope) (opts : PublishOptions) :
    (f.publishReserved guard obj content backend auth opts).2.2.capacityProbe =
      f.capacityProbe := by
  have hloop := capacityProbe_chunkLoop backend opts.dedupe (chunkLength obj opts) content.length 0
    content f.allocManifestId.2
  unfold publishReserved
  rcases hrun : chunkLoop backend opts.dedupe (chunkLength obj opts) content.length 0 content
    f.allocManifestId.2 with ⟨rc, g⟩
  rw [hrun] at hloop
  simp only [hrun]
  cases rc with
  | error s => exact hloop
  | ok chunks =>
      dsimp only
      split
      · exact hloop
      · split
        · exact hloop
        · split
          · exact hloop
          · exact (capacityProbe_commitPlacement _ _ _ _ _ _ _).trans hloop

theorem capacityProbe_publishCall (f : Fabric β) (c : Call) :
    (f.publishCall c).2.capacityProbe = f.capacityProbe := by
  by_cases hrefuses : f.Refuses c
  · have hout := publishCall_outcome f c
    generalize (f.publishCall c).1 = r at hout
    generalize (f.publishCall c).2 = f' at hout
    cases hout with
    | refused s ledger stale _ => rfl
    | aborted s res ledger start rc g f' hstart _ => exact absurd hrefuses hstart.accepted
    | published res ledger start chunks desc t g f' hstart _ =>
        exact absurd hrefuses hstart.accepted
  · obtain ⟨res, -, heq⟩ := publishCall_accepted hrefuses
    rw [heq]
    exact capacityProbe_publishReserved (f.holding c) _ _ _ _ _ _

theorem books_evict (f : Fabric β) (e : Eviction) :
    ((f.evictRecord e).evictCommit e).2.books =
      { f.books with
        reservations :=
          (f.reservations.removeCommitted e.record.backend e.record.physicalSize).2 } := by
  have hmeta : ((f.evictRecord e).evictCommit e).2.metadata = f.metadata.evictMetadata e := by
    rw [metadata_evictCommit, evictRecord, metadata_removeOn]
  have hbooks : (f.metadata.evictMetadata e).books =
      { f.books with
        reservations :=
          (f.reservations.removeCommitted e.record.backend e.record.physicalSize).2 } := by
    unfold evictMetadata markEvicted
    split <;> rfl
  exact (congrArg books hmeta).trans hbooks

/-- What an operation does to the books. -/
inductive Booked (f : Fabric β) (op : Op β) : Books → Prop
  | same : Booked f op f.books
  | registered (cap : BackendCapacity) (hop : op.capacity = some cap) :
      Booked f op
        ⟨f.reservations.registerBackend ⟨f.backendCounter⟩ cap,
          f.capacityProbe.insert ⟨f.backendCounter⟩ cap⟩
  | called (c : Call) (g : Fabric β) (hcall : f.call op = some (c, g)) (h : g.books = f.books) :
      Booked f op ⟨(g.publishCall c).2.reservations, f.capacityProbe⟩
  | evicted (id : PlacementId) (e : Eviction) (hop : op = .evict id)
      (hcheck : f.evictCheck id = .inr e) :
      Booked f op
        ⟨(f.reservations.removeCommitted e.record.backend e.record.physicalSize).2,
          f.capacityProbe⟩

theorem books_publishCall (f : Fabric β) (c : Call) :
    (f.publishCall c).2.books = ⟨(f.publishCall c).2.reservations, f.capacityProbe⟩ := by
  rw [books, capacityProbe_publishCall]

theorem Booked.of_call {f g : Fabric β} {op : Op β} {c : Call} (hcall : f.call op = some (c, g))
    (h : g.books = f.books) : Booked f op (g.publishCall c).2.books := by
  have hprobe : g.capacityProbe = f.capacityProbe := congrArg Books.capacityProbe h
  rw [books_publishCall, hprobe]
  exact .called c g hcall h

theorem exec_booked (f : Fabric β) (op : Op β) : Booked f op (f.exec op).books := by
  cases op with
  | registerLocalBackend name storageClass be probe => exact .registered _ rfl
  | registerSyntheticBackend name profile be => exact .registered _ rfl
  | defineObject kind size content writer durability priority =>
      rw [exec, books_defineObject]
      exact .same
  | publishTo obj content backend opts =>
      have hcall : f.call (.publishTo obj content backend opts) =
          some (⟨obj, content, backend, opts⟩, f) := rfl
      exact .of_call hcall rfl
  | publish score obj content opts =>
      rcases planCall_eq score f obj content opts with ⟨c, hc, heq⟩ | ⟨-, heq⟩
      · rw [exec, heq]
        exact .of_call (by rw [call, hc]; rfl) rfl
      · rw [exec, heq]
        exact .same
  | replicate source target opts =>
      rcases replicate_eq f source target opts with ⟨c, g, hc, heq⟩ | ⟨hnone, -⟩
      · rw [exec, heq]
        exact .of_call hc (replicateCall_idle hc).books
      · rw [exec, (replicate_idle hnone).books]
        exact .same
  | move source target opts =>
      -- a demotion is in the placements only
      have hmove : (f.exec (.move source target opts)).books =
          (f.replicate source target opts).2.books := by
        rw [exec, move]
        rcases f.replicate source target opts with ⟨r, f'⟩
        cases r <;> rfl
      rw [hmove]
      rcases replicate_eq f source target opts with ⟨c, g, hc, heq⟩ | ⟨hnone, -⟩
      · rw [heq]
        exact .of_call hc (replicateCall_idle hc).books
      · rw [(replicate_idle hnone).books]
        exact .same
  | evict placement =>
      rw [exec, evict]
      cases hcheck : f.evictCheck placement with
      | inl decision => exact .same
      | inr e =>
          dsimp only
          rw [books_evict]
          exact .evicted placement e rfl hcheck
  | read object placement =>
      rw [exec, (read_idle f object placement).books]
      exact .same
  | verify placement =>
      rw [exec, (verify_idle f placement).books]
      exact .same
  | setAuthority authority => exact .same
  | newCoordinatorEpoch => exact .same

end Backend

/-! ### The books of every process -/

/-- What the planner sees of a capacity. -/
def probed (c : BackendCapacity) : UInt64 × Bool := (c.freeBytes, c.unknown)

/-- Nothing is reserved, and the planner sees the capacities of the ledger. -/
structure Tidy (f : Fabric β) : Prop where
  quiet : f.reservations.Quiet
  mirrored : ∀ b,
    (f.capacityProbe.lookup b).map probed = (f.reservations.backends.lookup b).map probed

theorem tidy_empty : Tidy ({} : Fabric β) where
  quiet := ReservationLedger.quiet_empty
  mirrored _ := rfl

theorem Tidy.congr {f g : Fabric β} (h : f.Tidy) (hbooks : g.books = f.books) : g.Tidy := by
  obtain ⟨hreservations, hprobe⟩ := Books.mk.inj hbooks
  exact ⟨hreservations ▸ h.quiet, hprobe ▸ hreservations ▸ h.mirrored⟩

theorem probed_removeCommitted (l : ReservationLedger) (backend b : StorageBackendId)
    (bytes : UInt64) :
    ((l.removeCommitted backend bytes).2.backends.lookup b).map probed =
      (l.backends.lookup b).map probed := by
  obtain ⟨-, hsame⟩ | ⟨c, hc, -, heq⟩ := l.removeCommitted_cases backend bytes
  · rw [hsame]
  · rw [heq]
    simp only [AList.lookup_modify]
    by_cases hb : b = backend
    · rw [if_pos hb, hb, hc]
      rfl
    · rw [if_neg hb]

theorem books_restore (f : Fabric β) (snap : MetadataSnapshot) (path : Bytes) (nonce : Nat) :
    (f.restore snap path nonce).books = f.books := by
  simp only [books, restore, downgradeBackends, account, rebuildBlobs]
  rw [foldl_recoverChunk]
  simp only [repopulate_eq]

variable [StorageBackend β]

theorem Tidy.publishCall {f : Fabric β} (h : f.Tidy) (c : Call) : (f.publishCall c).2.Tidy := by
  obtain ⟨hquiet, hcases⟩ := publishCall_settles h.quiet c
  refine ⟨hquiet, fun b => ?_⟩
  rw [capacityProbe_publishCall, h.mirrored]
  obtain ⟨-, cap, hcap, -, -, hlookup, -⟩ | ⟨-, -, hlookup⟩ := hcases
  · rw [hlookup]
    by_cases hb : b = c.backend
    · rw [if_pos hb, hb, hcap]
      rfl
    · rw [if_neg hb]
  · rw [hlookup]

theorem Tidy.exec {f : Fabric β} (h : f.Tidy) {op : Op β} (hop : op.Probed) : (f.exec op).Tidy := by
  have hbooked := exec_booked f op
  generalize hbooks : (f.exec op).books = books at hbooked
  cases hbooked with
  | same => exact h.congr hbooks
  | registered cap hcap =>
      obtain ⟨hreservations, hprobe⟩ := Books.mk.inj hbooks
      refine ⟨hreservations ▸ h.quiet.registerBackend _ (hop.reservedBytes hcap), fun b => ?_⟩
      rw [hprobe, hreservations, ReservationLedger.registerBackend, AList.lookup_insert_eq,
        AList.lookup_insert_eq]
      by_cases hb : b = ⟨f.backendCounter⟩
      · rw [if_pos hb, if_pos hb]
      · rw [if_neg hb, if_neg hb, h.mirrored]
  | called c g hcall hg =>
      have hprobe : g.capacityProbe = f.capacityProbe := congrArg Books.capacityProbe hg
      refine ((h.congr hg).publishCall c).congr ?_
      rw [hbooks, books_publishCall, hprobe]
  | evicted id e hid hcheck =>
      obtain ⟨hreservations, hprobe⟩ := Books.mk.inj hbooks
      refine ⟨hreservations ▸ h.quiet.removeCommitted _ _, fun b => ?_⟩
      rw [hprobe, hreservations, probed_removeCommitted, h.mirrored]

theorem tidy_run {ops : List (HostOp β)} (hops : ∀ op, .exec op ∈ ops → op.Probed) :
    (Runs.run Host.step {} ops).fabric.Tidy :=
  Host.fabric_invariant tidy_empty (fun _ _ h hop => h.exec hop) (fun _ _ h => h.congr rfl)
    (fun f snap path nonce h => h.congr (books_restore f snap path nonce)) hops

/-! ### Leaks -/

/-- A publication that fails leaves what every backend has reserved and committed;
one that succeeds commits the size of the object on its backend, and no more. -/
structure KeepsAccounts (f : Fabric β) (c : Call) : Prop where
  failed : (f.publishCall c).1.toOption.isSome = false → ∀ b,
    (f.publishCall c).2.reservations.reservedOn b = f.reservations.reservedOn b ∧
      (f.publishCall c).2.reservations.committedOn b = f.reservations.committedOn b
  succeeded : (f.publishCall c).1.toOption.isSome = true → ∀ b,
    (f.publishCall c).2.reservations.reservedOn b = f.reservations.reservedOn b ∧
      ((f.publishCall c).2.reservations.committedOn b).toNat =
        (f.reservations.committedOn b).toNat +
          if b = c.backend then c.obj.logicalSize.toNat else 0

theorem Tidy.keepsAccounts_iff {f : Fabric β} (h : f.Tidy) (c : Call) :
    f.KeepsAccounts c ↔ c.obj.id ∈ f.catalog ∨ ¬f.Commits c := by
  obtain ⟨-, ⟨hcommits, cap, hcap, hsize, hroom, hlookup, hknown⟩ | ⟨hcommits, hfail, hlookup⟩⟩ :=
    publishCall_settles h.quiet c
  · have hfree := cap.freeBytes.toNat_lt
    have hsum : (cap.committedBytes + c.obj.logicalSize).toNat =
        cap.committedBytes.toNat + c.obj.logicalSize.toNat := by
      rw [UInt64.toNat_add]
      omega
    have hcommitted : f.reservations.committedOn c.backend = cap.committedBytes := by
      rw [ReservationLedger.committedOn, hcap]
    have hcommitted' : (f.publishCall c).2.reservations.committedOn c.backend =
        cap.committedBytes + c.obj.logicalSize := by
      rw [ReservationLedger.committedOn, hlookup, if_pos rfl]
    constructor
    · intro hkeeps
      by_cases hmem : c.obj.id ∈ f.catalog
      · exact .inl hmem
      · have hfail : (f.publishCall c).1.toOption.isSome = false :=
          Bool.eq_false_iff.mpr fun hok => hmem (hknown.mp hok)
        -- the object is unknown: the publication fails with its bytes committed
        have hsame := congrArg UInt64.toNat (hkeeps.failed hfail c.backend).2
        rw [hcommitted, hcommitted', hsum] at hsame
        have hpos : c.obj.logicalSize.toNat ≠ 0 := fun hzero =>
          hsize (UInt64.toNat_inj.mp hzero)
        omega
    · rintro (hmem | hstops)
      · have hok := hknown.mpr hmem
        refine ⟨fun hfail => ?_, fun _ b => ?_⟩
        · rw [hok] at hfail
          cases hfail
        · by_cases hb : b = c.backend
          -- the backend of the call takes the bytes, no other one does
          · rw [hb, hcommitted, hcommitted', hsum, if_pos rfl]
            refine ⟨?_, rfl⟩
            rw [ReservationLedger.reservedOn, ReservationLedger.reservedOn, hlookup, if_pos rfl,
              hcap]
          · have hsame : (f.publishCall c).2.reservations.backends.lookup b =
                f.reservations.backends.lookup b := by rw [hlookup, if_neg hb]
            obtain ⟨hreserved, hcommitted⟩ := ReservationLedger.usage_congr hsame
            rw [hreserved, hcommitted, if_neg hb]
            exact ⟨rfl, rfl⟩
      · exact absurd hcommits hstops
  · refine ⟨fun _ => .inr hcommits, fun _ => ⟨fun _ b => ?_, fun hok => ?_⟩⟩
    · exact ReservationLedger.usage_congr (hlookup b)
    · rw [hfail] at hok
      cases hok

/-- In every state that has the ledger of a process, with whatever files: a publication
keeps the accounts exactly if the object is in the catalog, or it does not land. The
catalog, the blob tables and the counters can be any. -/
theorem publishTo_keeps_accounts_iff (ops : List (HostOp β))
    (hops : ∀ op, .exec op ∈ ops → op.Probed) (f : Fabric β)
    (hf : f.books = (Runs.run Host.step {} ops).fabric.books) (c : Call) :
    f.KeepsAccounts c ↔ c.obj.id ∈ f.catalog ∨ ¬f.Lands c := by
  rw [((tidy_run hops).congr hf).keepsAccounts_iff, commits_iff_lands]

theorem probed_opening : ∀ op, .exec op ∈ Small.opening.map HostOp.exec → op.Probed := by
  intro op hop
  simp only [Small.opening, List.map_cons, List.map_nil, List.mem_cons, HostOp.exec.injEq,
    List.not_mem_nil, or_false] at hop
  obtain rfl | rfl | rfl := hop <;> trivial

theorem publishTo_keeps_accounts_small :
    (Runs.run Host.step {} (Small.opening.map .exec)).fabric.KeepsAccounts
      ⟨Small.object, [7], ⟨1⟩, {}⟩ :=
  (publishTo_keeps_accounts_iff (Small.opening.map .exec) probed_opening _ rfl _).mpr
    (.inl (by decide +kernel))

/-- The publication of an object that another runtime has defined fails behind its
commit, and the byte stays committed. -/
theorem publishTo_leaks :
    ¬(Runs.run Host.step {} (Small.opening.map .exec)).fabric.KeepsAccounts
      ⟨{ Small.object with id := ⟨2⟩ }, [7], ⟨1⟩, { eagerVerify := false }⟩ := by
  intro h
  generalize hf : (Runs.run Host.step {} (Small.opening.map .exec)).fabric = f at h
  have hrun : (f.publishCall ⟨{ Small.object with id := ⟨2⟩ }, [7], ⟨1⟩,
        { eagerVerify := false }⟩).1.toOption.isSome = false ∧
      f.reservations.committedOn ⟨1⟩ = 0 ∧
      (f.publishCall ⟨{ Small.object with id := ⟨2⟩ }, [7], ⟨1⟩,
        { eagerVerify := false }⟩).2.reservations.committedOn ⟨1⟩ = 1 := by
    rw [← hf]
    decide +kernel
  obtain ⟨hfail, hbefore, hafter⟩ := hrun
  have hsame := (h.failed hfail ⟨1⟩).2
  rw [hbefore, hafter] at hsame
  cases hsame

/-! ### The planner and the ledger -/

/-- The planner is given a candidate for the backend `b`, and its capacity constraint passes
for that candidate exactly where `reserve` would not find that the bytes do not fit. -/
def PlannerAgrees (f : Fabric β) (obj : ObjectDescriptor) (n : UInt32) (b : StorageBackendId) :
    Prop :=
  ∃ req, f.makePlanRequest obj n = .ok req ∧ (∃ c ∈ req.candidates, c.backend = b) ∧
    ∀ c ∈ req.candidates, c.backend = b →
      (Planner.capacityOk c obj.logicalSize = true ↔ ∀ gen owner reason,
        ¬∃ s, (f.reservations.reserve b obj.logicalSize gen owner reason).1 = .error s ∧
          s.code = .insufficientCapacity)

/-- A backend has a descriptor, a tier that is known and a probed capacity. -/
def Rated (f : Fabric β) (k : StorageBackendId) : Prop :=
  ∃ desc t probe, f.backendDescriptors.lookup k = some desc ∧
    f.tiers.lookup desc.tier = some t ∧ f.capacityProbe.lookup k = some probe

def probeOf (f : Fabric β) (k : StorageBackendId) : BackendCapacity :=
  (f.capacityProbe.lookup k).getD {}

section Candidates

omit [StorageBackend β]

theorem mapM_ok_iff {α γ : Type} {g : α → Result γ} {l : List α} {out : List γ} :
    l.mapM g = .ok out ↔ List.Forall₂ (fun a c => g a = .ok c) l out := by
  induction l generalizing out with
  | nil =>
      rw [List.mapM_nil, List.forall₂_nil_left_iff]
      exact ⟨fun h => (Except.ok.inj h).symm, fun h => by rw [h]; rfl⟩
  | cons a l ih =>
      rw [List.mapM_cons, List.forall₂_cons_left_iff]
      cases ha : g a with
      | error s =>
          refine iff_of_false (fun h => ?_) ?_
          · cases h
          · rintro ⟨c, rest, hc, -⟩
            cases hc
      | ok c =>
          cases hl : l.mapM g with
          | error s =>
              refine iff_of_false (fun h => ?_) ?_
              · simp [bind, Except.bind] at h
              · rintro ⟨c', rest, -, hrest, -⟩
                rw [ih.mpr hrest] at hl
                cases hl
          | ok rest =>
              have hrest := ih.mp hl
              constructor
              · intro h
                refine ⟨c, rest, rfl, hrest, ?_⟩
                simpa [hl, bind, Except.bind, pure, Except.pure] using h.symm
              · rintro ⟨c', rest', hc, hrest', rfl⟩
                obtain rfl := Except.ok.inj hc
                obtain rfl := Except.ok.inj (hl.symm.trans (ih.mpr hrest'))
                rfl

theorem tierCandidate_ok {f : Fabric β} {k : StorageBackendId} {c : TierCandidate}
    (h : f.tierCandidate k = .ok c) :
    f.Rated k ∧ c.backend = k ∧ c.freeBytes = (f.probeOf k).freeBytes ∧
      c.capacityUnknown = (f.probeOf k).unknown := by
  unfold tierCandidate mapAt at h
  cases hdesc : f.backendDescriptors.lookup k with
  | none => simp [hdesc, Result.fail, bind, Except.bind] at h
  | some desc =>
      cases htier : f.tiers.lookup desc.tier with
      | none => simp [hdesc, htier, Result.fail, bind, Except.bind] at h
      | some t =>
          cases hprobe : f.capacityProbe.lookup k with
          | none => simp [hdesc, htier, hprobe, Result.fail, bind, Except.bind] at h
          | some probe =>
              simp only [hdesc, htier, hprobe, bind, Except.bind, pure, Except.pure] at h
              obtain rfl := Except.ok.inj h
              rw [probeOf, hprobe]
              exact ⟨⟨desc, t, probe, hdesc, htier, hprobe⟩, rfl, rfl, rfl⟩

theorem tierCandidate_of_rated {f : Fabric β} {k : StorageBackendId} (h : f.Rated k) :
    ∃ c, f.tierCandidate k = .ok c := by
  obtain ⟨desc, t, probe, hdesc, htier, hprobe⟩ := h
  simp only [tierCandidate, mapAt, hdesc, htier, hprobe, bind, Except.bind, pure, Except.pure]
  exact ⟨_, rfl⟩

theorem makePlanRequest_ok {f : Fabric β} {obj : ObjectDescriptor} {n : UInt32}
    {req : PlanRequest} (h : f.makePlanRequest obj n = .ok req) :
    List.Forall₂ (fun k c => f.tierCandidate k = .ok c) f.backends.keys req.candidates := by
  unfold makePlanRequest at h
  cases hmap : f.backends.keys.mapM f.tierCandidate with
  | error s => simp [hmap, bind, Except.bind] at h
  | ok candidates =>
      simp only [hmap, bind, Except.bind, pure, Except.pure] at h
      obtain rfl := Except.ok.inj h
      exact mapM_ok_iff.mp hmap

theorem makePlanRequest_of_rated {f : Fabric β} (h : ∀ k ∈ f.backends, f.Rated k)
    (obj : ObjectDescriptor) (n : UInt32) : ∃ req, f.makePlanRequest obj n = .ok req := by
  have hall : ∀ keys : List StorageBackendId, (∀ k ∈ keys, f.Rated k) →
      ∃ cs, List.Forall₂ (fun k c => f.tierCandidate k = .ok c) keys cs := by
    intro keys
    induction keys with
    | nil => exact fun _ => ⟨[], .nil⟩
    | cons k keys ih =>
        intro hkeys
        obtain ⟨c, hc⟩ := tierCandidate_of_rated (hkeys k List.mem_cons_self)
        obtain ⟨cs, hcs⟩ := ih fun k' hk' => hkeys k' (List.mem_cons_of_mem _ hk')
        exact ⟨c :: cs, .cons hc hcs⟩
  obtain ⟨cs, hcs⟩ := hall f.backends.keys fun k hk => h k (AList.mem_keys.mpr hk)
  rw [makePlanRequest, mapM_ok_iff.mpr hcs]
  exact ⟨_, rfl⟩

theorem Tidy.capacityOk_iff {f : Fabric β} (h : f.Tidy) {k : StorageBackendId} {c : TierCandidate}
    (hc : f.tierCandidate k = .ok c) (size : UInt64) :
    (Planner.capacityOk c size = true ↔ ∀ gen owner reason,
      ¬∃ s, (f.reservations.reserve k size gen owner reason).1 = .error s ∧
        s.code = .insufficientCapacity) ↔
      size = 0 ∨
      (f.reservations.committedOn k).toNat + size.toNat ≤ (f.probeOf k).freeBytes.toNat ∨
      (f.probeOf k).unknown = false ∧ (f.probeOf k).freeBytes < size := by
  obtain ⟨⟨desc, t, probe, -, -, hprobe⟩, -, hfree, hunknown⟩ := tierCandidate_ok hc
  have hmirror := h.mirrored k
  rw [hprobe, Option.map_some] at hmirror
  obtain ⟨cap, hcap, hseen⟩ := Option.map_eq_some_iff.mp hmirror.symm
  have hprobeOf : f.probeOf k = probe := by rw [probeOf, hprobe]; rfl
  have hfreeCap : cap.freeBytes = probe.freeBytes := congrArg Prod.fst hseen
  have hcommitted : f.reservations.committedOn k = cap.committedBytes := by
    rw [ReservationLedger.committedOn, hcap]
  have hadmits : (∀ gen owner reason, ¬∃ s,
      (f.reservations.reserve k size gen owner reason).1 = .error s ∧
        s.code = .insufficientCapacity) ↔
      size = 0 ∨ cap.committedBytes.toNat + size.toNat ≤ cap.freeBytes.toNat := by
    simp only [ReservationLedger.reserve_insufficient_iff hcap, forall_const, not_and, UInt64.not_lt]
    by_cases hzero : size = 0
    · simp [hzero]
    · simp [hzero, h.quiet.le_headroom_iff hcap hzero]
  rw [hadmits, hcommitted, hfreeCap, Planner.capacityOk, hfree, hunknown, hprobeOf, Bool.or_eq_true,
    decide_eq_true_iff, UInt64.le_iff_toNat_le, UInt64.lt_iff_toNat_lt,
    ← UInt64.toNat_inj, UInt64.toNat_zero]
  cases probe.unknown
  · simp only [Bool.false_eq_true, false_or, true_and]
    omega
  · simp only [true_or, true_iff, Bool.true_eq_false, false_and, or_false]

theorem Tidy.plannerAgrees_iff {f : Fabric β} (h : f.Tidy) (obj : ObjectDescriptor) (n : UInt32)
    {b : StorageBackendId} (hb : b ∈ f.backends) :
    f.PlannerAgrees obj n b ↔ (∀ k ∈ f.backends, f.Rated k) ∧
      (obj.logicalSize = 0 ∨
        (f.reservations.committedOn b).toNat + obj.logicalSize.toNat ≤
          (f.probeOf b).freeBytes.toNat ∨
        (f.probeOf b).unknown = false ∧ (f.probeOf b).freeBytes < obj.logicalSize) := by
  constructor
  · rintro ⟨req, hreq, ⟨c, hc, rfl⟩, hagree⟩
    have hcandidates := makePlanRequest_ok hreq
    constructor
    · intro k hk
      obtain ⟨c', -, hc'⟩ := forall₂_exists_right hcandidates k (AList.mem_keys.mp hk)
      exact (tierCandidate_ok hc').1
    · obtain ⟨k, -, hk⟩ := forall₂_exists_left hcandidates c hc
      obtain rfl : c.backend = k := (tierCandidate_ok hk).2.1
      exact (h.capacityOk_iff hk _).mp (hagree c hc rfl)
  · rintro ⟨hrated, hfits⟩
    obtain ⟨req, hreq⟩ := makePlanRequest_of_rated hrated obj n
    have hcandidates := makePlanRequest_ok hreq
    refine ⟨req, hreq, ?_, ?_⟩
    · obtain ⟨c, hc, hbc⟩ := forall₂_exists_right hcandidates b (AList.mem_keys.mp hb)
      exact ⟨c, hc, (tierCandidate_ok hbc).2.1⟩
    · rintro c hc rfl
      obtain ⟨k, -, hk⟩ := forall₂_exists_left hcandidates c hc
      obtain rfl : c.backend = k := (tierCandidate_ok hk).2.1
      exact (h.capacityOk_iff hk _).mpr hfits

end Candidates

/-- In every state that a process can get to, and for every object and every registered
backend: the planner has a candidate for the backend and agrees with the ledger on its
capacity exactly if every backend is rated, and the object is empty, or fits beside what is
committed, or exceeds the probed free bytes and these are known. -/
theorem planner_agrees_iff (ops : List (HostOp β)) (hops : ∀ op, .exec op ∈ ops → op.Probed)
    (obj : ObjectDescriptor) (n : UInt32) (b : StorageBackendId)
    (hb : b ∈ (Runs.run Host.step {} ops).fabric.backends) :
    let f := (Runs.run Host.step {} ops).fabric
    f.PlannerAgrees obj n b ↔ (∀ k ∈ f.backends, f.Rated k) ∧
      (obj.logicalSize = 0 ∨
        (f.reservations.committedOn b).toNat + obj.logicalSize.toNat ≤
          (f.probeOf b).freeBytes.toNat ∨
        (f.probeOf b).unknown = false ∧ (f.probeOf b).freeBytes < obj.logicalSize) :=
  (tidy_run hops).plannerAgrees_iff obj n hb

theorem planner_agrees_small :
    (Runs.run Host.step {} (Small.opening.map .exec)).fabric.PlannerAgrees Small.object 1 ⟨1⟩ := by
  have hrun : ⟨1⟩ ∈ (Runs.run Host.step {} (Small.opening.map .exec)).fabric.backends ∧
      ((Runs.run Host.step {} (Small.opening.map .exec)).fabric.backends.keys.all fun k =>
        ((Runs.run Host.step {} (Small.opening.map .exec)).fabric.tierCandidate
          k).toOption.isSome) = true ∧
      ((Runs.run Host.step {} (Small.opening.map .exec)).fabric.reservations.committedOn
          ⟨1⟩).toNat + Small.object.logicalSize.toNat ≤
        ((Runs.run Host.step {} (Small.opening.map .exec)).fabric.probeOf ⟨1⟩).freeBytes.toNat := by
    decide +kernel
  obtain ⟨hb, hrated, hfits⟩ := hrun
  refine (planner_agrees_iff (Small.opening.map .exec) probed_opening Small.object 1 ⟨1⟩ hb).mpr
    ⟨fun k hk => ?_, .inr (.inl hfits)⟩
  have hcandidate := List.all_eq_true.mp hrated k (AList.mem_keys.mp hk)
  cases hc : (Runs.run Host.step {} (Small.opening.map .exec)).fabric.tierCandidate k with
  | ok c => exact (tierCandidate_ok hc).1
  | error s =>
      rw [hc] at hcandidate
      cases hcandidate

/-- A backend of one byte, and a placement that fills it. -/
def fullOps : List (HostOp SyntheticBackend) :=
  ([.registerSyntheticBackend (ascii "full") { totalBytes := 1, freeBytes := 1 }
      { profile := { totalBytes := 1 } }, .setAuthority { epoch := ⟨1⟩ },
    .defineObject (.known .genericAiState) 1 [7] {} {} (.known .normal),
    Small.publication] : List (Op SyntheticBackend)).map .exec

/-- The planner still offers the full backend, where the ledger has no room. -/
theorem planner_disagrees :
    ¬(Runs.run Host.step {} fullOps).fabric.PlannerAgrees Small.object 1 ⟨1⟩ := by
  rintro ⟨req, hreq, ⟨c, hc, hb⟩, hagree⟩
  generalize hf : (Runs.run Host.step {} fullOps).fabric = f at hreq hagree
  have hrun : ((f.tierCandidate ⟨1⟩).toOption.all fun c =>
        Planner.capacityOk c Small.object.logicalSize) = true ∧
      (match (f.reservations.reserve ⟨1⟩ Small.object.logicalSize ⟨1⟩ ⟨1⟩ []).1 with
        | .error s => decide (s.code = .insufficientCapacity)
        | .ok _ => false) = true := by
    rw [← hf]
    decide +kernel
  obtain ⟨hoffered, hrefused⟩ := hrun
  obtain ⟨k, -, hk⟩ := forall₂_exists_left (makePlanRequest_ok hreq) c hc
  obtain rfl : k = ⟨1⟩ := (tierCandidate_ok hk).2.1.symm.trans hb
  rw [hk] at hoffered
  have hadmits := (hagree c hc hb).mp hoffered ⟨1⟩ ⟨1⟩ []
  cases hreserve : (f.reservations.reserve ⟨1⟩ Small.object.logicalSize ⟨1⟩ ⟨1⟩ []).1 with
  | ok res =>
      rw [hreserve] at hrefused
      cases hrefused
  | error s =>
      rw [hreserve] at hrefused
      exact hadmits ⟨s, hreserve, of_decide_eq_true hrefused⟩

end Fabric

end StorageFabric
