import StorageFabric.Tools.Fencing

/-!
The handlers step by step.

A mutation holds `auth_mutex` from its look at the authority until it stores its
envelope, and the handling of a loss holds it from the new epoch until the reset.
A recovery writes the same authority and does not take the mutex, so its two steps
can come between those of the others.

What the mutex and the gate are good for is an invariant: nobody but the holder is
on its way, and its envelope is not older than what is stored. A recovery has to
leave that alone; then all that ever takes the authority back is a reset of the
baseline.
-/

namespace StorageFabric

inductive Handler
  | create (req : CreateRequest)
  | commit (incoming : AuthorityEnvelope)
  | loss (boot : WorkerBootId)
  | recover (path : Bytes) (nowNs : UInt64)
  deriving DecidableEq

inductive Stage
  | waiting
  /-- The envelope has passed the gate; the epoch is the next one; or the metadata
  is recovered. -/
  | entered
  /-- The object is published. -/
  | published
  | done
  deriving DecidableEq

/-- Handlers at work on one coordinator, and the one that holds `auth_mutex`. -/
structure Race (β : Type) where
  c : Coordinator β
  files : Table Bytes Bytes := ∅
  handlers : Nat → Handler
  stage : Nat → Stage := fun _ => .waiting
  holder : Option Nat := none

/-- The handler has taken the mutex and not given it back. -/
def Handler.busyAt : Handler → Stage → Bool
  | .create _, .entered | .create _, .published | .commit _, .entered | .loss _, .entered => true
  | _, _ => false

/-- The envelope of a mutation that has passed the gate and is not stored yet. -/
def Handler.pendingAt : Handler → Stage → Option AuthorityEnvelope
  | .create req, .entered | .create req, .published => some req.incoming
  | .commit incoming, .entered => some incoming
  | _, _ => none

theorem Handler.busyAt_of_pendingAt {h : Handler} {stage : Stage} {m : AuthorityEnvelope}
    (hm : h.pendingAt stage = some m) : h.busyAt stage = true := by
  cases h <;> cases stage <;> first | rfl | cases hm

theorem Handler.busyAt_waiting (h : Handler) : h.busyAt .waiting = false := by cases h <;> rfl

theorem Handler.busyAt_done (h : Handler) : h.busyAt .done = false := by cases h <;> rfl

namespace Race

variable {β : Type}

def authority (s : Race β) : AuthorityEnvelope := s.c.sf.authority

def goto (s : Race β) (t : Nat) (stage : Stage) (c : Coordinator β) : Race β :=
  { s with c, stage := Function.update s.stage t stage }

def lock (s : Race β) (t : Nat) : Race β := { s with holder := some t }

def unlock (s : Race β) : Race β := { s with holder := none }

/-- A mutation takes the mutex and compares its envelope with the authority. -/
def enter (s : Race β) (t : Nat) (incoming : AuthorityEnvelope) : Race β :=
  if s.holder.isSome then s
  else if incoming.isStrictlyNewerThan s.authority then (s.lock t).goto t .entered s.c
  else s.goto t .done s.c

def publish [StorageBackend β] (s : Race β) (t : Nat) (req : CreateRequest) : Race β :=
  match s.c.sf.defineObject req.kind req.size req.content req.incoming { minReplicas := 1 }
    (.known .high) with
  | (.error _, sf) => s.unlock.goto t .done { s.c with sf }
  | (.ok obj, sf) =>
      match sf.publishTo obj req.content s.c.defaultBackend
        (Coordinator.createOptions req.incoming) with
      | (.error _, sf) => s.unlock.goto t .done { s.c with sf }
      | (.ok _, sf) => s.goto t .published { s.c with sf }

/-- What handler `t` does next at the given stage; it waits while another one holds
the mutex. -/
def advance [StorageBackend β] (s : Race β) (t : Nat) : Handler → Stage → Race β
  | .create req, .waiting => s.enter t req.incoming
  | .create req, .entered => s.publish t req
  | .create req, .published =>
      s.unlock.goto t .done { s.c with sf := s.c.sf.setAuthority req.incoming }
  | .commit incoming, .waiting => s.enter t incoming
  | .commit incoming, .entered =>
      s.unlock.goto t .done { s.c with
        dispatchCounter := s.c.dispatchCounter + 1
        sf := s.c.sf.setAuthority incoming }
  | .loss boot, .waiting =>
      if s.holder.isSome then s
      else (s.lock t).goto t .entered { s.c with
        liveBoots := s.c.liveBoots.erase boot
        sf := s.c.sf.newCoordinatorEpoch }
  | .loss _, .entered => s.unlock.goto t .done s.c.resetAuthorityBaseline
  | .recover path nowNs, .waiting =>
      let (st, sf) := s.c.sf.recover path s.files nowNs
      s.goto t (if st.isOk then .entered else .done) { s.c with sf }
  | .recover _ _, .entered => s.goto t .done s.c.resetAuthorityBaseline
  | _, _ => s

def step [StorageBackend β] (s : Race β) (t : Nat) : Race β := s.advance t (s.handlers t) (s.stage t)

/-! ### A handler by itself -/

theorem stage_goto (s : Race β) (t : Nat) (stage : Stage) (c : Coordinator β) :
    (s.goto t stage c).stage t = stage := by
  simp [goto]

theorem enter_of_free {s : Race β} (hfree : s.holder = none) (t : Nat)
    (incoming : AuthorityEnvelope) :
    s.enter t incoming =
      if incoming.isStrictlyNewerThan s.authority then (s.lock t).goto t .entered s.c
      else s.goto t .done s.c := by
  rw [enter, if_neg (by simp [hfree])]

section Alone

variable [StorageBackend β] {s : Race β} {t : Nat}

theorem step_of {h : Handler} {stage : Stage} (hhandler : s.handlers t = h)
    (hstage : s.stage t = stage) : s.step t = s.advance t h stage := by
  rw [step, hhandler, hstage]

theorem step_goto {h : Handler} (hhandler : s.handlers t = h) (stage : Stage) (c : Coordinator β) :
    (s.goto t stage c).step t = (s.goto t stage c).advance t h stage :=
  step_of hhandler (stage_goto s t stage c)

theorem step_goto_done (c : Coordinator β) : (s.goto t .done c).step t = s.goto t .done c := by
  rw [step_goto rfl]
  cases s.handlers t <;> rfl

theorem run_commit {incoming : AuthorityEnvelope} {command : UInt64} {payload rest : Bytes}
    (hhandler : s.handlers t = .commit incoming) (hstage : s.stage t = .waiting)
    (hfree : s.holder = none)
    (hread : readCommit.run payload = some ((incoming, command), rest)) :
    (Runs.run step s [t, t, t]).c = (s.c.commit payload).2 := by
  show (((s.step t).step t).step t).c = _
  rw [step_of hhandler hstage, advance, enter_of_free hfree, Coordinator.commit, hread, authority]
  dsimp only
  split
  · rw [step_goto (s := s.lock t) hhandler, advance, step_goto_done]
    rfl
  · rw [step_goto_done, step_goto_done]
    rfl

theorem run_create {req : CreateRequest} {payload rest : Bytes}
    (hhandler : s.handlers t = .create req) (hstage : s.stage t = .waiting)
    (hfree : s.holder = none) (hread : readCreate.run payload = some (req, rest)) :
    (Runs.run step s [t, t, t]).c = (s.c.createObject payload).2 := by
  show (((s.step t).step t).step t).c = _
  rw [step_of hhandler hstage, advance, enter_of_free hfree, Coordinator.createObject, hread,
    authority]
  dsimp only
  split
  · rw [step_goto (s := s.lock t) hhandler, advance, publish]
    show (Race.step (match s.c.sf.defineObject req.kind req.size req.content req.incoming
      { minReplicas := 1 } (.known .high) with | (.error _, sf) => _ | (.ok obj, sf) => _) t).c = _
    rcases s.c.sf.defineObject req.kind req.size req.content req.incoming { minReplicas := 1 }
      (.known .high) with ⟨r, sf⟩
    cases r with
    | error st =>
        dsimp only
        rw [step_goto_done]
        rfl
    | ok obj =>
        dsimp only
        show (Race.step (match sf.publishTo obj req.content s.c.defaultBackend
          (Coordinator.createOptions req.incoming) with | (.error _, sf) => _ | (.ok _, sf) => _)
          t).c = _
        rcases sf.publishTo obj req.content s.c.defaultBackend
          (Coordinator.createOptions req.incoming) with ⟨r, sf'⟩
        cases r with
        | error st =>
            dsimp only
            rw [step_goto_done]
            rfl
        | ok p =>
            dsimp only
            rw [step_goto (s := (s.lock t).goto t .entered s.c) hhandler]
            rfl
  · rw [step_goto_done, step_goto_done]
    rfl

theorem run_loss {boot : WorkerBootId} (hhandler : s.handlers t = .loss boot)
    (hstage : s.stage t = .waiting) (hfree : s.holder = none) :
    (Runs.run step s [t, t, t]).c = s.c.onWorkerLoss boot := by
  show (((s.step t).step t).step t).c = _
  rw [step_of hhandler hstage, advance, if_neg (by simp [hfree]),
    step_goto (s := s.lock t) hhandler, advance, step_goto_done]
  rfl

theorem run_recover {path payload rest : Bytes} {env : Env β}
    (hhandler : s.handlers t = .recover (s.c.choosePath path) env.nowNs)
    (hstage : s.stage t = .waiting) (hread : ByteReader.readBlob.run payload = some (path, rest)) :
    (Runs.run step s [t, t, t]).c = (s.c.recoverMetadata env payload s.files).2 := by
  show (((s.step t).step t).step t).c = _
  rw [step_of hhandler hstage, advance, Coordinator.recoverMetadata, hread]
  dsimp only
  split
  · rw [step_goto hhandler, advance, step_goto_done]
    rfl
  · rw [step_goto_done, step_goto_done]
    rfl

end Alone

/-- What the coordinator's own handler makes of the payload of a request. -/
def serve [StorageBackend β] (c : Coordinator β) (env : Env β) (files : Table Bytes Bytes) :
    Handler → Bytes → Coordinator β
  | .create _, payload => (c.createObject payload).2
  | .commit _, payload => (c.commit payload).2
  | .loss boot, _ => c.onWorkerLoss boot
  | .recover _ nowNs, payload => (c.recoverMetadata { env with nowNs } payload files).2

/-- The payload is the body of the request that the handler is about. -/
def Carries (c : Coordinator β) : Handler → Bytes → Prop
  | .create req, payload => ∃ rest, readCreate.run payload = some (req, rest)
  | .commit incoming, payload =>
      ∃ command rest, readCommit.run payload = some ((incoming, command), rest)
  | .loss _, _ => True
  | .recover path _, payload => ∃ asked rest,
      ByteReader.readBlob.run payload = some (asked, rest) ∧ path = c.choosePath asked

/-- A handler that is not disturbed does what the coordinator's own one does. -/
theorem run_alone [StorageBackend β] {s : Race β} {t : Nat} {payload : Bytes}
    (hcarries : Carries s.c (s.handlers t) payload) (hstage : s.stage t = .waiting)
    (hfree : s.holder = none) (env : Env β) :
    (Runs.run step s [t, t, t]).c = serve s.c env s.files (s.handlers t) payload := by
  cases hhandler : s.handlers t with
  | create req =>
      rw [hhandler] at hcarries
      obtain ⟨rest, hread⟩ := hcarries
      exact run_create hhandler hstage hfree hread
  | commit incoming =>
      rw [hhandler] at hcarries
      obtain ⟨command, rest, hread⟩ := hcarries
      exact run_commit hhandler hstage hfree hread
  | loss boot => exact run_loss hhandler hstage hfree
  | recover path nowNs =>
      rw [hhandler] at hcarries
      obtain ⟨asked, rest, hread, rfl⟩ := hcarries
      have hclock : s.handlers t =
          .recover (s.c.choosePath asked) ({ env with nowNs } : Env β).nowNs := hhandler
      exact run_recover hclock hstage hread

/-! ### What the steps do to the authority -/

theorem authority_enter (s : Race β) (t : Nat) (incoming : AuthorityEnvelope) :
    (s.enter t incoming).authority = s.authority := by
  unfold enter
  split
  · rfl
  · split <;> rfl

theorem le_baseline_iff {a : AuthorityEnvelope} :
    a.triple ≤ (Coordinator.baseline a.epoch).triple ↔
      a.boot.value = 0 ∧ a.generation.value = 0 := by
  rw [AuthorityEnvelope.triple_le_iff, ← UInt64.toNat_inj]
  show _ < a.epoch.value.toNat ∨ _ = a.epoch.value.toNat ∧
    (_ < 0 ∨ _ = 0 ∧ _ ≤ (0 : UInt64).toNat) ↔ _
  have hzero : (0 : UInt64).toNat = 0 := rfl
  omega

theorem baseline_le (a : AuthorityEnvelope) :
    (Coordinator.baseline a.epoch).triple ≤ a.triple := by
  rw [AuthorityEnvelope.triple_le_iff]
  show _ < a.epoch.value.toNat ∨ a.epoch.value.toNat = a.epoch.value.toNat ∧
    (0 < a.boot.value ∨ 0 = a.boot.value ∧ (0 : UInt64).toNat ≤ a.generation.value.toNat)
  have hzero : (0 : UInt64).toNat = 0 := rfl
  omega

theorem le_next_iff {a : AuthorityEnvelope} :
    a.triple ≤ { a with epoch := a.epoch.next : AuthorityEnvelope }.triple ↔
      a.epoch.value.toNat < 2 ^ 64 - 1 := by
  have hnext : a.epoch.next.value.toNat = (a.epoch.value.toNat + 1) % 2 ^ 64 :=
    UInt64.toNat_add a.epoch.value 1
  have hword : a.epoch.value.toNat < 2 ^ 64 := a.epoch.value.toNat_lt
  rw [AuthorityEnvelope.triple_le_iff]
  show _ < a.epoch.next.value.toNat ∨ _ = a.epoch.next.value.toNat ∧
    (_ < a.boot.value ∨ _ = a.boot.value ∧ _ ≤ a.generation.value.toNat) ↔ _
  omega

section Authority

variable [StorageBackend β]

/-- What the next step of handler `t` stores, if it stores an authority. -/
def stores (s : Race β) (t : Nat) : Option AuthorityEnvelope :=
  match s.handlers t, s.stage t with
  | .create req, .published => some req.incoming
  | .commit incoming, .entered => some incoming
  | .loss _, .waiting =>
      if s.holder.isSome then none
      else some { s.authority with epoch := s.authority.epoch.next }
  | .loss _, .entered => some (Coordinator.baseline s.authority.epoch)
  | .recover path nowNs, .waiting =>
      (Fabric.recorded s.files path).map fun snap =>
        Fabric.recoveredAuthority snap.epoch (Fabric.workerBootNonce nowNs)
  | .recover _ _, .entered => some (Coordinator.baseline s.authority.epoch)
  | _, _ => none

theorem authority_publish (s : Race β) (t : Nat) (req : CreateRequest) :
    (s.publish t req).authority = s.authority := by
  have hdefine := Fabric.authority_defineObject s.c.sf req.kind req.size req.content req.incoming
    { minReplicas := 1 } (.known .high)
  unfold publish
  split
  · next heq =>
      rw [heq] at hdefine
      exact hdefine
  · next obj sf heq =>
      rw [heq] at hdefine
      have hpublish := Fabric.authority_publishTo sf obj req.content s.c.defaultBackend
        (Coordinator.createOptions req.incoming)
      split
      · next heq' =>
          rw [heq'] at hpublish
          exact hpublish.trans hdefine
      · next heq' =>
          rw [heq'] at hpublish
          exact hpublish.trans hdefine

theorem authority_step (s : Race β) (t : Nat) :
    (s.step t).authority = (s.stores t).getD s.authority := by
  unfold step stores
  cases s.handlers t with
  | create req =>
      cases s.stage t with
      | waiting => exact authority_enter s t req.incoming
      | entered => exact authority_publish s t req
      | published => rfl
      | done => rfl
  | commit incoming =>
      cases s.stage t with
      | waiting => exact authority_enter s t incoming
      | _ => rfl
  | loss boot =>
      cases s.stage t with
      | waiting =>
          dsimp only [advance]
          split <;> rfl
      | _ => rfl
  | recover path nowNs =>
      cases s.stage t with
      | waiting =>
          obtain ⟨snap, hfile, heq⟩ | ⟨hnone, -, hsame⟩ :=
            Fabric.recover_cases s.c.sf path s.files nowNs
          · dsimp only [advance]
            rw [heq, hfile]
            rfl
          · dsimp only [advance]
            rw [hnone]
            exact congrArg Fabric.authority hsame
      | _ => rfl

/-! ### What the mutex protects -/

def busy (s : Race β) (u : Nat) : Bool := (s.handlers u).busyAt (s.stage u)

def pending (s : Race β) (u : Nat) : Option AuthorityEnvelope :=
  (s.handlers u).pendingAt (s.stage u)

/-- What a step needs in order not to undo anything: a recovery starts from a file whose
fresh authority is not older than the stored one and overtakes no mutation that has passed
the gate with an older envelope; and the epoch that a loss ends is not the last one. -/
def Guarded (s : Race β) (t : Nat) : Prop :=
  match s.handlers t, s.stage t with
  | .loss _, .waiting => s.holder = none → s.authority.epoch.value.toNat < 2 ^ 64 - 1
  | .recover path nowNs, .waiting => ∀ snap, Fabric.recorded s.files path = some snap →
      s.authority.triple ≤
          (Fabric.recoveredAuthority snap.epoch (Fabric.workerBootNonce nowNs)).triple ∧
        ∀ u m, s.pending u = some m →
          (Fabric.recoveredAuthority snap.epoch (Fabric.workerBootNonce nowNs)).triple ≤ m.triple
  | _, _ => True

/-- The step takes the authority back to the baseline of its epoch, from above it. -/
def Resets (s : Race β) (t : Nat) : Prop :=
  match s.handlers t, s.stage t with
  | .loss _, .entered | .recover _ _, .entered =>
      ¬(s.authority.boot.value = 0 ∧ s.authority.generation.value = 0)
  | _, _ => False

/-- Only the holder of the mutex is on its way, and its envelope is not older than what is
stored. -/
structure Sound (s : Race β) : Prop where
  alone : ∀ u, s.busy u = true → s.holder = some u
  newer : ∀ u m, s.pending u = some m → s.authority.triple ≤ m.triple

omit [StorageBackend β] in
theorem sound_start {s : Race β} (hstart : ∀ u, s.stage u = .waiting) : Sound s where
  alone u hu := by
    rw [busy, hstart u, Handler.busyAt_waiting] at hu
    cases hu
  newer u m hm := by
    have hbusy := Handler.busyAt_of_pendingAt hm
    rw [hstart u, Handler.busyAt_waiting] at hbusy
    cases hbusy

omit [StorageBackend β] in
/-- A handler goes on: it takes the mutex or has it, or it leaves the mutex alone and
stores nothing above what others are about to store. -/
theorem Sound.next {s s' : Race β} {t : Nat} (h : Sound s) (hhandlers : s'.handlers = s.handlers)
    (hstage : ∀ u, u ≠ t → s'.stage u = s.stage u)
    (hothers : (s.holder = none ∨ s.busy t = true) ∨ (s'.holder = s.holder ∧
      ∀ u m, s.pending u = some m → s'.authority.triple ≤ m.triple))
    (halone : s'.busy t = true → s'.holder = some t)
    (hnewer : ∀ m, s'.pending t = some m → s'.authority.triple ≤ m.triple) : Sound s' := by
  have hbusy : ∀ u, u ≠ t → s'.busy u = s.busy u := fun u hu => by
    rw [busy, busy, hhandlers, hstage u hu]
  have hpending : ∀ u, u ≠ t → s'.pending u = s.pending u := fun u hu => by
    rw [pending, pending, hhandlers, hstage u hu]
  -- nobody else is on its way while `t` has the mutex
  have hidle : (s.holder = none ∨ s.busy t = true) → ∀ u, u ≠ t → s.busy u ≠ true := by
    rintro (hfree | hown) u hu hother
    · rw [h.alone u hother] at hfree
      cases hfree
    · exact hu (Option.some.inj ((h.alone u hother).symm.trans (h.alone t hown)))
  constructor
  · intro u hu
    by_cases heq : u = t
    · exact heq ▸ halone (heq ▸ hu)
    · rw [hbusy u heq] at hu
      obtain hmine | ⟨hsame, -⟩ := hothers
      · exact absurd hu (hidle hmine u heq)
      · rw [hsame]
        exact h.alone u hu
  · intro u m hm
    by_cases heq : u = t
    · exact hnewer m (heq ▸ hm)
    · rw [hpending u heq] at hm
      obtain hmine | ⟨-, hle⟩ := hothers
      · exact absurd (Handler.busyAt_of_pendingAt hm) (hidle hmine u heq)
      · exact hle u m hm

omit [StorageBackend β] in
theorem Sound.leave {s s' : Race β} {t : Nat} (h : Sound s) (hhandlers : s'.handlers = s.handlers)
    (hstage : ∀ u, u ≠ t → s'.stage u = s.stage u)
    (hothers : (s.holder = none ∨ s.busy t = true) ∨ (s'.holder = s.holder ∧
      ∀ u m, s.pending u = some m → s'.authority.triple ≤ m.triple))
    (hdone : s'.busy t = false) : Sound s' := by
  refine h.next hhandlers hstage hothers (fun hbusy => ?_) fun m hm => ?_
  · rw [hdone] at hbusy
    cases hbusy
  · have hbusy : s'.busy t = true := Handler.busyAt_of_pendingAt hm
    rw [hdone] at hbusy
    cases hbusy

omit [StorageBackend β] in
theorem stage_goto_ne {s : Race β} {t u : Nat} (h : u ≠ t) (stage : Stage) (c : Coordinator β) :
    (s.goto t stage c).stage u = s.stage u :=
  Function.update_of_ne h _ _

omit [StorageBackend β] in
theorem busy_goto (s : Race β) (t : Nat) (stage : Stage) (c : Coordinator β) :
    (s.goto t stage c).busy t = (s.handlers t).busyAt stage := by
  rw [busy, stage_goto]
  rfl

omit [StorageBackend β] in
theorem pending_goto (s : Race β) (t : Nat) (stage : Stage) (c : Coordinator β) :
    (s.goto t stage c).pending t = (s.handlers t).pendingAt stage := by
  rw [pending, stage_goto]
  rfl

omit [StorageBackend β] in
theorem Sound.enter {s : Race β} (h : Sound s) {t : Nat} {incoming : AuthorityEnvelope}
    (hpending : (s.handlers t).pendingAt .entered = some incoming) : Sound (s.enter t incoming) := by
  unfold Race.enter
  split
  · exact h
  · next hfree =>
      have hnone : s.holder = none := by simpa using hfree
      split
      · next hnewer =>
          refine h.next (t := t) rfl (fun u hu => stage_goto_ne hu _ _) (.inl (.inl hnone))
            (fun _ => rfl) fun m hm => ?_
          rw [pending_goto, show (s.lock t).handlers t = s.handlers t from rfl, hpending] at hm
          obtain rfl := Option.some.inj hm
          exact (AuthorityEnvelope.isStrictlyNewerThan_iff.mp hnewer).le
      · exact h.leave (t := t) rfl (fun u hu => stage_goto_ne hu _ _) (.inl (.inl hnone))
          ((busy_goto ..).trans (Handler.busyAt_done _))

theorem Sound.publish {s : Race β} (h : Sound s) {t : Nat} {req : CreateRequest}
    (hhandler : s.handlers t = .create req) (hstage : s.stage t = .entered) :
    Sound (s.publish t req) := by
  have hbusy : s.busy t = true := by rw [busy, hhandler, hstage]; rfl
  have hpending : s.pending t = some req.incoming := by rw [pending, hhandler, hstage]; rfl
  have hauthority := authority_publish s t req
  unfold Race.publish at hauthority ⊢
  split at hauthority
  · exact h.leave (t := t) rfl (fun u hu => stage_goto_ne hu _ _) (.inl (.inr hbusy))
      ((busy_goto ..).trans (Handler.busyAt_done _))
  · split at hauthority
    · exact h.leave (t := t) rfl (fun u hu => stage_goto_ne hu _ _) (.inl (.inr hbusy))
        ((busy_goto ..).trans (Handler.busyAt_done _))
    · refine h.next (t := t) rfl (fun u hu => stage_goto_ne hu _ _) (.inl (.inr hbusy))
        (fun _ => h.alone t hbusy) fun m hm => ?_
      rw [pending_goto, hhandler] at hm
      obtain rfl : req.incoming = m := Option.some.inj hm
      rw [hauthority]
      exact h.newer t _ hpending

theorem Sound.step {s : Race β} (h : Sound s) {t : Nat} (hguard : s.Guarded t) :
    Sound (s.step t) := by
  have hbusy : ∀ {k : Handler} {stage : Stage}, s.handlers t = k → s.stage t = stage →
      s.busy t = k.busyAt stage := by
    rintro k stage rfl rfl
    rfl
  unfold Guarded at hguard
  unfold Race.step
  cases hhandler : s.handlers t with
  | create req =>
      cases hstage : s.stage t with
      | waiting => exact h.enter (by rw [hhandler]; rfl)
      | entered => exact h.publish hhandler hstage
      | published =>
          exact h.leave (t := t) rfl (fun u hu => stage_goto_ne hu _ _)
            (.inl (.inr (hbusy hhandler hstage))) ((busy_goto ..).trans (Handler.busyAt_done _))
      | done => exact h
  | commit incoming =>
      cases hstage : s.stage t with
      | waiting => exact h.enter (by rw [hhandler]; rfl)
      | entered =>
          exact h.leave (t := t) rfl (fun u hu => stage_goto_ne hu _ _)
            (.inl (.inr (hbusy hhandler hstage))) ((busy_goto ..).trans (Handler.busyAt_done _))
      | published => exact h
      | done => exact h
  | loss boot =>
      cases hstage : s.stage t with
      | waiting =>
          show Sound (if s.holder.isSome then s else _)
          split
          · exact h
          · next hfree =>
              -- the mutex is free, so no mutation is on its way when the epoch advances
              refine h.next (t := t) rfl (fun u hu => stage_goto_ne hu _ _)
                (.inl (.inl (by simpa using hfree))) (fun _ => rfl) fun m hm => ?_
              rw [pending_goto, show (s.lock t).handlers t = s.handlers t from rfl, hhandler] at hm
              cases hm
      | entered =>
          exact h.leave (t := t) rfl (fun u hu => stage_goto_ne hu _ _)
            (.inl (.inr (hbusy hhandler hstage))) ((busy_goto ..).trans (Handler.busyAt_done _))
      | published => exact h
      | done => exact h
  | recover path nowNs =>
      have hidle : ∀ stage, (s.handlers t).busyAt stage = false := by
        intro stage
        rw [hhandler]
        rfl
      cases hstage : s.stage t with
      | waiting =>
          rw [hhandler, hstage] at hguard
          refine h.leave (t := t) rfl (fun u hu => stage_goto_ne hu _ _)
            (.inr ⟨rfl, fun u m hm => ?_⟩) ((busy_goto ..).trans (hidle _))
          show (s.c.sf.recover path s.files nowNs).2.authority.triple ≤ m.triple
          obtain ⟨snap, hfile, heq⟩ | ⟨-, -, hsame⟩ :=
            Fabric.recover_cases s.c.sf path s.files nowNs
          · rw [heq]
            -- the guard is on the file: no envelope on its way is older
            exact (hguard snap hfile).2 u m hm
          · rw [hsame]
            exact h.newer u m hm
      | entered =>
          refine h.leave (t := t) rfl (fun u hu => stage_goto_ne hu _ _)
            (.inr ⟨rfl, fun u m hm => ?_⟩) ((busy_goto ..).trans (hidle _))
          exact le_trans (baseline_le s.authority) (h.newer u m hm)
      | published => exact h
      | done => exact h

/-- Of the steps that are guarded only a reset takes the authority back. -/
theorem Sound.resets_iff {s : Race β} (h : Sound s) {t : Nat} (hguard : s.Guarded t) :
    s.Resets t ↔ ¬s.authority.triple ≤ (s.step t).authority.triple := by
  rw [authority_step]
  unfold Guarded at hguard
  unfold Resets stores
  cases hhandler : s.handlers t with
  | create req =>
      cases hstage : s.stage t with
      -- what is stored passed the gate, and nothing older was stored since
      | published => simpa using h.newer t _ (by rw [pending, hhandler, hstage]; rfl)
      | _ => simp
  | commit incoming =>
      cases hstage : s.stage t with
      | entered => simpa using h.newer t _ (by rw [pending, hhandler, hstage]; rfl)
      | _ => simp
  | loss boot =>
      cases hstage : s.stage t with
      | waiting =>
          rw [hhandler, hstage] at hguard
          cases hholder : s.holder with
          | none => simpa [le_next_iff] using hguard hholder
          | some u => simp
      | entered => simp [le_baseline_iff]
      | _ => simp
  | recover path nowNs =>
      cases hstage : s.stage t with
      | waiting =>
          rw [hhandler, hstage] at hguard
          dsimp only
          cases hfile : Fabric.recorded s.files path with
          | none => simp
          | some snap => simpa using (hguard snap hfile).1
      | entered => simp [le_baseline_iff]
      | _ => simp

omit [StorageBackend β] in
theorem Resets.stores {s : Race β} {t : Nat} (h : s.Resets t) :
    s.stores t = some (Coordinator.baseline s.authority.epoch) := by
  unfold Resets at h
  split at h
  · next hhandler hstage => rw [Race.stores, hhandler, hstage]
  · next hhandler hstage => rw [Race.stores, hhandler, hstage]
  · exact h.elim

theorem Sound.epoch_le {s : Race β} (h : Sound s) {t : Nat} (hguard : s.Guarded t) :
    s.authority.epoch.value ≤ (s.step t).authority.epoch.value := by
  by_cases hreset : s.Resets t
  · rw [authority_step, hreset.stores]
    exact UInt64.le_refl _
  · exact AuthorityEnvelope.epoch_le_of_triple_le
      (not_not.mp fun hnot => hreset ((h.resets_iff hguard).mpr hnot))

theorem handlers_step (s : Race β) (t : Nat) : (s.step t).handlers = s.handlers := by
  have henter : ∀ incoming, (s.enter t incoming).handlers = s.handlers := by
    intro incoming
    unfold enter
    split
    · rfl
    · split <;> rfl
  unfold step
  cases s.handlers t with
  | create req =>
      cases s.stage t with
      | waiting => exact henter req.incoming
      | entered =>
          show (s.publish t req).handlers = s.handlers
          unfold publish
          split
          · rfl
          · split <;> rfl
      | _ => rfl
  | commit incoming =>
      cases s.stage t with
      | waiting => exact henter incoming
      | _ => rfl
  | loss boot =>
      cases s.stage t with
      | waiting =>
          dsimp only [advance]
          split <;> rfl
      | _ => rfl
  | recover path nowNs => cases s.stage t <;> rfl

/-- In a run of guarded steps the authority at the end is not older than any that was
stored before exactly if whatever was reset is overtaken later, by an envelope or a fresh
authority that is not older; its epoch is never below an earlier one; and a handler that
then runs by itself does what the coordinator's own one does. -/
theorem end_not_older_iff {s : Race β} (hstart : ∀ u, s.stage u = .waiting) {ts : List Nat}
    (hts : Runs.Along step Guarded s ts) :
    (Runs.EndsHigh step (fun s => s.authority.triple) s ts ↔
      Runs.Overtaken step (fun s => s.authority.triple) Resets
        (fun s t => (s.stores t).map AuthorityEnvelope.triple) s ts) ∧
    Runs.EndsHigh step (fun s => s.authority.epoch.value.toNat) s ts ∧
    let last := Runs.run step s ts
    ∀ t payload env, last.stage t = .waiting → last.holder = none →
      Carries last.c (last.handlers t) payload →
      (Runs.run step last [t, t, t]).c = serve last.c env last.files (last.handlers t) payload := by
  have hstep : ∀ (s : Race β) t, Sound s → s.Guarded t → Sound (s.step t) :=
    fun _ _ h hguard => h.step hguard
  refine ⟨?_, ?_, fun t payload env hwaiting hfree hcarries =>
    run_alone hcarries hwaiting hfree env⟩
  · refine Runs.endsHigh_iff (I := Sound) (fun s t => ?_) hstep
      (fun _ _ h hguard => h.resets_iff hguard) (sound_start hstart) hts
    rw [authority_step]
    cases s.stores t <;> rfl
  · exact Runs.endsHigh_of_le hstep
      (fun _ _ h hguard => UInt64.le_iff_toNat_le.mp (h.epoch_le hguard)) (sound_start hstart) hts

/-- A dispatch under `incoming` and a recovery of the metadata as they are. -/
def dispatchAndRecovery (incoming : AuthorityEnvelope) : Race SyntheticBackend :=
  let c := Coordinator.start [] (ascii "root") ({}, .ok {})
  { c
    files := (c.sf.save (ascii "m") .none ∅).2.2
    handlers := fun t => if t = 0 then .commit incoming else .recover (ascii "m") 0 }

omit [StorageBackend β] in
theorem guarded_of_commit {s : Race β} {t : Nat} {m : AuthorityEnvelope}
    (hhandler : s.handlers t = .commit m) : s.Guarded t ∧ ¬s.Resets t := by
  unfold Guarded Resets
  rw [hhandler]
  cases s.stage t <;> exact ⟨trivial, id⟩

def newerEnvelope : AuthorityEnvelope := { epoch := ⟨3⟩, boot := ⟨1⟩, generation := ⟨1⟩ }

set_option maxRecDepth 20000 in
/-- The dispatch passes the gate, the recovery runs, and the dispatch stores an envelope of
a newer epoch. -/
theorem end_not_older_newer :
    Runs.EndsHigh step (fun s => s.authority.triple) (dispatchAndRecovery newerEnvelope)
      [0, 1, 1, 0] := by
  have hrun : ((dispatchAndRecovery newerEnvelope).step 0).stage 1 = .waiting ∧
      (((dispatchAndRecovery newerEnvelope).step 0).step 1).stage 1 = .entered ∧
      ((((dispatchAndRecovery newerEnvelope).step 0).step 1).step 1).stage 0 = .entered ∧
      (Fabric.recorded ((dispatchAndRecovery newerEnvelope).step 0).files (ascii "m")).all
        (fun snap => decide (((dispatchAndRecovery newerEnvelope).step 0).authority.triple ≤
            (Fabric.recoveredAuthority snap.epoch (Fabric.workerBootNonce 0)).triple ∧
          (Fabric.recoveredAuthority snap.epoch (Fabric.workerBootNonce 0)).triple ≤
            newerEnvelope.triple)) = true ∧
      (((dispatchAndRecovery newerEnvelope).step 0).step 1).authority.triple ≤
        newerEnvelope.triple := by
    decide +kernel
  have hstart : ∀ u, (dispatchAndRecovery newerEnvelope).stage u = .waiting := fun _ => rfl
  have hhandlers : (dispatchAndRecovery newerEnvelope).handlers = fun t =>
      if t = 0 then .commit newerEnvelope else .recover (ascii "m") 0 := rfl
  generalize dispatchAndRecovery newerEnvelope = s at hrun hstart hhandlers ⊢
  obtain ⟨hwaiting, hentered, hdispatch, hfile, hover⟩ := hrun
  have h1 : (s.step 0).handlers = s.handlers := handlers_step s 0
  have h2 : ((s.step 0).step 1).handlers = s.handlers := (handlers_step _ 1).trans h1
  have h3 : (((s.step 0).step 1).step 1).handlers = s.handlers := (handlers_step _ 1).trans h2
  have hcommit : ∀ {r : Race SyntheticBackend}, r.handlers = s.handlers →
      r.Guarded 0 ∧ ¬r.Resets 0 := fun hr =>
    guarded_of_commit (m := newerEnvelope) (by rw [hr, hhandlers]; rfl)
  have hrecover : ∀ {r : Race SyntheticBackend} {u}, r.handlers = s.handlers → u ≠ 0 →
      r.handlers u = .recover (ascii "m") 0 := fun hr hu => by rw [hr, hhandlers]; exact if_neg hu
  have hguarded : (s.step 0).Guarded 1 ∧ ¬(s.step 0).Resets 1 := by
    unfold Guarded Resets
    rw [hrecover h1 Nat.one_ne_zero, hwaiting]
    refine ⟨fun snap hsnap => ?_, id⟩
    rw [hsnap] at hfile
    obtain ⟨hle, hpending⟩ := of_decide_eq_true hfile
    refine ⟨hle, fun u m hm => ?_⟩
    by_cases hu : u = 0
    · subst hu
      rw [pending, h1, hhandlers] at hm
      change (Handler.commit newerEnvelope).pendingAt ((s.step 0).stage 0) = some m at hm
      obtain rfl : newerEnvelope = m := by
        cases hstage : (s.step 0).stage 0 <;> rw [hstage] at hm <;> cases hm
        rfl
      exact hpending
    · rw [pending, hrecover h1 hu] at hm
      cases hm
  have hreset : ((s.step 0).step 1).Guarded 1 := by
    unfold Guarded
    rw [hrecover h2 Nat.one_ne_zero, hentered]
    trivial
  have hstores : (((s.step 0).step 1).step 1).stores 0 = some newerEnvelope := by
    unfold stores
    rw [h3, hhandlers, hdispatch]
    rfl
  have halong : Runs.Along step Guarded s [0, 1, 1, 0] :=
    ⟨(hcommit rfl).1, hguarded.1, hreset, (hcommit h3).1, trivial⟩
  -- the recovery puts an older authority, and the dispatch stores a newer one after it
  refine (end_not_older_iff hstart halong).1.mpr ⟨fun h => absurd h (hcommit rfl).2,
    fun h => absurd h hguarded.2, fun _ => ?_, fun h => absurd h (hcommit h3).2, trivial⟩
  exact ⟨_, List.mem_cons_self, _, congrArg (Option.map AuthorityEnvelope.triple) hstores, hover⟩

/-- A dispatch of the first epoch. -/
def lostUpdate : Race SyntheticBackend :=
  dispatchAndRecovery { epoch := ⟨1⟩, boot := ⟨1⟩, generation := ⟨1⟩ }

set_option maxRecDepth 20000 in
/-- The dispatch passes the gate, the recovery runs, and the dispatch stores its
envelope over the new epoch. -/
theorem recovery_undone :
    ¬Runs.EndsHigh step (fun s => s.authority.triple) lostUpdate [0, 1, 1, 0] := by
  intro h
  have hlast := Runs.EndsHigh.le_of_prefix [0, 1, 1] [0] h
  have hrun : (Runs.run step lostUpdate [0, 1, 1]).authority.epoch.value = 2 ∧
      (Runs.run step lostUpdate ([0, 1, 1] ++ [0])).authority.epoch.value = 1 := by
    decide +kernel
  have hle := AuthorityEnvelope.epoch_le_of_triple_le hlast
  rw [hrun.1, hrun.2] at hle
  exact absurd hle (by decide)

end Authority

end Race

end StorageFabric
