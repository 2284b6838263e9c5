import StorageFabric.Lib.Runs
import StorageFabric.Model.Authority
import StorageFabric.Runtime.Outcome
import StorageFabric.Tools.Worker

/-!
What a step of the coordinator does to the stored authority, and the monotonicity
of the fence.

Every step is an accepted mutation, a loss, a recovery, or leaves the authority
alone (`step_authority`); nothing after that looks into the handlers.
-/

namespace StorageFabric

namespace Fabric

variable {β : Type}

/-! ### The runtime operations and the authority -/

theorem authority_defineObject (f : Fabric β) (kind : EnumValue ObjectKind) (size : UInt64)
    (content : Bytes) (writer : AuthorityEnvelope) (durability : DurabilityRequirement)
    (priority : EnumValue RestorePriority) :
    (f.defineObject kind size content writer durability priority).2.authority = f.authority := by
  unfold defineObject
  split
  · rfl
  · split
    · rfl
    · dsimp only
      split <;> rfl

theorem authority_save (f : Fabric β) (path : Bytes) (fault : SaveFault)
    (files : Table Bytes Bytes) : (f.save path fault files).2.1.authority = f.authority := by
  unfold save
  split
  · rfl
  · cases fault <;> rfl

theorem authority_commitPlacement (f : Fabric β) (guard : ReservationGuard) (obj : ObjectDescriptor)
    (backend : StorageBackendId) (auth : AuthorityEnvelope) (opts : PublishOptions)
    (man : Manifest) :
    (f.commitPlacement guard obj backend auth opts man).2.2.authority = f.authority := by
  unfold commitPlacement
  dsimp only
  split
  · rfl
  · split
    · rfl
    · split
      · rfl
      · split
        · rfl
        · split <;> rfl

section Backend

variable [StorageBackend β]

theorem authority_read (f : Fabric β) (object : ObjectId) (placement : Option PlacementId) :
    (f.read object placement).2.authority = f.authority := by
  unfold read
  split
  · rfl
  · dsimp only
    split
    · rfl
    · split
      · rfl
      · split <;> rfl

theorem authority_verify (f : Fabric β) (placement : PlacementId) :
    (f.verify placement).2.authority = f.authority := by
  unfold verify
  split
  · rfl
  · split
    · rfl
    · split
      · rfl
      · split
        · rfl
        · dsimp only
          split <;> rfl

theorem authority_publishReserved (f : Fabric β) (guard : ReservationGuard)
    (obj : ObjectDescriptor) (content : Bytes) (backend : StorageBackendId)
    (auth : AuthorityEnvelope) (opts : PublishOptions) :
    (f.publishReserved guard obj content backend auth opts).2.2.authority = f.authority := by
  have hbook := book_chunkLoop backend opts.dedupe (chunkLength obj opts) content.length 0 content
    f.allocManifestId.2
  unfold publishReserved
  dsimp only
  rcases hloop : chunkLoop backend opts.dedupe (chunkLength obj opts) content.length 0 content
    f.allocManifestId.2 with ⟨rc, g⟩
  rw [hloop] at hbook
  have hg : g.authority = f.authority := congrArg Book.authority hbook
  cases rc with
  | error s => exact hg
  | ok chunks =>
      dsimp only
      split
      · exact hg
      · split
        · exact hg
        · split
          · exact hg
          · rw [authority_commitPlacement]
            exact hg

theorem authority_publishTo (f : Fabric β) (obj : ObjectDescriptor) (content : Bytes)
    (backend : StorageBackendId) (opts : PublishOptions) :
    (f.publishTo obj content backend opts).2.authority = f.authority := by
  unfold publishTo
  dsimp only
  split
  · rfl
  · split
    · rfl
    · split
      · rfl
      · split
        · rfl
        · split
          · rfl
          · exact authority_publishReserved _ _ _ _ _ _ _

end Backend

end Fabric

/-! ### The handlers -/

namespace Coordinator

variable {β : Type}

theorem authority_registerBackend (c : Coordinator β) (boot : WorkerBootId) (env : Env β)
    (payload : Bytes) : (c.registerBackend boot env payload).2.sf.authority = c.sf.authority := by
  unfold registerBackend
  split <;> rfl

theorem authority_saveMetadata (c : Coordinator β) (env : Env β) (payload : Bytes)
    (files : Table Bytes Bytes) :
    (c.saveMetadata env payload files).2.1.sf.authority = c.sf.authority := by
  unfold saveMetadata
  split
  · rfl
  · dsimp only
    split <;> exact Fabric.authority_save _ _ _ _

/-- A request to dispatch is refused and leaves the authority, or its envelope passes
the gate and becomes the authority. -/
theorem commit_cases (c : Coordinator β) (payload : Bytes) :
    ((c.commit payload).1.isOk = false ∧
      (c.commit payload).2.sf.authority = c.sf.authority) ∨
    (∃ incoming command rest, readCommit.run payload = some ((incoming, command), rest) ∧
      incoming.isStrictlyNewerThan c.sf.authority = true ∧
      (c.commit payload).1.isOk = true ∧ (c.commit payload).2.sf.authority = incoming) := by
  unfold commit
  cases hread : readCommit.run payload with
  | none => exact .inl ⟨rfl, rfl⟩
  | some r =>
      obtain ⟨⟨incoming, command⟩, rest⟩ := r
      dsimp only
      cases hgate : incoming.isStrictlyNewerThan c.sf.authority with
      | false => exact .inl ⟨rfl, rfl⟩
      | true => exact .inr ⟨incoming, command, rest, rfl, hgate, rfl, rfl⟩

section Backend

variable [StorageBackend β]

theorem authority_readObject (c : Coordinator β) (payload : Bytes) :
    (c.readObject payload).2.sf.authority = c.sf.authority := by
  unfold readObject
  split
  · rfl
  · next oid _ _ =>
      have h := Fabric.authority_read c.sf ⟨oid.toNat⟩ none
      split <;> next heq => rwa [heq] at h

theorem authority_verify (c : Coordinator β) (payload : Bytes) :
    (c.verify payload).2.sf.authority = c.sf.authority := by
  unfold verify
  split
  · rfl
  · next pid _ _ =>
      have h := Fabric.authority_verify c.sf ⟨pid.toNat⟩
      split <;> next heq => rwa [heq] at h

theorem createObject_cases (c : Coordinator β) (payload : Bytes) :
    ((c.createObject payload).1.isOk = false ∧
      (c.createObject payload).2.sf.authority = c.sf.authority) ∨
    (∃ req rest, readCreate.run payload = some (req, rest) ∧
      req.incoming.isStrictlyNewerThan c.sf.authority = true ∧
      (c.createObject payload).1.isOk = true ∧
      (c.createObject payload).2.sf.authority = req.incoming) := by
  unfold createObject
  cases hread : readCreate.run payload with
  | none => exact .inl ⟨rfl, rfl⟩
  | some r =>
      obtain ⟨req, rest⟩ := r
      dsimp only
      cases hgate : req.incoming.isStrictlyNewerThan c.sf.authority with
      | false => exact .inl ⟨rfl, rfl⟩
      | true =>
          have hdefine := Fabric.authority_defineObject c.sf req.kind req.size req.content
            req.incoming { minReplicas := 1 } (.known .high)
          rw [if_pos rfl]
          split
          · next heq =>
              rw [heq] at hdefine
              exact .inl ⟨rfl, hdefine⟩
          · next obj sf heq =>
              rw [heq] at hdefine
              -- neither the definition nor the publication touches the authority
              have hpublish := Fabric.authority_publishTo sf obj req.content c.defaultBackend
                (createOptions req.incoming)
              split
              · next heq' =>
                  rw [heq'] at hpublish
                  exact .inl ⟨rfl, hpublish.trans hdefine⟩
              · exact .inr ⟨req, rest, rfl, hgate, rfl, rfl⟩

end Backend

end Coordinator

def Frame.envelope (f : Frame) : Option AuthorityEnvelope :=
  match f.kind with
  | .createObject => (readCreate.run f.payload).map fun r => r.1.incoming
  | .commit => (readCommit.run f.payload).map fun r => r.1.1
  | _ => none

theorem Frame.envelope_of_kind {f : Frame} (h : f.kind ≠ .createObject ∧ f.kind ≠ .commit) :
    f.envelope = none := by
  unfold Frame.envelope
  split
  · next hkind => exact absurd hkind h.1
  · next hkind => exact absurd hkind h.2
  · rfl

def Event.isRecover {β : Type} : Event β → Bool
  | .frame _ f _ => f.kind = .recover
  | .lost _ => false

namespace Process

variable {β : Type}

/-! ### Steps -/

/-- The connection that a request is served on, with the envelope that it carries. -/
def carried (p : Process β) : Event β → Option (Connection × AuthorityEnvelope)
  | .frame conn f _ =>
      match p.connections.lookup conn with
      | none => none
      | some k => if k.closing then none else f.envelope.map fun a => (k, a)
  | .lost _ => none

def loses (p : Process β) : Event β → Option Connection
  | .frame _ _ _ => none
  | .lost conn => p.connections.lookup conn

def stale (p : Process β) (e : Event β) : Option AuthorityEnvelope :=
  ((p.carried e).filter fun r => !r.2.isStrictlyNewerThan p.authority).map Prod.snd

theorem authority_hello (p : Process β) (conn : Nat) (f : Frame) (nowNs : UInt64) :
    (p.hello conn f nowNs).2.authority = p.authority := by
  unfold hello
  split
  · rfl
  · split <;> rfl

theorem authority_drop {p : Process β} {conn : Nat} {k : Connection}
    (h : p.connections.lookup conn = some k) :
    (p.drop conn).authority = Coordinator.baseline p.authority.epoch.next := by
  rw [drop, h]
  rfl

theorem stale_spec {p : Process β} {e : Event β} {a : AuthorityEnvelope}
    (h : p.stale e = some a) : a.triple ≤ p.authority.triple := by
  obtain ⟨r, hr, rfl⟩ := Option.map_eq_some_iff.mp h
  obtain ⟨-, hgate⟩ := Option.filter_eq_some_iff.mp hr
  rw [← not_lt, ← AuthorityEnvelope.isStrictlyNewerThan_iff]
  simpa using hgate

section Backend

variable [StorageBackend β]

/-- The mutation of a connection that is accepted: its request is answered with
success. -/
def accepts (p : Process β) : Event β → Option (Connection × AuthorityEnvelope)
  | .frame conn f env =>
      (p.carried (.frame conn f env)).filter fun _ => (p.receive conn f env).1.any Frame.isOk
  | .lost _ => none

/-- The envelope of an accepted mutation. -/
def accepted (p : Process β) (e : Event β) : Option AuthorityEnvelope :=
  (p.accepts e).map Prod.snd

/-- An accepted mutation has passed the gate, and its envelope is the authority
after it. -/
structure Accepted (p : Process β) (e : Event β) (k : Connection) (a : AuthorityEnvelope) :
    Prop where
  carried : p.carried e = some (k, a)
  newer : p.authority.triple < a.triple
  authority : (p.step e).authority = a

/-- What a step does to the authority, if it is no recovery. -/
inductive AuthorityStep (p : Process β) (e : Event β) : Prop
  | mutation (k : Connection) (a : AuthorityEnvelope) (haccepts : p.accepts e = some (k, a))
      (hloses : p.loses e = none) (h : p.Accepted e k a)
  | loss (k : Connection) (haccepts : p.accepts e = none) (hloses : p.loses e = some k)
      (h : (p.step e).authority = Coordinator.baseline p.authority.epoch.next)
  | other (haccepts : p.accepts e = none) (hloses : p.loses e = none)
      (h : (p.step e).authority = p.authority)

theorem authority_request {p : Process β} {conn : Nat} {k : Connection} {f : Frame} {env : Env β}
    (hrecover : f.kind ≠ .recover) (henvelope : f.kind ≠ .createObject ∧ f.kind ≠ .commit) :
    (p.request conn k f env).2.authority = p.authority := by
  unfold request
  cases hkind : f.kind with
  | registerBackend => exact Coordinator.authority_registerBackend _ _ _ _
  | readObject => exact Coordinator.authority_readObject _ _
  | verify => exact Coordinator.authority_verify _ _
  | publish => exact Coordinator.authority_saveMetadata _ _ _ _
  | createObject => exact absurd hkind henvelope.1
  | commit => exact absurd hkind henvelope.2
  | recover => exact absurd hkind hrecover
  | _ => rfl

theorem authorityStep_mutation {p : Process β} {conn : Nat} {k : Connection} {f : Frame}
    {env : Env β} (hconn : p.connections.lookup conn = some k) (hopen : k.closing = false)
    {r : Frame × Coordinator β} (hreceive : p.receive conn f env = p.reply r)
    (hcases : (r.1.isOk = false ∧ r.2.sf.authority = p.authority) ∨
      ∃ a, f.envelope = some a ∧ a.isStrictlyNewerThan p.authority = true ∧ r.1.isOk = true ∧
        r.2.sf.authority = a) : p.AuthorityStep (.frame conn f env) := by
  have hstep : (p.step (.frame conn f env)).authority = r.2.sf.authority := by
    rw [step, hreceive]
    rfl
  have hreply : (p.receive conn f env).1.any Frame.isOk = r.1.isOk := by
    rw [hreceive]
    rfl
  obtain ⟨hrefused, hsame⟩ | ⟨a, henvelope, hgate, hok, hauthority⟩ := hcases
  · refine .other ?_ rfl (hstep.trans hsame)
    rw [accepts, hreply, hrefused]
    cases p.carried (.frame conn f env) <;> rfl
  · have hcarried : p.carried (.frame conn f env) = some (k, a) := by
      simp only [carried, hconn, hopen, henvelope, Option.map_some, Bool.false_eq_true, if_false]
    refine .mutation k a ?_ rfl ⟨hcarried, ?_, hstep.trans hauthority⟩
    · rw [accepts, hreply, hok, hcarried]
      rfl
    · exact AuthorityEnvelope.isStrictlyNewerThan_iff.mp hgate

theorem step_authority (p : Process β) {e : Event β} (he : e.isRecover = false) :
    p.AuthorityStep e := by
  cases e with
  | lost conn =>
      cases hconn : p.connections.lookup conn with
      | none =>
          refine .other rfl hconn ?_
          rw [step, drop, hconn]
      | some k => exact .loss k rfl hconn (authority_drop hconn)
  | frame conn f env =>
      have hrecover : f.kind ≠ .recover := of_decide_eq_false he
      cases hconn : p.connections.lookup conn with
      | none =>
          refine .other ?_ rfl ?_
          · simp [accepts, carried, hconn]
          · rw [step, receive, hconn]
            exact authority_hello _ _ _ _
      | some k =>
          cases hopen : k.closing with
          | true =>
              refine .other ?_ rfl ?_
              · simp [accepts, carried, hconn, hopen]
              · simp only [step, receive, hconn, hopen, if_true]
          | false =>
              have hreceive : p.receive conn f env = p.request conn k f env := by
                simp only [receive, hconn, hopen, Bool.false_eq_true, if_false]
              -- two kinds carry an envelope; the others leave the authority alone
              by_cases hcreate : f.kind = .createObject
              · have hrequest : p.receive conn f env = p.reply (p.c.createObject f.payload) := by
                  simp only [hreceive, request, hcreate]
                refine authorityStep_mutation hconn hopen hrequest ?_
                obtain h | ⟨req, rest, hread, h⟩ := p.c.createObject_cases f.payload
                · exact .inl h
                · exact .inr ⟨req.incoming, by simp [Frame.envelope, hcreate, hread], h⟩
              by_cases hcommit : f.kind = .commit
              · have hrequest : p.receive conn f env = p.reply (p.c.commit f.payload) := by
                  simp only [hreceive, request, hcommit]
                refine authorityStep_mutation hconn hopen hrequest ?_
                obtain h | ⟨incoming, command, rest, hread, h⟩ := p.c.commit_cases f.payload
                · exact .inl h
                · exact .inr ⟨incoming, by simp [Frame.envelope, hcommit, hread], h⟩
              refine .other ?_ rfl ?_
              · simp [accepts, carried, hconn, hopen, Frame.envelope_of_kind ⟨hcreate, hcommit⟩]
              · rw [step, hreceive]
                exact authority_request hrecover ⟨hcreate, hcommit⟩

/-! ### Monotonicity -/

/-- The step neither recovers nor loses a connection in the last epoch. -/
def KeepsFence (p : Process β) (e : Event β) : Prop :=
  e.isRecover = false ∧ (p.loses e ≠ none → p.authority.epoch.value.toNat < 2 ^ 64 - 1)

instance (p : Process β) (e : Event β) : Decidable (p.KeepsFence e) := by
  unfold KeepsFence
  infer_instance

theorem triple_lt_baseline {a : AuthorityEnvelope} (h : a.epoch.value.toNat < 2 ^ 64 - 1) :
    a.triple < (Coordinator.baseline a.epoch.next).triple := by
  have hnext : a.epoch.next.value.toNat = (a.epoch.value.toNat + 1) % 2 ^ 64 :=
    UInt64.toNat_add a.epoch.value 1
  refine AuthorityEnvelope.triple_lt_iff.mpr (.inl (AuthorityEnvelope.incarnation_lt_iff.mpr
    (.inl ?_)))
  show a.epoch.value.toNat < a.epoch.next.value.toNat
  omega

/-- The authority goes up with an accepted mutation and with a loss. -/
theorem authority_lt {p : Process β} {e : Event β} (h : p.KeepsFence e)
    (he : p.accepts e ≠ none ∨ p.loses e ≠ none) :
    p.authority.triple < (p.step e).authority.triple := by
  cases p.step_authority h.1 with
  | mutation k a _ _ haccepted =>
      rw [haccepted.authority]
      exact haccepted.newer
  | loss k _ hloses heq =>
      rw [heq]
      exact triple_lt_baseline (h.2 (by rw [hloses]; exact Option.some_ne_none k))
  | other haccepts hloses _ => exact absurd he (by simp [haccepts, hloses])

theorem authority_le {p : Process β} {e : Event β} (h : p.KeepsFence e) :
    p.authority.triple ≤ (p.step e).authority.triple := by
  cases p.step_authority h.1 with
  | mutation k a haccepts _ _ => exact le_of_lt (authority_lt h (.inl (by simp [haccepts])))
  | loss k _ hloses _ => exact le_of_lt (authority_lt h (.inr (by simp [hloses])))
  | other _ _ heq => rw [heq]

theorem accepted_spec {p : Process β} {e : Event β} {a : AuthorityEnvelope}
    (he : e.isRecover = false) (h : p.accepted e = some a) :
    p.authority.triple < a.triple ∧ (p.step e).authority = a := by
  cases p.step_authority he with
  | mutation k b haccepts _ haccepted =>
      rw [accepted, haccepts] at h
      obtain rfl := Option.some.inj h
      exact ⟨haccepted.newer, haccepted.authority⟩
  | loss k haccepts _ _ => simp [accepted, haccepts] at h
  | other haccepts _ _ => simp [accepted, haccepts] at h

theorem epoch_lt_of_loses {p : Process β} {e : Event β} (h : p.KeepsFence e)
    (hloses : p.loses e ≠ none) :
    p.authority.epoch.value < (p.step e).authority.epoch.value := by
  cases p.step_authority h.1 with
  | mutation _ _ _ hnone _ => exact absurd hnone hloses
  | other _ hnone _ => exact absurd hnone hloses
  | loss k _ _ heq =>
      have hnext : p.authority.epoch.next.value.toNat = (p.authority.epoch.value.toNat + 1) % 2 ^ 64 :=
        UInt64.toNat_add p.authority.epoch.value 1
      have hroom := h.2 hloses
      rw [heq, UInt64.lt_iff_toNat_lt]
      show p.authority.epoch.value.toNat < p.authority.epoch.next.value.toNat
      omega

theorem pairwise_moments {p : Process β} {es : List (Event β)}
    (h : Runs.Along step KeepsFence p es) {R : Process β × Event β → Process β × Event β → Prop}
    (hR : ∀ x y : Process β × Event β, x.1.KeepsFence x.2 → y.1.KeepsFence y.2 →
      (x.1.step x.2).authority.triple ≤ y.1.authority.triple → R x y) :
    (Runs.trace step p es).Pairwise R := by
  refine Runs.pairwise_trace (P := KeepsFence)
    (J := fun x q => x.1.KeepsFence x.2 ∧
      (x.1.step x.2).authority.triple ≤ q.authority.triple) ?_ ?_ ?_ h
  · exact fun q e he => ⟨he, le_refl _⟩
  · exact fun x q e hx he => ⟨hx.1, le_trans hx.2 (authority_le he)⟩
  · exact fun x y hx hy => hR x y hx.1 hy hx.2

/-- Along a run without a recovery the authority goes up with every accepted
mutation and every loss. No triple is accepted twice, none that was stale once is
accepted later, and none of an epoch up to that of a loss is accepted after it. -/
theorem fencing_monotone (p : Process β) (es : List (Event β))
    (h : Runs.Along step KeepsFence p es) :
    (∀ x ∈ Runs.trace step p es, x.1.accepts x.2 ≠ none ∨ x.1.loses x.2 ≠ none →
      x.1.authority.triple < (x.1.step x.2).authority.triple) ∧
    (Runs.trace step p es).Pairwise (fun x y => ∀ a b, x.1.accepted x.2 = some a →
      y.1.accepted y.2 = some b → a.triple ≠ b.triple) ∧
    (Runs.trace step p es).Pairwise (fun x y => ∀ a b, x.1.stale x.2 = some a →
      y.1.accepted y.2 = some b → a.triple ≠ b.triple) ∧
    (Runs.trace step p es).Pairwise (fun x y => ∀ b, x.1.loses x.2 ≠ none →
      y.1.accepted y.2 = some b → x.1.authority.epoch.value < b.epoch.value) := by
  refine ⟨fun x hx => authority_lt (Runs.along_iff_trace.mp h x hx), ?_, ?_, ?_⟩
  · refine pairwise_moments h fun x y hx hy hle a b ha hb => ne_of_lt ?_
    obtain ⟨-, rfl⟩ := accepted_spec hx.1 ha
    exact lt_of_le_of_lt hle (accepted_spec hy.1 hb).1
  · refine pairwise_moments h fun x y hx hy hle a b ha hb => ne_of_lt ?_
    calc a.triple ≤ x.1.authority.triple := stale_spec ha
      _ ≤ (x.1.step x.2).authority.triple := authority_le hx
      _ ≤ y.1.authority.triple := hle
      _ < b.triple := (accepted_spec hy.1 hb).1
  · refine pairwise_moments h fun x y hx hy hle b hloses hb => ?_
    have hnewer := (accepted_spec hy.1 hb).1
    have hepoch := AuthorityEnvelope.epoch_le_of_triple_le (le_trans hle hnewer.le)
    exact UInt64.lt_of_lt_of_le (epoch_lt_of_loses hx hloses) hepoch

/-! ### Two workers

Two handshakes with the clock at zero, so that the boot ids are one and two. -/

def smallEnv : Env SyntheticBackend := { localBackend := fun _ => ({}, .ok {}) }

def smallProcess : Process SyntheticBackend := start [] (ascii "root") ({}, .ok {}) ∅

def handshakes : List (Event SyntheticBackend) :=
  [.frame 1 (helloFrame 7 []) smallEnv, .frame 2 (helloFrame 8 []) smallEnv]

def dispatch (conn : Nat) (epoch : UInt64) (boot : Nat) (gen : UInt64) : Event SyntheticBackend :=
  .frame conn (dispatchFrame { epoch := ⟨epoch⟩, boot := ⟨boot⟩, generation := ⟨gen⟩ } 5) smallEnv

/-- The first worker mutates and is lost; its envelope is replayed, and then comes
one of the new epoch. -/
def replayRun : List (Event SyntheticBackend) :=
  handshakes ++ [dispatch 1 1 1 1, .lost 1, dispatch 2 1 1 1, dispatch 2 2 2 1]

theorem fencing_monotone_replay :
    (Runs.trace step smallProcess replayRun).map (fun x => (x.1.accepted x.2).isSome) =
      [false, false, true, false, false, true] ∧
    (Runs.trace step smallProcess replayRun).Pairwise (fun x y => ∀ a b,
      x.1.accepted x.2 = some a → y.1.accepted y.2 = some b → a.triple ≠ b.triple) := by
  have hrun : Runs.Along step KeepsFence smallProcess replayRun := by decide +kernel
  exact ⟨by decide +kernel, (fencing_monotone smallProcess replayRun hrun).2.1⟩

end Backend

end Process

end StorageFabric
