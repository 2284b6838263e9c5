import StorageFabric.Runtime.Savable
import StorageFabric.Tools.Fencing

/-!
Whether the metadata of the coordinator can be recovered once it is saved.

The handlers take the kind of an object and the origin of an envelope as they
come. The decoder of the metadata does not, so a request that puts an undeclared
value into the state makes every later file unreadable. A step that lets no such
value in keeps the state savable.
-/

namespace StorageFabric

open ByteReader Codec Persist

/-! ### What a request brings -/

theorem yields_readAuthority :
    Yields readAuthority fun a => a.worker.value < 2 ^ 64 ∧ a.boot.value < 2 ^ 64 := by
  refine yields_any.bind fun ep _ => ?_
  refine yields_any.bind fun bo _ => ?_
  refine yields_any.bind fun wo _ => ?_
  refine yields_any.bind fun ge _ => ?_
  refine yields_any.bind fun ori _ => ?_
  exact yields_pure ⟨wo.toNat_lt, bo.toNat_lt⟩

theorem yields_readCreate :
    Yields readCreate fun r => r.incoming.worker.value < 2 ^ 64 ∧
      r.incoming.boot.value < 2 ^ 64 := by
  refine yields_readAuthority.bind fun incoming hincoming => ?_
  refine yields_any.bind fun kind _ => ?_
  refine yields_any.bind fun size _ => ?_
  refine yields_any.bind fun content _ => ?_
  exact yields_pure hincoming

theorem yields_readCommit :
    Yields readCommit fun r => r.1.worker.value < 2 ^ 64 ∧ r.1.boot.value < 2 ^ 64 := by
  refine yields_readAuthority.bind fun incoming hincoming => ?_
  refine yields_any.bind fun command _ => ?_
  exact yields_pure hincoming

theorem AuthorityEnvelope.storable_of_origin {a : AuthorityEnvelope}
    (h : a.worker.value < 2 ^ 64 ∧ a.boot.value < 2 ^ 64) (horigin : a.origin.Declared) :
    a.Storable := by
  refine ⟨?_, horigin⟩
  simp only [List.forall_mem_cons, List.not_mem_nil, IsEmpty.forall_iff, implies_true, and_true]
  exact ⟨h.2, h.1⟩

/-! ### The handlers -/

namespace Coordinator

variable {β : Type}

structure Savable (c : Coordinator β) : Prop where
  tables : c.sf.Savable
  authority : c.sf.authority.Storable

theorem storable_baseline (epoch : CoordinatorEpoch) : (baseline epoch).Storable :=
  ⟨fun n hn => by simp [baseline] at hn; omega, trivial⟩

theorem savable_start (metadataPath coordRoot : Bytes) (localBackend : β × Result BackendCapacity) :
    (start metadataPath coordRoot localBackend).Savable := by
  have hempty : (({} : Fabric β).setAuthority (baseline ⟨1⟩)).Savable :=
    Fabric.savable_empty.of_views ⟨rfl, rfl, rfl⟩
  have hone : 1 ≤ 2 ^ 64 := by decide
  have htwo : 2 ≤ 2 ^ 64 := by decide
  exact ⟨hempty.registerLocalBackend _ _ _ _ ⟨htwo, htwo, hone, hone, hone, hone, hone⟩,
    storable_baseline _⟩

theorem Savable.onWorkerLoss {c : Coordinator β} (h : c.Savable) (boot : WorkerBootId) :
    (c.onWorkerLoss boot).Savable :=
  ⟨h.tables.of_views ⟨rfl, rfl, rfl⟩, storable_baseline _⟩

theorem Savable.registerBackend {c : Coordinator β} (h : c.Savable) (boot : WorkerBootId)
    (env : Env β) (payload : Bytes) (hroom : (c.registerBackend boot env payload).2.sf.Room) :
    (c.registerBackend boot env payload).2.Savable := by
  refine ⟨?_, by rw [authority_registerBackend]; exact h.authority⟩
  unfold Coordinator.registerBackend at hroom ⊢
  split at hroom
  · exact h.tables
  · exact h.tables.registerLocalBackend _ _ _ _ hroom

theorem Savable.saveMetadata {c : Coordinator β} (h : c.Savable) (env : Env β) (payload : Bytes)
    (files : Table Bytes Bytes) : (c.saveMetadata env payload files).2.1.Savable := by
  have hviews : ∀ path, Fabric.SameViews c.sf (c.sf.save path env.fault files).2.1 := by
    intro path
    unfold Fabric.save
    split
    · exact .refl _
    · cases env.fault <;> exact ⟨rfl, rfl, rfl⟩
  refine ⟨?_, by rw [authority_saveMetadata]; exact h.authority⟩
  unfold Coordinator.saveMetadata
  split
  · exact h.tables
  · dsimp only
    split <;> exact h.tables.of_views (hviews _)

theorem Savable.recoverMetadata {c : Coordinator β} (h : c.Savable) (env : Env β)
    (payload : Bytes) (files : Table Bytes Bytes)
    (hbrings : ∀ path rest snap, readBlob.run payload = some (path, rest) →
      Fabric.recorded files (c.choosePath path) = some snap → c.sf.Brings snap) :
    (c.recoverMetadata env payload files).2.Savable := by
  unfold Coordinator.recoverMetadata
  cases hread : readBlob.run payload with
  | none => exact h
  | some r =>
      obtain ⟨path, rest⟩ := r
      obtain ⟨snap, hsnap, heq⟩ | ⟨-, hfail, hsame⟩ :=
        c.sf.recover_cases (c.choosePath path) files env.nowNs
      · have hdecoded : snap.Storable ∧ snap.Distinct := by
          obtain ⟨bytes, -, hbytes⟩ := Option.bind_eq_some_iff.mp hsnap
          cases hdata : deserializeSnapshot bytes {} with
          | error s =>
              rw [hdata] at hbytes
              cases hbytes
          | ok q =>
              rw [hdata] at hbytes
              obtain rfl := Option.some.inj hbytes
              exact deserialize_ok hdata
        have hrestored := h.tables.restore hdecoded.1 hdecoded.2
          (hbrings path rest snap hread hsnap) (c.choosePath path)
          (Fabric.workerBootNonce env.nowNs)
        simp only [heq]
        exact ⟨hrestored.of_views ⟨rfl, rfl, rfl⟩, storable_baseline _⟩
      · dsimp only
        rw [hfail, hsame]
        exact h

theorem Savable.commit {c : Coordinator β} (h : c.Savable) (payload : Bytes)
    (horigin : ∀ incoming command rest, readCommit.run payload = some ((incoming, command), rest) →
      (c.commit payload).1.isOk = true → incoming.origin.Declared) :
    (c.commit payload).2.Savable := by
  unfold Coordinator.commit at horigin ⊢
  cases hread : readCommit.run payload with
  | none => exact h
  | some r =>
      obtain ⟨⟨incoming, command⟩, rest⟩ := r
      have hids := yields_readCommit _ _ _ hread
      simp only [hread] at horigin ⊢
      cases hgate : incoming.isStrictlyNewerThan c.sf.authority with
      | false => exact h
      | true =>
          have hdeclared := horigin incoming command rest rfl (by rw [hgate]; rfl)
          exact ⟨h.tables.of_views ⟨rfl, rfl, rfl⟩,
            AuthorityEnvelope.storable_of_origin hids hdeclared⟩

section Backend

variable [StorageBackend β]

theorem Savable.readObject {c : Coordinator β} (h : c.Savable) (payload : Bytes) :
    (c.readObject payload).2.Savable := by
  refine ⟨?_, by rw [authority_readObject]; exact h.authority⟩
  unfold Coordinator.readObject
  split
  · exact h.tables
  · next oid _ _ =>
      have hviews := Fabric.sameViews_read c.sf ⟨oid.toNat⟩ none
      split <;> next heq =>
        rw [heq] at hviews
        exact h.tables.of_views hviews

theorem Savable.verify {c : Coordinator β} (h : c.Savable) (payload : Bytes) :
    (c.verify payload).2.Savable := by
  refine ⟨?_, by rw [authority_verify]; exact h.authority⟩
  unfold Coordinator.verify
  split
  · exact h.tables
  · next pid _ _ =>
      have hviews := Fabric.sameViews_verify c.sf ⟨pid.toNat⟩
      split <;> next heq =>
        rw [heq] at hviews
        exact h.tables.of_views hviews

theorem savable_publishTo {f : Fabric β} (h : f.Savable) (hauthority : f.authority.Storable)
    {obj : ObjectDescriptor} (hobj : obj.id.value < 2 ^ 64) {incoming : AuthorityEnvelope}
    (hids : incoming.worker.value < 2 ^ 64 ∧ incoming.boot.value < 2 ^ 64) (content : Bytes)
    (backend : StorageBackendId)
    (hdrawn : (f.publishTo obj content backend (createOptions incoming)).1.toOption ≠ none →
      ∀ q ∈ f.placementRecords, q.replica.value ≠ f.replicaCounter)
    (hroom : (f.publishTo obj content backend (createOptions incoming)).2.Room) :
    (f.publishTo obj content backend (createOptions incoming)).2.Savable := by
  have hlive := hauthority.ids
  simp only [List.forall_mem_cons] at hlive
  have hwriter : (f.publishAuthority (createOptions incoming)).worker.value < 2 ^ 64 ∧
      (f.publishAuthority (createOptions incoming)).boot.value < 2 ^ 64 := by
    unfold Fabric.publishAuthority
    split
    · exact ⟨hlive.2.1, hlive.1⟩
    · exact hids
  exact h.publishCall ⟨obj, content, backend, createOptions incoming⟩ hobj hwriter.1 hwriter.2
    (fun hok id q hq => hdrawn hok q (AList.mem_values_of_lookup hq)) hroom

/-- A request to create an object, given what its own envelope and kind, and the ids
that are in use, say about it. -/
theorem Savable.createObject {c : Coordinator β} (h : c.Savable) (payload : Bytes)
    (hkind : ∀ req rest, readCreate.run payload = some (req, rest) →
      req.incoming.isStrictlyNewerThan c.sf.authority = true →
        c.sf.Defines req.size req.content → req.kind.Declared)
    (haccepted : ∀ req rest, readCreate.run payload = some (req, rest) →
      (c.createObject payload).1.isOk = true → req.incoming.origin.Declared ∧
        ∀ q ∈ c.sf.placementRecords, q.replica.value ≠ c.sf.replicaCounter)
    (hroom : (c.createObject payload).2.sf.Room) : (c.createObject payload).2.Savable := by
  unfold Coordinator.createObject at haccepted hroom ⊢
  cases hread : readCreate.run payload with
  | none => exact h
  | some r =>
      obtain ⟨req, rest⟩ := r
      have hids := yields_readCreate _ _ _ hread
      simp only [hread] at haccepted hroom ⊢
      cases hgate : req.incoming.isStrictlyNewerThan c.sf.authority with
      | false => exact h
      | true =>
          rw [hgate, if_pos rfl] at haccepted hroom
          rw [if_pos rfl]
          obtain ⟨-, obj, hobj, heq⟩ | ⟨-, s, n, -, heq⟩ :=
            c.sf.defineObject_cases req.kind req.size req.content req.incoming
              { minReplicas := 1 } (.known .high)
          · have hstored := h.tables.defineObject (hkind req rest hread hgate) hids.1 hids.2
              { minReplicas := 1 } (.known .high)
            have hauthority := Fabric.authority_defineObject c.sf req.kind req.size req.content
              req.incoming { minReplicas := 1 } (.known .high)
            have hplacements : (c.sf.withObject obj).placements = c.sf.placements := rfl
            have hreplicas : (c.sf.withObject obj).replicaCounter = c.sf.replicaCounter := rfl
            have hobject : (c.sf.withObject obj).objectCounter = c.sf.objectCounter + 1 := rfl
            simp only [heq] at hstored hauthority haccepted hroom ⊢
            generalize c.sf.withObject obj = f' at *
            -- the id is the counter before it advanced, so it fits if the counter still does
            have hid : obj.id = ⟨c.sf.objectCounter⟩ := congrArg ObjectDescriptor.id hobj
            have hcounter := (Fabric.counters_publishCall f'
              ⟨obj, req.content, c.defaultBackend, createOptions req.incoming⟩).2
            have hkeep := Fabric.authority_publishTo f' obj req.content c.defaultBackend
              (createOptions req.incoming)
            have hbound : f'.objectCounter ≤ 2 ^ 64 → obj.id.value < 2 ^ 64 := by
              intro hlt
              rw [hid]
              dsimp only
              omega
            have hpublished := fun hlt => savable_publishTo (hstored hlt)
              (hauthority ▸ h.authority) (hbound hlt) hids req.content c.defaultBackend
            simp only [Fabric.publishCall] at hcounter
            rcases hpub : f'.publishTo obj req.content c.defaultBackend
              (createOptions req.incoming) with ⟨r, g⟩
            rw [hpub] at hcounter hpublished hkeep
            simp only [hpub] at haccepted hroom ⊢
            cases r with
            | error s =>
                have hroom' : g.Room := hroom
                exact ⟨hpublished (hcounter ▸ hroom'.object) (fun hne => absurd rfl hne) hroom',
                  hkeep.trans hauthority ▸ h.authority⟩
            | ok p =>
                have hroom' : g.Room := ⟨hroom.backend, hroom.tier, hroom.object, hroom.manifest,
                  hroom.replica, hroom.placement, hroom.blob⟩
                -- only here does the incoming envelope become the authority
                obtain ⟨horigin, hdrawn⟩ := haccepted req rest rfl rfl
                have hg : g.Savable := hpublished (hcounter ▸ hroom'.object) (fun _ => by
                  rw [Fabric.placementRecords, hplacements, hreplicas]
                  exact hdrawn) hroom'
                exact ⟨hg.of_views ⟨rfl, rfl, rfl⟩,
                  AuthorityEnvelope.storable_of_origin hids horigin⟩
          · simp only [heq]
            exact ⟨⟨h.tables.objects, h.tables.manifests, h.tables.placements, h.tables.replicas,
              h.tables.backends, h.tables.blobs⟩, h.authority⟩

end Backend

end Coordinator

namespace Process

variable {β : Type}

/-! ### Steps -/

/-- The frame that the event delivers to a connection which still serves requests. -/
def served (p : Process β) : Event β → Option Frame
  | .frame conn f _ =>
      match p.connections.lookup conn with
      | none => none
      | some k => if k.closing then none else some f
  | .lost _ => none

theorem served_frame {p : Process β} {conn : Nat} {k : Connection} {f : Frame} {env : Env β}
    (hconn : p.connections.lookup conn = some k) (hopen : k.closing = false) :
    p.served (.frame conn f env) = some f := by
  simp only [served, hconn, hopen, Bool.false_eq_true, if_false]

/-- The request to create an object that the gate lets through. -/
def creates (p : Process β) (e : Event β) : Option CreateRequest :=
  (p.served e).bind fun f =>
    if f.kind = .createObject then
      ((readCreate.run f.payload).map Prod.fst).filter fun req =>
        req.incoming.isStrictlyNewerThan p.authority
    else none

/-- The file that a request to recover finds. -/
def loads (p : Process β) (e : Event β) : Option MetadataSnapshot :=
  (p.served e).bind fun f =>
    if f.kind = .recover then
      (readBlob.run f.payload).bind fun r => Fabric.recorded p.files (p.c.choosePath r.1)
    else none

section Backend

variable [StorageBackend β]

theorem step_runtime (p : Process β) (e : Event β) :
    (∃ conn k, e = .lost conn ∧ p.connections.lookup conn = some k ∧
      (p.step e).c = p.c.onWorkerLoss k.boot) ∨
    (∃ conn k f env, e = .frame conn f env ∧ p.connections.lookup conn = some k ∧
      k.closing = false ∧ p.step e = (p.request conn k f env).2) ∨
    ((p.step e).c.sf = p.c.sf ∧ (p.step e).c.defaultBackend = p.c.defaultBackend) := by
  cases e with
  | lost conn =>
      cases hconn : p.connections.lookup conn with
      | none => exact .inr (.inr (by simp only [step, drop, hconn, and_self]))
      | some k => exact .inl ⟨conn, k, rfl, hconn, by simp only [step, drop, hconn]⟩
  | frame conn f env =>
      right
      cases hconn : p.connections.lookup conn with
      | none =>
          right
          simp only [step, receive, hconn]
          unfold hello
          split
          · exact ⟨rfl, rfl⟩
          · split <;> exact ⟨rfl, rfl⟩
      | some k =>
          cases hopen : k.closing with
          | true => exact .inr (by simp only [step, receive, hconn, hopen, if_true, and_self])
          | false =>
              refine .inl ⟨conn, k, f, env, rfl, hconn, hopen, ?_⟩
              simp only [step, receive, hconn, hopen, Bool.false_eq_true, if_false]

/-- The step lets nothing into the state that a decoder turns down. -/
@[mk_iff]
structure Admits (p : Process β) (e : Event β) : Prop where
  room : (p.step e).c.sf.Room
  origin : ∀ a ∈ p.accepted e, a.origin.Declared
  kind : ∀ req ∈ p.creates e, p.c.sf.Defines req.size req.content → req.kind.Declared
  /-- The replica id that is drawn next is not in use. -/
  drawn : ∀ req ∈ p.creates e, p.accepted e ≠ none →
    ∀ q ∈ p.c.sf.placementRecords, q.replica.value ≠ p.c.sf.replicaCounter
  loaded : ∀ snap ∈ p.loads e, p.c.sf.Brings snap

instance (p : Process β) (e : Event β) : Decidable (p.Admits e) :=
  decidable_of_iff _ (admits_iff p e).symm

theorem accepted_frame {p : Process β} {conn : Nat} {k : Connection} {f : Frame} {env : Env β}
    (hconn : p.connections.lookup conn = some k) (hopen : k.closing = false)
    {a : AuthorityEnvelope} (henvelope : f.envelope = some a) {r : Frame × Coordinator β}
    (hrequest : p.request conn k f env = p.reply r) (hok : r.1.isOk = true) :
    p.accepted (.frame conn f env) = some a := by
  have hreceive : p.receive conn f env = p.reply r := by
    simp only [receive, hconn, hopen, Bool.false_eq_true, if_false, hrequest]
  have hreply : (p.receive conn f env).1.any Frame.isOk = true := by
    rw [hreceive]
    exact hok
  simp only [accepted, accepts, carried, hconn, hopen, henvelope, Bool.false_eq_true, if_false,
    Option.map_some, hreply, Option.filter_some, if_true]

theorem savable_request {p : Process β} (h : p.c.Savable) {conn : Nat} {k : Connection}
    {f : Frame} {env : Env β} (hconn : p.connections.lookup conn = some k)
    (hopen : k.closing = false) (hadmits : p.Admits (.frame conn f env)) :
    (p.request conn k f env).2.c.Savable := by
  have hserved : p.served (.frame conn f env) = some f := served_frame hconn hopen
  have hroom : (p.request conn k f env).2.c.sf.Room := by
    have := hadmits.room
    simpa only [step, receive, hconn, hopen, Bool.false_eq_true, if_false] using this
  cases hkind : f.kind with
  | registerBackend =>
      simp only [request, hkind] at hroom ⊢
      exact h.registerBackend _ _ _ hroom
  | createObject =>
      have hrequest : p.request conn k f env = p.reply (p.c.createObject f.payload) := by
        simp only [request, hkind]
      rw [hrequest] at hroom ⊢
      have hcreates : ∀ req rest, readCreate.run f.payload = some (req, rest) →
          req.incoming.isStrictlyNewerThan p.c.sf.authority = true →
            req ∈ p.creates (.frame conn f env) := by
        intro req rest hread hgate
        simp only [creates, hserved, Option.bind_some, hkind, if_true, hread, Option.map_some,
          authority, Option.filter_some, hgate, Option.mem_def]
      refine h.createObject f.payload ?_ ?_ hroom
      · intro req rest hread hgate
        exact hadmits.kind req (hcreates req rest hread hgate)
      · intro req rest hread hok
        have henvelope : f.envelope = some req.incoming := by
          simp [Frame.envelope, hkind, hread]
        have haccepted := accepted_frame hconn hopen henvelope hrequest hok
        -- an object that was accepted was announced by an envelope that passed the gate
        refine ⟨hadmits.origin _ haccepted, hadmits.drawn req ?_ ?_⟩
        · obtain ⟨hrefused, -⟩ | ⟨req', rest', hread', hgate, -⟩ :=
            p.c.createObject_cases f.payload
          · rw [hrefused] at hok
            cases hok
          · rw [hread] at hread'
            cases hread'
            exact hcreates req rest hread hgate
        · rw [haccepted]
          exact Option.some_ne_none _
  | readObject =>
      simp only [request, hkind]
      exact h.readObject _
  | verify =>
      simp only [request, hkind]
      exact h.verify _
  | commit =>
      have hrequest : p.request conn k f env = p.reply (p.c.commit f.payload) := by
        simp only [request, hkind]
      rw [hrequest]
      refine h.commit f.payload fun incoming command rest hread hok => ?_
      have henvelope : f.envelope = some incoming := by
        simp [Frame.envelope, hkind, hread]
      exact hadmits.origin _ (accepted_frame hconn hopen henvelope hrequest hok)
  | publish =>
      simp only [request, hkind]
      exact h.saveMetadata _ _ _
  | recover =>
      simp only [request, hkind]
      refine h.recoverMetadata _ _ _ fun path rest snap hread hsnap => hadmits.loaded snap ?_
      simp only [loads, hserved, Option.bind_some, hkind, if_true, hread, hsnap, Option.mem_def]
  -- the other kinds leave the runtime as it is
  | _ =>
      simp only [request, hkind]
      exact h

theorem savable_step {p : Process β} (h : p.c.Savable) {e : Event β} (hadmits : p.Admits e) :
    (p.step e).c.Savable := by
  obtain ⟨conn, k, -, -, heq⟩ | ⟨conn, k, f, env, rfl, hconn, hopen, heq⟩ | ⟨hsf, -⟩ :=
    p.step_runtime e
  · rw [heq]
    exact h.onWorkerLoss k.boot
  · rw [heq]
    exact savable_request h hconn hopen hadmits
  · exact ⟨hsf ▸ h.tables, hsf ▸ h.authority⟩

/-! ### Runs -/

/-- In a run whose steps let nothing in that a decoder turns down, every saved state
can be recovered, unless its payload is too long for the length field of the file. -/
theorem saves_recoverable_iff (metadataPath coordRoot : Bytes)
    (localBackend : β × Result BackendCapacity) (files : Table Bytes Bytes) (es : List (Event β))
    (hes : Runs.Along step Admits (start metadataPath coordRoot localBackend files) es) :
    let q := Runs.run step (start metadataPath coordRoot localBackend files) es
    q.c.sf.Recoverable ↔
      ∀ payload, encPayload q.c.sf.snapshot = some payload → payload.length < 2 ^ 32 := by
  intro q
  have hq : q.c.Savable :=
    Runs.invariant (I := fun p : Process β => p.c.Savable)
      (fun _ _ h hadmits => savable_step h hadmits)
      (Coordinator.savable_start metadataPath coordRoot localBackend) hes
  exact hq.tables.recoverable_iff hq.authority

/-! ### Two runs -/

def roomyProcess : Process SyntheticBackend :=
  start [] (ascii "root") ({}, .ok { totalBytes := 100, freeBytes := 100 }) ∅

/-- An envelope of the first connection whose origin is the given byte. -/
def envelopeFrom (origin : UInt8) : AuthorityEnvelope where
  epoch := ⟨1⟩
  boot := ⟨1⟩
  generation := ⟨1⟩
  origin := .ofByte origin

def creation (kind : UInt8) : Event SyntheticBackend :=
  .frame 1 (createFrame (envelopeFrom 2) (.ofByte kind) [7, 8]) smallEnv

/-- The connection is lost after an object was created. -/
def admittedRun : List (Event SyntheticBackend) :=
  handshakes ++ [creation 0, .lost 1]

set_option maxRecDepth 20000 in
theorem saves_recoverable_small :
    (Runs.run step roomyProcess admittedRun).c.sf.placementRecords.length = 1 ∧
      (Runs.run step roomyProcess admittedRun).c.sf.Recoverable := by
  have hrun : Runs.Along step Admits roomyProcess admittedRun := by decide +kernel
  refine ⟨by decide +kernel, (saves_recoverable_iff _ _ _ _ admittedRun hrun).mpr ?_⟩
  have hshort : (encPayload (Runs.run step roomyProcess admittedRun).c.sf.snapshot).all
      fun payload => decide (payload.length < 2 ^ 32) := by decide +kernel
  intro payload hpayload
  have hpayload' : encPayload (Runs.run step roomyProcess admittedRun).c.sf.snapshot =
      some payload := hpayload
  rw [hpayload'] at hshort
  exact of_decide_eq_true hshort

set_option maxRecDepth 20000 in
/-- Neither the kind of an object nor the origin of an envelope is checked. -/
theorem saves_not_recoverable :
    ¬(Runs.run step smallProcess (handshakes ++ [creation 12])).c.sf.Recoverable ∧
    ¬(Runs.run step smallProcess
      (handshakes ++ [.frame 1 (dispatchFrame (envelopeFrom 6) 5) smallEnv])).c.sf.Recoverable :=
  ⟨Fabric.Unreadable.not_recoverable (by decide +kernel),
    Fabric.Unreadable.not_recoverable (by decide +kernel)⟩

end Backend

end Process

end StorageFabric
