import StorageFabric.Runtime.Delivers
import StorageFabric.Tools.Rpc
import StorageFabric.Tools.Saved

/-!
An object that a worker created, read back by a worker.

The requests other than those about backends and files only ever add to the runtime,
so what a successful request to create an object stored is what every later read of
the object finds. What is left is the two layouts: the reply to a read needs fewer
bytes around the content than the request needed, so it fits in a frame too.
-/

namespace StorageFabric

open ByteReader ByteWriter StorageBackend

namespace Coordinator

variable {β : Type} [KeyValueBackend β]

/-! ### What the handlers add -/

/-- The runtime of `c'` is that of `c` after operations that only add objects with
contents in `S`. -/
def AppendsTo (S : Set Bytes) (c c' : Coordinator β) : Prop :=
  c'.defaultBackend = c.defaultBackend ∧
    ∃ ops, c'.sf = Runs.run Fabric.exec c.sf ops ∧
      Runs.Along Fabric.exec (Fabric.Appends S) c.sf ops

theorem AppendsTo.of_plain {S : Set Bytes} {c c' : Coordinator β}
    (hdefault : c'.defaultBackend = c.defaultBackend) {ops : List (Op β)}
    (hops : ∀ op ∈ ops, op.isPlain = true) (hrun : c'.sf = Runs.run Fabric.exec c.sf ops) :
    AppendsTo S c c' :=
  ⟨hdefault, ops, hrun,
    Runs.along_of_mem fun f op hop => Fabric.appends_of_isPlain S f (hops op hop)⟩

theorem AppendsTo.of_eq (S : Set Bytes) {c c' : Coordinator β}
    (hdefault : c'.defaultBackend = c.defaultBackend) (hsf : c'.sf = c.sf) : AppendsTo S c c' :=
  ⟨hdefault, [], hsf, trivial⟩

theorem AppendsTo.refl (S : Set Bytes) (c : Coordinator β) : AppendsTo S c c := .of_eq S rfl rfl

theorem appendsTo_onWorkerLoss (S : Set Bytes) (c : Coordinator β) (boot : WorkerBootId) :
    AppendsTo S c (c.onWorkerLoss boot) :=
  let ops : List (Op β) :=
    [.newCoordinatorEpoch, .setAuthority (baseline c.sf.newCoordinatorEpoch.authority.epoch)]
  have hops : ∀ op ∈ ops, op.isPlain = true := by simp [ops, Op.isPlain]
  .of_plain rfl hops rfl

theorem appendsTo_commit (S : Set Bytes) (c : Coordinator β) (payload : Bytes) :
    AppendsTo S c (c.commit payload).2 := by
  unfold commit
  cases hread : readCommit.run payload with
  | none => exact .refl S c
  | some r =>
      obtain ⟨⟨incoming, command⟩, rest⟩ := r
      cases hgate : incoming.isStrictlyNewerThan c.sf.authority with
      | false =>
          simp only [hgate, Bool.false_eq_true, if_false]
          exact .refl S c
      | true =>
          simp only [hgate, if_true]
          have hops : ∀ op ∈ [Op.setAuthority (β := β) incoming], op.isPlain = true := by
            simp [Op.isPlain]
          exact .of_plain rfl hops rfl

theorem appendsTo_readObject (S : Set Bytes) (c : Coordinator β) (payload : Bytes) :
    AppendsTo S c (c.readObject payload).2 := by
  unfold readObject
  cases hread : readU64.run payload with
  | none => exact .refl S c
  | some r =>
      obtain ⟨oid, rest⟩ := r
      have hops : ∀ op ∈ [Op.read (β := β) ⟨oid.toNat⟩ none], op.isPlain = true := by
        simp [Op.isPlain]
      have hrun : (c.sf.read ⟨oid.toNat⟩ none).2 =
          Runs.run Fabric.exec c.sf [.read ⟨oid.toNat⟩ none] := rfl
      dsimp only
      split <;> next heq =>
        rw [heq] at hrun
        exact .of_plain rfl hops hrun

theorem appendsTo_verify (S : Set Bytes) (c : Coordinator β) (payload : Bytes) :
    AppendsTo S c (c.verify payload).2 := by
  unfold verify
  cases hread : readU64.run payload with
  | none => exact .refl S c
  | some r =>
      obtain ⟨pid, rest⟩ := r
      have hops : ∀ op ∈ [Op.verify (β := β) ⟨pid.toNat⟩], op.isPlain = true := by
        simp [Op.isPlain]
      have hrun : (c.sf.verify ⟨pid.toNat⟩).2 =
          Runs.run Fabric.exec c.sf [.verify ⟨pid.toNat⟩] := rfl
      dsimp only
      split <;> next heq =>
        rw [heq] at hrun
        exact .of_plain rfl hops hrun

/-! ### A request to create an object -/

/-- The request defines the object `obj` and gets to publish it. -/
structure Defines (c : Coordinator β) (payload : Bytes) (req : CreateRequest)
    (obj : ObjectDescriptor) : Prop where
  request : ∃ rest, readCreate.run payload = some (req, rest)
  id : obj.id = ⟨c.sf.objectCounter⟩
  fresh : obj.id ∉ c.sf.catalog
  size : req.content.length = obj.logicalSize.toNat
  define : c.sf.exec (.defineObject req.kind req.size req.content req.incoming
    { minReplicas := 1 } (.known .high)) = c.sf.withObject obj

def createCall (c : Coordinator β) (req : CreateRequest) (obj : ObjectDescriptor) : Call :=
  ⟨obj, req.content, c.defaultBackend, createOptions req.incoming⟩

def createdReply (obj : ObjectDescriptor) (p : PlacementRecord) : Frame :=
  replyOk .createObject (LittleEndian.encode 8 obj.id.value ++ putU64 obj.generation.value ++
    LittleEndian.encode 8 p.id.value ++ obj.digest.bytes)

theorem createObject_runs (c : Coordinator β) (payload : Bytes) :
    ((c.createObject payload).1.isOk = false ∧ ∃ ops : List (Op β),
      (∀ op ∈ ops, op.isPlain = true) ∧
        (c.createObject payload).2 = { c with sf := Runs.run Fabric.exec c.sf ops }) ∨
    ∃ req obj, c.Defines payload req obj ∧
      ((∃ s, ((c.sf.withObject obj).publishCall (c.createCall req obj)).1 = .error s ∧
        c.createObject payload = (replyErr .createObject s.message,
          { c with sf := ((c.sf.withObject obj).publishCall (c.createCall req obj)).2 })) ∨
      ∃ p, ((c.sf.withObject obj).publishCall (c.createCall req obj)).1 = .ok p ∧
        c.createObject payload = (createdReply obj p,
          { c with
            sf := ((c.sf.withObject obj).publishCall (c.createCall req obj)).2.setAuthority
              req.incoming })) := by
  unfold createObject
  cases hread : readCreate.run payload with
  | none => exact .inl ⟨rfl, [], by simp, rfl⟩
  | some r =>
      obtain ⟨req, rest⟩ := r
      cases hgate : req.incoming.isStrictlyNewerThan c.sf.authority with
      | false =>
          left
          simp only [hgate, Bool.false_eq_true, if_false]
          -- the gate refuses before the runtime is asked
          exact ⟨rfl, [], by simp, rfl⟩
      | true =>
          simp only [hgate, if_true]
          have hexec : (c.sf.defineObject req.kind req.size req.content req.incoming
                { minReplicas := 1 } (.known .high)).2 =
              c.sf.exec (.defineObject req.kind req.size req.content req.incoming
                { minReplicas := 1 } (.known .high)) := rfl
          obtain ⟨hdefines, obj, rfl, heq⟩ | ⟨-, s, n, -, heq⟩ :=
            c.sf.defineObject_cases req.kind req.size req.content req.incoming
              { minReplicas := 1 } (.known .high)
          · right
            rw [heq] at hexec ⊢
            refine ⟨req, _, ⟨⟨rest, hread⟩, rfl, hdefines.2.2, hdefines.1, hexec.symm⟩, ?_⟩
            generalize Fabric.describeObject _ _ _ _ _ _ _ _ = obj
            rcases hpub : (c.sf.withObject obj).publishCall (c.createCall req obj) with ⟨r, f⟩
            have hpub' : (c.sf.withObject obj).publishTo obj req.content c.defaultBackend
                (createOptions req.incoming) = (r, f) := hpub
            simp only [hpub']
            cases r with
            | error s => exact .inl ⟨s, rfl, rfl⟩
            | ok p => exact .inr ⟨p, rfl, rfl⟩
          · left
            rw [heq] at hexec ⊢
            -- a definition that is refused has drawn an id
            refine ⟨rfl, [.defineObject req.kind req.size req.content req.incoming
              { minReplicas := 1 } (.known .high)], by simp [Op.isPlain], ?_⟩
            rw [Runs.run_cons, Runs.run_nil, ← hexec]

theorem Defines.unplaced {c : Coordinator β} {payload : Bytes} {req : CreateRequest}
    {obj : ObjectDescriptor} (h : c.Defines payload req obj)
    (hidentified : c.sf.catalogView.Identified) :
    ∀ id p, (c.sf.withObject obj).placements.lookup id = some p → p.object ≠ obj.id := by
  intro id p hp hobject
  exact h.fresh (hobject ▸ hidentified.known id p hp)

theorem appendsTo_createObject {S : Set Bytes} {c : Coordinator β}
    (hidentified : c.sf.catalogView.Identified) {payload : Bytes}
    (hcontent : ∀ req rest, readCreate.run payload = some (req, rest) → req.content ∈ S) :
    AppendsTo S c (c.createObject payload).2 := by
  obtain ⟨-, ops, hops, heq⟩ | ⟨req, obj, hdefines, hends⟩ := c.createObject_runs payload
  · rw [heq]
    exact .of_plain rfl hops rfl
  · obtain ⟨rest, hread⟩ := hdefines.request
    let define : Op β :=
      .defineObject req.kind req.size req.content req.incoming { minReplicas := 1 } (.known .high)
    let publish : Op β :=
      .publishTo obj req.content c.defaultBackend (createOptions req.incoming)
    have hdefine : Fabric.Appends S c.sf define := Fabric.appends_of_isPlain S _ rfl
    have hpublish : Fabric.Appends S (c.sf.exec define) publish := by
      rw [hdefines.define]
      exact Fabric.appends_publishTo (hcontent req rest hread) hdefines.size rfl
        (hdefines.unplaced hidentified) _
    have hrun : ((c.sf.withObject obj).publishCall (c.createCall req obj)).2 =
        Runs.run Fabric.exec c.sf [define, publish] := by
      rw [Runs.run_cons, hdefines.define]
      rfl
    obtain ⟨s, -, heq⟩ | ⟨p, -, heq⟩ := hends
    · rw [heq, hrun]
      exact ⟨rfl, [define, publish], rfl, hdefine, hpublish, trivial⟩
    · rw [heq, hrun]
      exact ⟨rfl, [define, publish, .setAuthority req.incoming], rfl, hdefine, hpublish,
        Fabric.appends_of_isPlain S _ rfl, trivial⟩

/-- After a request that succeeds, the content of the request is what the returned
object is served with. -/
theorem delivers_createObject {S : Set Bytes} (hinj : Set.InjOn ContentDigest.of S)
    {c : Coordinator β} (hc : Fabric.Sound S c.sf) {payload : Bytes}
    (hcontent : ∀ req rest, readCreate.run payload = some (req, rest) → req.content ∈ S)
    (hok : (c.createObject payload).1.isOk = true) :
    ∃ req rest obj p, readCreate.run payload = some (req, rest) ∧
      obj.id = ⟨c.sf.objectCounter⟩ ∧ (c.createObject payload).1 = createdReply obj p ∧
      p.object = obj.id ∧ p.backend = c.defaultBackend ∧
      (c.createObject payload).2.sf.Delivers p req.content := by
  obtain ⟨hfail, -⟩ | ⟨req, obj, hdefines, ⟨s, -, heq⟩ | ⟨p, hpublished, heq⟩⟩ :=
    c.createObject_runs payload
  · rw [hfail] at hok
    cases hok
  · rw [heq] at hok
    cases hok
  · obtain ⟨rest, hread⟩ := hdefines.request
    have hstocked : Fabric.Stocked S (c.sf.withObject obj) := hc.stocked.of_views rfl
    have hslices : ∀ slice ∈ (c.createCall req obj).slices, slice ∈ S := by
      intro slice hslice
      rw [Call.slices_whole hdefines.size rfl slice hslice]
      exact hcontent req rest hread
    obtain ⟨hobject, hbackend, hdelivers⟩ := Fabric.delivers_publishCall hinj hstocked hslices rfl
      (hdefines.unplaced hc.identified) hpublished
    have hauthority : ∀ f : Fabric β, Fabric.Appends S f (.setAuthority req.incoming) :=
      fun f => Fabric.appends_of_isPlain S f rfl
    have hlast := hdelivers.exec (hauthority _)
    refine ⟨req, rest, obj, p, hread, hdefines.id, ?_, hobject, hbackend, ?_⟩
    · rw [heq]
    · rw [heq]
      exact hlast

/-! ### A request to read an object -/

theorem readObject_delivers {c : Coordinator β} {p : PlacementRecord} {content : Bytes}
    (h : c.sf.Delivers p content)
    (hreadable : ∀ be, c.sf.backends.lookup p.backend = some be → KeyValueBackend.Readable be)
    {payload rest : Bytes} {oid : UInt64} (hread : readU64.run payload = some (oid, rest))
    (hobject : p.object = ⟨oid.toNat⟩) :
    (c.readObject payload).1 =
      replyOk .readObject (putU64 (UInt64.ofNat content.length) ++ putBlob content) := by
  have hdata := h.read hreadable
  rw [hobject] at hdata
  unfold readObject
  simp only [hread]
  rcases hresult : c.sf.read ⟨oid.toNat⟩ none with ⟨r, sf⟩
  rw [hresult] at hdata
  obtain rfl : r = .ok content := hdata
  rfl

end Coordinator

/-! ### Runs of the process -/

/-- An event that is not a request about backends or files. -/
def Event.addsOnly {β : Type} : Event β → Bool
  | .frame _ f _ => f.kind ∉ [.registerBackend, .publish, .recover]
  | .lost _ => true

def Event.content {β : Type} : Event β → Option Bytes
  | .frame _ f _ =>
      if f.kind = .createObject then (readCreate.run f.payload).map fun r => r.1.content else none
  | .lost _ => none

namespace Process

variable {β : Type} [KeyValueBackend β]

theorem appendsTo_request {S : Set Bytes} {p : Process β}
    (hidentified : p.c.sf.catalogView.Identified) {conn : Nat} {k : Connection} {f : Frame}
    {env : Env β} (hadds : (Event.frame conn f env).addsOnly = true)
    (hcontent : ∀ x ∈ (Event.frame conn f env).content, x ∈ S) :
    Coordinator.AppendsTo S p.c (p.request conn k f env).2.c := by
  cases hkind : f.kind with
  | registerBackend => simp [Event.addsOnly, hkind] at hadds
  | publish => simp [Event.addsOnly, hkind] at hadds
  | recover => simp [Event.addsOnly, hkind] at hadds
  | createObject =>
      simp only [request, hkind]
      refine Coordinator.appendsTo_createObject hidentified fun req rest hread => hcontent _ ?_
      simp [Event.content, hkind, hread]
  | readObject =>
      simp only [request, hkind]
      exact Coordinator.appendsTo_readObject S _ _
  | verify =>
      simp only [request, hkind]
      exact Coordinator.appendsTo_verify S _ _
  | commit =>
      simp only [request, hkind]
      exact Coordinator.appendsTo_commit S _ _
  | _ =>
      simp only [request, hkind]
      exact .refl S _

theorem appendsTo_step {S : Set Bytes} {p : Process β}
    (hidentified : p.c.sf.catalogView.Identified) {e : Event β} (hadds : e.addsOnly = true)
    (hcontent : ∀ x ∈ e.content, x ∈ S) : Coordinator.AppendsTo S p.c (p.step e).c := by
  obtain ⟨conn, k, -, -, heq⟩ | ⟨conn, k, f, env, rfl, -, -, heq⟩ | ⟨hsf, hdefault⟩ :=
    p.step_runtime e
  · rw [heq]
    exact Coordinator.appendsTo_onWorkerLoss S _ _
  · rw [heq]
    exact appendsTo_request hidentified hadds hcontent
  · exact .of_eq S hdefault hsf

/-- The event only adds objects with contents in `S`. -/
def Adds (S : Set Bytes) (_ : Process β) (e : Event β) : Prop :=
  e.addsOnly = true ∧ ∀ x ∈ e.content, x ∈ S

theorem sound_step {S : Set Bytes} {p : Process β} (h : Fabric.Sound S p.c.sf) {e : Event β}
    (he : p.Adds S e) : Fabric.Sound S (p.step e).c.sf := by
  obtain ⟨-, ops, hrun, hops⟩ := appendsTo_step h.identified he.1 he.2
  rw [hrun]
  exact h.run hops

theorem sound_start {S : Set Bytes} (metadataPath coordRoot : Bytes)
    (localBackend : β × Result BackendCapacity) (files : Table Bytes Bytes)
    (hblobs : ∀ b data, KeyValueBackend.view localBackend.1 (blobKey b) = some data → data ∈ S) :
    Fabric.Sound S (start metadataPath coordRoot localBackend files).c.sf := by
  have hempty : Fabric.Sound S ({} : Fabric β) :=
    ⟨Fabric.catalogInv_empty.identified, Fabric.stocked_empty S⟩
  have hbaseline : Fabric.Appends S ({} : Fabric β) (.setAuthority (Coordinator.baseline ⟨1⟩)) :=
    Fabric.appends_of_isPlain S _ rfl
  have hregister : ∀ f : Fabric β, Fabric.Involves S f (.registerLocalBackend
      (ascii "coord-local") (.known .localFilesystem) localBackend.1 localBackend.2) := by
    intro f
    constructor
    · intro c g hcall
      cases hcall
    · intro be hbe
      cases hbe
      exact hblobs
  exact (hempty.exec hbaseline.involves).exec (hregister _)

theorem delivers_run {S : Set Bytes} {p : Process β} (h : Fabric.Sound S p.c.sf)
    {r : PlacementRecord} {content : Bytes} (hdelivers : p.c.sf.Delivers r content)
    {es : List (Event β)} (hes : Runs.Along step (Adds S) p es) :
    (Runs.run step p es).c.sf.Delivers r content ∧
      (Runs.run step p es).c.defaultBackend = p.c.defaultBackend := by
  let I : Process β → Prop := fun q => Fabric.Sound S q.c.sf ∧ q.c.sf.Delivers r content ∧
    q.c.defaultBackend = p.c.defaultBackend
  have hrun : I (Runs.run step p es) := by
    refine Runs.invariant (I := I) ?_ ⟨h, hdelivers, rfl⟩ hes
    rintro q e ⟨hsound, hserved, hdefault⟩ hadds
    obtain ⟨hsame, ops, hops, happends⟩ := appendsTo_step hsound.identified hadds.1 hadds.2
    refine ⟨sound_step hsound hadds, ?_, hsame.trans hdefault⟩
    rw [hops]
    exact hserved.run happends
  exact hrun.2

/-! ### What is created is fetched -/

/-- Every request for the object on a connection that serves requests has a reply that
is sent, and the worker reads the content out of it. -/
def Fetches (p : Process β) (oid : UInt64) (content : Bytes) : Prop :=
  ∀ conn k f env rest, p.connections.lookup conn = some k → k.closing = false →
    f.kind = .readObject → readU64.run f.payload = some (oid, rest) →
      ∃ r sent, (p.receive conn f env).1 = some r ∧
        r.payload.length ≤ kMaxFramePayload.toNat ∧ sendFrame r = .ok sent ∧
          readCommandReply sent = .ok (UInt64.ofNat content.length, content)

theorem fetches_of_delivers {p : Process β} {r : PlacementRecord} {content : Bytes}
    (h : p.c.sf.Delivers r content)
    (hreadable : ∀ be, p.c.sf.backends.lookup r.backend = some be → KeyValueBackend.Readable be)
    {oid : UInt64} (hobject : r.object = ⟨oid.toNat⟩)
    (hroom : 17 + content.length ≤ kMaxFramePayload.toNat) : p.Fetches oid content := by
  intro conn k f env rest hconn hopen hkind hread
  have hresult : (putU64 (UInt64.ofNat content.length) ++ putBlob content).length =
      12 + content.length := by
    simp only [putBlob, List.length_append, length_putU64, length_putU32]
    omega
  have hblob : content.length < 2 ^ 32 := by
    have hbound := kMaxFramePayload.toNat_lt
    omega
  have hreply : (p.receive conn f env).1 =
      some (replyOk .readObject (putU64 (UInt64.ofNat content.length) ++ putBlob content)) := by
    simp only [receive, hconn, hopen, Bool.false_eq_true, if_false, request, hkind, reply]
    rw [Coordinator.readObject_delivers h hreadable hread hobject]
  have hmax : 5 + (putU64 (UInt64.ofNat content.length) ++ putBlob content).length ≤
      kMaxFramePayload.toNat := by
    rw [hresult]
    omega
  obtain ⟨sent, hsent, hcommand⟩ :=
    commandReply_replyOk .readObject hmax (readReadResult_read hblob) "read"
  refine ⟨_, sent, hreply, ?_, hsent, hcommand⟩
  rw [length_replyOk]
  exact hmax

theorem receive_createObject {p : Process β} {conn : Nat} {f reply : Frame} {env : Env β}
    (hkind : f.kind = .createObject) (hreply : (p.receive conn f env).1 = some reply) :
    reply = (p.c.createObject f.payload).1 ∧
      (p.step (.frame conn f env)).c = (p.c.createObject f.payload).2 := by
  cases hconn : p.connections.lookup conn with
  | none => simp [receive, hconn, hello, hkind] at hreply
  | some k =>
      cases hopen : k.closing with
      | true => simp [receive, hconn, hopen] at hreply
      | false =>
          have hreceive : p.receive conn f env = p.reply (p.c.createObject f.payload) := by
            simp only [receive, hconn, hopen, Bool.false_eq_true, if_false, request, hkind]
          rw [hreceive] at hreply
          refine ⟨(Option.some.inj hreply).symm, ?_⟩
          rw [step, hreceive]
          rfl

/-- In every run of such events: when a request to create an object, out of a frame
that is accepted, is answered with success, every later request to read the returned
object fetches the content of that request. The envelope in front of a request is read
as it was written. -/
theorem created_is_fetched {S : Set Bytes} (hinj : Set.InjOn ContentDigest.of S)
    (metadataPath coordRoot : Bytes) (localBackend : β × Result BackendCapacity)
    (files : Table Bytes Bytes)
    (hblobs : ∀ b data, KeyValueBackend.view localBackend.1 (blobKey b) = some data → data ∈ S)
    (before after : List (Event β)) (conn : Nat) (f : Frame) (env : Env β)
    (hadds : ∀ e ∈ before ++ .frame conn f env :: after,
      e.addsOnly = true ∧ ∀ x ∈ e.content, x ∈ S)
    (data : Bytes) (consumed : Nat) (hdecode : decodeFrame data = (.ok f, consumed))
    (hkind : f.kind = .createObject) :
    let p := Runs.run step (start metadataPath coordRoot localBackend files) before
    let q := Runs.run step (p.step (.frame conn f env)) after
    (p.c.sf.objectCounter < 2 ^ 64 →
      (∀ be, q.c.sf.backends.lookup q.c.defaultBackend = some be →
        KeyValueBackend.Readable be) →
      ∀ reply, (p.receive conn f env).1 = some reply → reply.isOk = true →
        ∃ req rest sent created, readCreate.run f.payload = some (req, rest) ∧
          sendFrame reply = .ok sent ∧ createReply sent = .ok created ∧
            q.Fetches created.object req.content) ∧
    ∀ a : AuthorityEnvelope, a.boot.value < 2 ^ 64 → a.worker.value < 2 ^ 64 → ∀ rest,
      readAuthority.run (putAuthority a ++ rest) = some (a, rest) := by
  intro p q
  refine ⟨fun hcounter hreadable reply hreply hok => ?_,
    fun a hboot hworker rest => readAuthority_putAuthority hboot hworker rest⟩
  let e : Event β := .frame conn f env
  have hstart := sound_start metadataPath coordRoot localBackend files hblobs
  have hbefore : Runs.Along step (Adds S) (start metadataPath coordRoot localBackend files)
      before :=
    Runs.along_of_mem fun _ e he => hadds e (List.mem_append_left _ he)
  have hafter : Runs.Along step (Adds S) (p.step e) after :=
    Runs.along_of_mem fun _ e he => hadds e (List.mem_append_right _ (List.mem_cons_of_mem _ he))
  have hmid : Adds S p e := hadds e (List.mem_append_right _ List.mem_cons_self)
  have hp : Fabric.Sound S p.c.sf :=
    Runs.invariant (I := fun p : Process β => Fabric.Sound S p.c.sf)
      (fun _ _ h he => sound_step h he) hstart hbefore
  obtain ⟨rfl, hstep⟩ := receive_createObject hkind hreply
  obtain ⟨req, rest, obj, r, hread, hid, hcreated, hobject, hbackend, hdelivers⟩ :=
    Coordinator.delivers_createObject hinj hp
      (fun req rest hread => hmid.2 _ (by simp [Event.content, e, hkind, hread])) hok
  rw [← hstep] at hdelivers
  obtain ⟨hserved, hdefault⟩ := delivers_run (sound_step hp hmid) hdelivers hafter
  -- the reply names the object by its id, which fits in a word
  have hmax := (decodeFrame_iff.mp hdecode).1
  have hlength := length_readCreate hread
  have hresult := readCreateResult_created obj.id.value r.id.value obj.generation.value obj.digest
  obtain ⟨sent, hsent, hcreate⟩ := commandReply_replyOk .createObject (by
    simp only [List.length_append, length_putU64, LittleEndian.length_encode, obj.digest.size]
    decide) hresult "create"
  refine ⟨req, rest, sent, _, hread, ?_, hcreate, ?_⟩
  · rw [hcreated]
    exact hsent
  · refine fetches_of_delivers hserved (fun be hbe => hreadable be ?_) ?_ ?_
    · have hsame : q.c.defaultBackend = r.backend := by
        rw [hbackend]
        exact hdefault.trans (appendsTo_step hp.identified hmid.1 hmid.2).1
      rw [hsame]
      exact hbe
    · rw [hobject, hid, UInt64.toNat_ofNat', Nat.mod_eq_of_lt hcounter]
    · omega

def creationFrame : Frame :=
  Frame.of .createObject (createFrame (envelopeFrom 2) (.known .genericAiState) [7, 8]).payload

/-- The second connection is lost after the object was created. -/
def creationRun : List (Event SyntheticBackend) :=
  handshakes ++ [.frame 1 creationFrame smallEnv, .lost 2]

set_option maxRecDepth 20000 in
theorem created_is_fetched_small :
    ∃ reply sent created, ((Runs.run step roomyProcess handshakes).receive 1 creationFrame
        smallEnv).1 = some reply ∧ sendFrame reply = .ok sent ∧ createReply sent = .ok created ∧
      (Runs.run step roomyProcess creationRun).Fetches created.object [7, 8] := by
  have hadds : ∀ e ∈ handshakes ++ .frame 1 creationFrame smallEnv :: [.lost 2],
      e.addsOnly = true ∧ ∀ x ∈ e.content, x ∈ ({[7, 8]} : Set Bytes) := by
    -- whatever the run creates has this one content
    have hall : creationRun.all (fun e => e.addsOnly && e.content.all fun x => x = [7, 8]) =
        true := by decide +kernel
    intro e he
    obtain ⟨hadds, hcontent⟩ := Bool.and_eq_true_iff.mp (List.all_eq_true.mp hall e he)
    refine ⟨hadds, fun x hx => ?_⟩
    rw [Option.mem_def.mp hx] at hcontent
    exact of_decide_eq_true hcontent
  have hdecode := @decodeFrame_encodeFrame .createObject creationFrame.payload
    (by decide +kernel) []
  have hfetched := created_is_fetched (Set.injOn_singleton ContentDigest.of [7, 8]) [] (ascii "root")
    (({}, .ok { totalBytes := 100, freeBytes := 100 }) : SyntheticBackend × Result BackendCapacity)
    ∅ (fun b data hdata => by cases hdata) handshakes [.lost 2] 1 creationFrame smallEnv hadds
    _ _ hdecode rfl
  have hstart : start [] (ascii "root")
      (({}, .ok { totalBytes := 100, freeBytes := 100 }) :
        SyntheticBackend × Result BackendCapacity) ∅ = roomyProcess := rfl
  dsimp only at hfetched
  rw [hstart] at hfetched
  obtain ⟨hfetched, -⟩ := hfetched
  have hq : Runs.run step ((Runs.run step roomyProcess handshakes).step
      (.frame 1 creationFrame smallEnv)) [.lost 2] = Runs.run step roomyProcess creationRun := by
    rw [creationRun, Runs.run_append]
    rfl
  rw [hq] at hfetched
  generalize hp' : Runs.run step roomyProcess handshakes = p at hfetched
  generalize hq' : Runs.run step roomyProcess creationRun = q at hfetched
  have hrun : (p.receive 1 creationFrame smallEnv).1.any Frame.isOk = true ∧
      p.c.sf.objectCounter < 2 ^ 64 ∧
      (readCreate.run creationFrame.payload).map (fun r => r.1.content) = some [7, 8] ∧
      ∀ be ∈ q.c.sf.backends.values, be.profile.unavailable = false := by
    rw [← hp', ← hq']
    decide +kernel
  obtain ⟨hok, hcounter, hcontent, hhealthy⟩ := hrun
  obtain ⟨reply, hreply, hok⟩ := (Option.any_eq_true _ _).mp hok
  obtain ⟨req, rest, sent, created, hread, hsent, hcreated, hfetches⟩ :=
    hfetched hcounter (fun be hbe => SyntheticBackend.readable_of_available
      (hhealthy be (AList.mem_values_of_lookup hbe))) reply hreply hok
  rw [hread] at hcontent
  have hsame : req.content = [7, 8] := Option.some.inj hcontent
  rw [hsame] at hfetches
  exact ⟨reply, sent, created, hreply, hsent, hcreated, hfetches⟩

end Process

end StorageFabric
