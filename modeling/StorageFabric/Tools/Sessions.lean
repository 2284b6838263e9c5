import StorageFabric.Tools.Fetched
import StorageFabric.Tools.Incarnations

/-!
Workers, their connections, and the coordinator that serves them.

A worker sends a request and waits for the reply before it reads the next command,
so that there is at most one frame on the way between the two. Commands, frames
served, replies delivered and connections lost come in any order, from any number of
workers and of other clients.

The result of a session is its exactness: what a worker has been told was done is what
the coordinator has done for it, each once and in order, but for at most one request
whose reply the worker has not got.
-/

namespace StorageFabric

open ByteWriter ByteReader Codec

/-! ### The worker -/

inductive Command
  | ping
  | create (size : UInt64) (text : Bytes)
  | read (object : Option UInt64)
  | verify (placement : Option UInt64)
  | dispatch (command : UInt64)
  /-- A dispatch under an envelope made up from these numbers. -/
  | commitStale (epoch boot generation command : UInt64)
  | save (path : Bytes)
  | recover (path : Bytes)
  deriving DecidableEq

namespace Command

def kind : Command → WireMessageKind
  | .ping => .ping
  | .create _ _ => .createObject
  | .read _ => .readObject
  | .verify _ => .verify
  | .dispatch _ | .commitStale _ _ _ _ => .commit
  | .save _ => .publish
  | .recover _ => .recover

/-- The requests that the coordinator's gate guards. -/
def mutates : Command → Bool
  | .create _ _ | .dispatch _ | .commitStale _ _ _ _ => true
  | _ => false

/-- The requests under the worker's own envelope. -/
def isOwn : Command → Bool
  | .create _ _ | .dispatch _ => true
  | _ => false

end Command

def buildContent (size : UInt64) (text : Bytes) : Bytes :=
  (List.range size.toNat).map fun i => text.getD i (UInt8.ofNat (i * 31 + 7))

/-- What the worker is doing. -/
inductive SessionPhase
  | greeting
  | idle
  | awaiting (cmd : Command)
  | ended
  deriving DecidableEq

/-- A worker program with the two directions of its connection. -/
structure Session where
  auth : AuthorityEnvelope := {}
  lastObject : UInt64 := 0
  lastPlacement : UInt64 := 0
  phase : SessionPhase := .greeting
  /-- The mutations it has reported as done, each with the result of the reply. -/
  confirmed : List (Command × Bytes) := []
  up : List Frame := []
  down : List Frame := []
  /-- The coordinator still receives from the connection. -/
  linked : Bool := true
  /-- The worker has failed to receive: the connection is of no more use to it. -/
  broken : Bool := false

/-- Send a frame, unless it is too large; the frame as it is received. -/
def transmit (f : Frame) (queue : List Frame) : List Frame :=
  match sendFrame f with
  | .ok _ => queue ++ [Frame.of f.kind f.payload]
  | .error _ => queue

/-- What `rpc` makes of the frame of a reply. -/
def frameReply (f : Frame) : Reply :=
  match readReply.run f.payload with
  | none => { err := ascii "malformed reply from coordinator" }
  | some ((okb, body), _) => if okb = 1 then { ok := true, result := body } else { err := body }

/-- The dispatch id and its generation. -/
def readDispatchResult : ByteReader (UInt64 × UInt64) := do
  let did ← readU64
  let dgen ← readU64
  return (did, dgen)

namespace Session

def request (s : Session) : Command → Frame
  | .ping => { kind := .ping, payload := [] }
  | .create size text => createFrame s.auth (.known .genericAiState) (buildContent size text)
  | .read object => { kind := .readObject, payload := putU64 (object.getD s.lastObject) }
  | .verify placement => { kind := .verify, payload := putU64 (placement.getD s.lastPlacement) }
  | .dispatch command => dispatchFrame s.auth command
  | .commitStale epoch boot generation command =>
      dispatchFrame
        { s.auth with epoch := ⟨epoch⟩, boot := ⟨boot.toNat⟩, generation := ⟨generation⟩ } command
  | .save path => saveFrame path
  | .recover path => recoverFrame path

def confirm (s : Session) (cmd : Command) (result : Bytes) : Session :=
  { s with confirmed := s.confirmed ++ [(cmd, result)] }

/-- What the worker does with a successful reply. -/
def succeed (s : Session) (cmd : Command) (result : Bytes) : Session :=
  match cmd with
  | .create _ _ =>
      match readCreateResult.run result with
      | none => s
      | some (r, _) =>
          { s.confirm cmd result with
            lastObject := r.object
            lastPlacement := r.placement
            auth := { s.auth with generation := s.auth.generation.next } }
  | .dispatch _ =>
      match readDispatchResult.run result with
      | none => s
      | some _ =>
          { s.confirm cmd result with
            auth := { s.auth with generation := s.auth.generation.next } }
  | .commitStale _ _ _ _ => s.confirm cmd result
  | _ => s

def finish (s : Session) (cmd : Command) (f : Frame) : Session :=
  let reply := frameReply f
  let s := { s with phase := .idle }
  if reply.ok then s.succeed cmd reply.result else s

def greet (s : Session) (f : Frame) : Session :=
  if f.kind ≠ .hello then { s with phase := .ended }
  else
    match readHelloReply.run f.payload with
    | none => { s with phase := .ended }
    | some (auth, _) => { s with auth, phase := .idle }

def take (s : Session) (f : Frame) : Session :=
  match s.phase with
  | .greeting => s.greet f
  | .awaiting cmd => s.finish cmd f
  | _ => s

/-- A command is typed; the worker looks at it when it waits for nothing. -/
def type (s : Session) (cmd : Command) : Session :=
  match s.phase with
  | .idle =>
      if s.broken then s
      else
        match sendFrame (s.request cmd) with
        | .error _ => s
        | .ok _ => { s with phase := .awaiting cmd, up := transmit (s.request cmd) s.up }
  | _ => s

/-- The worker says goodbye and closes. -/
def exit (s : Session) : Session :=
  match s.phase with
  | .idle =>
      { s with
        phase := .ended
        up := if s.broken then s.up else transmit { kind := .goodbye, payload := [] } s.up }
  | _ => s

/-- The worker fails to receive: the handshake ends the program, a request is reported as
failed. -/
def fail (s : Session) : Session :=
  match s.phase with
  | .greeting => { s with phase := .ended }
  | .awaiting _ => { s with phase := .idle, broken := true }
  | _ => s

/-- The program ends. What it has sent is still on the way. -/
def quit (s : Session) : Session := { s with phase := .ended, down := [] }

/-- The coordinator receives no more. -/
def cut (s : Session) : Session := { s with up := [], linked := false }

end Session

/-! ### The site -/

/-- A mutation that the coordinator has reported as done. -/
structure Performed where
  conn : Nat
  kind : WireMessageKind
  result : Bytes
  deriving DecidableEq

def Performed.report (x : Performed) : WireMessageKind × Bytes := (x.kind, x.result)

structure Site (β : Type) where
  process : Process β := {}
  sessions : Table Nat Session := ∅
  performed : List Performed := []

inductive SiteEvent (β : Type)
  /-- A worker connects. A connection has a number of its own. -/
  | connect (conn : Nat) (worker : UInt64) (desc : Bytes)
  | command (conn : Nat) (cmd : Command)
  | exit (conn : Nat)
  | quit (conn : Nat)
  /-- A worker fails to receive. -/
  | fail (conn : Nat)
  /-- The coordinator receives what a worker has sent. -/
  | serve (conn : Nat) (env : Env β)
  /-- A worker receives what the coordinator has sent. -/
  | deliver (conn : Nat)
  /-- The coordinator fails to receive, or has read a goodbye. -/
  | lose (conn : Nat)
  /-- Another client's frame, and the end of its connection. -/
  | foreign (conn : Nat) (f : Frame) (env : Env β)
  | foreignLost (conn : Nat)

namespace Site

variable {β : Type}

/-- The mutation that the coordinator reports in its reply to a frame. -/
def note (conn : Nat) (f : Frame) : Option Frame → List Performed
  | some r =>
      if (f.kind = .createObject ∨ f.kind = .commit) ∧ r.isOk then
        [⟨conn, f.kind, (frameReply r).result⟩]
      else []
  | none => []

/-- The mutations performed for a connection. -/
def performedFor (s : Site β) (conn : Nat) : List (WireMessageKind × Bytes) :=
  (s.performed.filter (·.conn = conn)).map Performed.report

variable [StorageBackend β]

def reply (down : List Frame) : Option Frame → List Frame
  | some r => transmit r down
  | none => down

def receive (s : Site β) (conn : Nat) (f : Frame) (env : Env β) : Option Frame × Site β :=
  let (r, process) := s.process.receive conn f env
  (r, { s with process, performed := s.performed ++ note conn f r })

def step (s : Site β) : SiteEvent β → Site β
  | .connect conn worker desc =>
      if conn ∈ s.sessions ∨ conn ∈ s.process.connections ∨ s.performedFor conn ≠ [] then s
      else
        { s with sessions := s.sessions.insert conn { up := transmit (helloFrame worker desc) [] } }
  | .command conn cmd => { s with sessions := s.sessions.modify conn (·.type cmd) }
  | .exit conn => { s with sessions := s.sessions.modify conn Session.exit }
  | .quit conn => { s with sessions := s.sessions.modify conn Session.quit }
  | .fail conn => { s with sessions := s.sessions.modify conn Session.fail }
  | .serve conn env =>
      match s.sessions.lookup conn with
      | none => s
      | some session =>
          match session.linked, session.up with
          | true, f :: up =>
              let (r, s) := s.receive conn f env
              { s with
                sessions := s.sessions.insert conn { session with up, down := reply session.down r } }
          | _, _ => s
  | .deliver conn =>
      { s with
        sessions := s.sessions.modify conn fun session =>
          match session.down with
          | [] => session
          | f :: down => { session with down }.take f }
  | .lose conn =>
      { s with
        process := if conn ∈ s.sessions then s.process.drop conn else s.process
        sessions := s.sessions.modify conn Session.cut }
  | .foreign conn f env => if conn ∈ s.sessions then s else (s.receive conn f env).2
  | .foreignLost conn => if conn ∈ s.sessions then s else { s with process := s.process.drop conn }

end Site

/-! ### What is sent is what is read -/

theorem transmit_of_short {f : Frame} (h : f.payload.length ≤ kMaxFramePayload.toNat)
    (queue : List Frame) : transmit f queue = queue ++ [Frame.of f.kind f.payload] := by
  obtain ⟨sent, hsent, -⟩ := sendFrame_received h
  simp only [transmit, hsent]

theorem transmit_cases (f : Frame) (queue : List Frame) :
    transmit f queue = queue ++ [Frame.of f.kind f.payload] ∨ transmit f queue = queue := by
  unfold transmit
  cases sendFrame f with
  | ok sent => exact .inl rfl
  | error s => exact .inr rfl

theorem frameReply_replyOk (kind : WireMessageKind) {result : Bytes} (h : result.length < 2 ^ 32) :
    frameReply (replyOk kind result) = { ok := true, result } := by
  have hread : readReply.run (replyOk kind result).payload = some ((1, result), []) := by
    simp only [readReply, run_bind_eq_some, readU8_eq_some, readBlob_eq_some, run_pure_eq_some]
    exact ⟨1, _, rfl, result, [], ⟨h, (List.append_nil _).symm⟩, rfl, rfl⟩
  simp only [frameReply, hread, if_true]

theorem isOk_of_frameReply {f : Frame} (h : (frameReply f).ok = true) : f.isOk = true := by
  unfold frameReply at h
  cases hread : readReply.run f.payload with
  | none => simp [hread] at h
  | some r =>
      obtain ⟨⟨okb, body⟩, rest⟩ := r
      have hokb : okb = 1 := by
        by_contra hne
        simp [hread, hne] at h
      simp only [readReply, run_bind_eq_some, readU8_eq_some, run_pure_eq_some] at hread
      obtain ⟨okb', rest', hpayload, body', rest'', -, heq, -⟩ := hread
      obtain ⟨rfl, -⟩ := Prod.mk.inj heq
      rw [Frame.isOk, hpayload, hokb]
      rfl

/-! ### Replies to mutations -/

/-- The reply to a mutation: refused, or done with a result that the worker can read. -/
def Answers (kind : WireMessageKind) (r : Frame) : Prop :=
  r.isOk = false ∨ ∃ result, r = replyOk kind result ∧ result.length ≤ 100 ∧
    (kind = .createObject → ∃ x, readCreateResult.run result = some x) ∧
    (kind = .commit → ∃ x, readDispatchResult.run result = some x)

namespace Coordinator

variable {β : Type}

theorem answers_commit (c : Coordinator β) (payload : Bytes) :
    Answers .commit (c.commit payload).1 := by
  unfold commit
  cases hread : readCommit.run payload with
  | none => exact .inl rfl
  | some r =>
      obtain ⟨⟨incoming, command⟩, rest⟩ := r
      cases hgate : incoming.isStrictlyNewerThan c.sf.authority with
      | false => exact .inl (by simp [hgate])
      | true =>
          refine .inr ⟨putU64 c.dispatchCounter ++ putU64 1, by simp [hgate], by simp, nofun, fun _ => ?_⟩
          refine ⟨((c.dispatchCounter, 1), []), ?_⟩
          simp only [readDispatchResult, run_bind_eq_some, readU64_eq_some, run_pure_eq_some]
          exact ⟨_, _, rfl, _, [], (List.append_nil _).symm, rfl, rfl⟩

theorem answers_createObject [StorageBackend β] (c : Coordinator β) (payload : Bytes) :
    Answers .createObject (c.createObject payload).1 := by
  unfold createObject
  cases hread : readCreate.run payload with
  | none => exact .inl rfl
  | some r =>
      obtain ⟨req, rest⟩ := r
      dsimp only
      split
      · split
        · exact .inl rfl
        · next obj sf _ =>
            split
            · exact .inl rfl
            · refine .inr ⟨_, rfl, ?_, fun _ => ⟨_, readCreateResult_created _ _ _ _⟩, nofun⟩
              simp [obj.digest.size]
      · exact .inl rfl

end Coordinator

/-! ### What the coordinator does with a frame -/

namespace Process

variable {β : Type} [StorageBackend β]

theorem lookup_connections_receive (p : Process β) {conn other : Nat} (h : other ≠ conn)
    (f : Frame) (env : Env β) :
    (p.receive conn f env).2.connections.lookup other = p.connections.lookup other := by
  unfold receive
  cases hconn : p.connections.lookup conn with
  | none =>
      obtain hsame | ⟨worker, -, hconnections⟩ := p.hello_cases conn f env.nowNs
      · simp only [hsame]
      · simp only [hconnections, AList.lookup_insert_eq, if_neg h]
  | some k =>
      dsimp only
      split
      · rfl
      · obtain ⟨-, hsame | hclosed⟩ := p.connections_request conn k f env
        · rw [hsame]
        · rw [hclosed, AList.lookup_modify_ne h]

omit [StorageBackend β] in
theorem lookup_connections_drop (p : Process β) {conn other : Nat} (h : other ≠ conn) :
    (p.drop conn).connections.lookup other = p.connections.lookup other := by
  unfold drop
  cases p.connections.lookup conn with
  | none => rfl
  | some k => exact AList.lookup_erase_ne h

theorem receive_request {p : Process β} {conn : Nat} {k : Connection}
    (hconn : p.connections.lookup conn = some k) (hopen : k.closing = false) {f : Frame}
    (hkind : f.kind ≠ .goodbye) (env : Env β) :
    ∃ r, (p.receive conn f env).1 = some r ∧
      (p.receive conn f env).2.connections = p.connections ∧
      (f.kind = .createObject ∨ f.kind = .commit → Answers f.kind r) := by
  simp only [receive, hconn, hopen, Bool.false_eq_true, if_false, request]
  cases hf : f.kind with
  | goodbye => exact absurd hf hkind
  | createObject => exact ⟨_, rfl, rfl, fun _ => p.c.answers_createObject f.payload⟩
  | commit => exact ⟨_, rfl, rfl, fun _ => p.c.answers_commit f.payload⟩
  | _ => exact ⟨_, rfl, rfl, by simp⟩

end Process

/-! ### One session -/

namespace Session

/-- The worker has its envelope from the connection, and counts its own mutations in the
generation. -/
structure Enrolled (link : Option Connection) (s : Session) : Prop where
  live : s.linked = true → ∃ k, link = some k ∧ k.closing = false ∧
    s.auth = k.handed s.auth.generation
  generation : s.auth.generation.value =
    1 + UInt64.ofNat (s.confirmed.countP fun x => x.1.isOwn)

def reports (s : Session) : List (WireMessageKind × Bytes) :=
  s.confirmed.map fun x => (x.1.kind, x.2)

/-- What has been done and is not yet reported, as the reply that is on the way says. -/
def unreported (cmd : Command) (r : Frame) : List (WireMessageKind × Bytes) :=
  if cmd.mutates ∧ (frameReply r).ok then [(cmd.kind, (frameReply r).result)] else []

/-- What the worker will make of a successful reply is readable. -/
def Readable (cmd : Command) (r : Frame) : Prop :=
  (frameReply r).ok = true →
    match cmd with
    | .create _ _ => ∃ x, readCreateResult.run (frameReply r).result = some x
    | .dispatch _ => ∃ x, readDispatchResult.run (frameReply r).result = some x
    | _ => True

/-- What is on the way while the worker waits: its request, the reply, or nothing, when
the connection has broken or the reply was too large. -/
inductive Waiting (cmd : Command) (log : List (WireMessageKind × Bytes)) (s : Session) : Prop
  | request (hlog : log = s.reports)
      (hup : s.up = [Frame.of (s.request cmd).kind (s.request cmd).payload]) (hdown : s.down = [])
  | reply (r : Frame) (hlog : log = s.reports ++ unreported cmd r) (hreadable : Readable cmd r)
      (hup : s.up = []) (hdown : s.down = [r])
  | nothing (last : List (WireMessageKind × Bytes)) (hlog : log = s.reports ++ last) (hlast : last.length ≤ 1)
      (hup : s.up = []) (hdown : s.down = [])

/-- What is on the way during the handshake. -/
inductive Greeting (link : Option Connection) (s : Session) : Prop
  | hello (worker : UInt64) (desc : Bytes) (hup : s.up = transmit (helloFrame worker desc) [])
      (hdown : s.down = []) (hlink : s.linked = true → link = none)
  | reply (r : Frame) (k : Connection) (hkind : r.kind = .hello)
      (hread : readHelloReply.run r.payload = some (k.handed ⟨1⟩, [])) (hup : s.up = [])
      (hdown : s.down = [r]) (hlink : s.linked = true → link = some k ∧ k.closing = false)
  | nothing (hup : s.up = []) (hdown : s.down = []) (hlinked : s.linked = false)

/-- At most one mutation is done and not reported, or still to be done. -/
def Behind (log : List (WireMessageKind × Bytes)) (s : Session) : Prop :=
  ∃ last, log = s.reports ++ last ∧ last.length + s.up.length ≤ 1

/-- The session is exact: `log` is what the coordinator has done for it. -/
def Exact (link : Option Connection) (log : List (WireMessageKind × Bytes)) (s : Session) : Prop :=
  match s.phase with
  | .greeting => s.broken = false ∧ s.confirmed = [] ∧ log = [] ∧ Greeting link s
  | .idle =>
      if s.broken then Behind log s
      else Enrolled link s ∧ log = s.reports ∧ s.up = [] ∧ s.down = []
  | .awaiting cmd => s.broken = false ∧ Enrolled link s ∧ Waiting cmd log s
  | .ended => Behind log s

/-! ### The worker's side -/

theorem length_transmit_nil (f : Frame) : (transmit f []).length ≤ 1 := by
  obtain h | h := transmit_cases f [] <;> simp [h]

theorem length_unreported (cmd : Command) (r : Frame) : (unreported cmd r).length ≤ 1 := by
  unfold unreported
  split <;> simp

section Worker

variable {link : Option Connection} {log : List (WireMessageKind × Bytes)} {s : Session} (h : s.Exact link log)

include h

/-- In every phase the coordinator is at most one mutation ahead. -/
theorem Exact.behind : Behind log s := by
  cases hphase : s.phase with
  | greeting =>
      rw [Exact, hphase] at h
      obtain ⟨-, hconfirmed, hlog, hgreeting⟩ := h
      refine ⟨[], by rw [hlog, reports, hconfirmed]; rfl, ?_⟩
      cases hgreeting with
      | hello worker desc hup _ _ =>
          rw [hup, List.length_nil, Nat.zero_add]
          exact length_transmit_nil _
      | reply r k _ _ hup _ _ => simp [hup]
      | nothing hup _ _ => simp [hup]
  | idle =>
      rw [Exact, hphase] at h
      dsimp only at h
      split at h
      · exact h
      · obtain ⟨-, hlog, hup, -⟩ := h
        exact ⟨[], by simp [hlog], by simp [hup]⟩
  | awaiting cmd =>
      rw [Exact, hphase] at h
      obtain ⟨-, -, hwaiting⟩ := h
      cases hwaiting with
      | request hlog hup hdown => exact ⟨[], by simp [hlog], by simp [hup]⟩
      | reply r hlog _ hup hdown =>
          exact ⟨_, hlog, by simpa [hup] using length_unreported cmd r⟩
      | nothing last hlog hlast hup hdown => exact ⟨last, hlog, by simpa [hup] using hlast⟩
  | ended => rwa [Exact, hphase] at h

theorem Exact.type (cmd : Command) : (s.type cmd).Exact link log := by
  cases hphase : s.phase with
  | idle =>
      cases hbroken : s.broken with
      | true => simpa only [Session.type, hphase, hbroken, if_true] using h
      | false =>
          cases hsent : sendFrame (s.request cmd) with
          | error e =>
              simpa only [Session.type, hphase, hbroken, hsent, Bool.false_eq_true, if_false] using h
          | ok sent =>
              rw [Exact, hphase, hbroken] at h
              obtain ⟨henrolled, hlog, hup, hdown⟩ : _ ∧ _ := h
              simp only [Session.type, hphase, hbroken, hsent, Bool.false_eq_true, if_false]
              refine ⟨rfl, ⟨henrolled.live, henrolled.generation⟩, .request hlog ?_ hdown⟩
              simp only [transmit, hsent, hup, List.nil_append]
              rfl
  | _ => simpa only [Session.type, hphase] using h

theorem Exact.quit : s.quit.Exact link log := h.behind

theorem Exact.exit : s.exit.Exact link log := by
  cases hphase : s.phase with
  | idle =>
      have hbehind := h.behind
      rw [Exact, hphase] at h
      cases hbroken : s.broken with
      | true =>
          simp only [Session.exit, hphase, hbroken, if_true]
          exact hbehind
      | false =>
          simp only [hbroken, Bool.false_eq_true, if_false] at h
          obtain ⟨-, hlog, hup, -⟩ := h
          simp only [Session.exit, hphase, hbroken, hup, Bool.false_eq_true, if_false]
          exact ⟨[], by simp [hlog, reports], by simpa using length_transmit_nil _⟩
  | _ => simpa only [Session.exit, hphase] using h

theorem Exact.fail : s.fail.Exact link log := by
  have hbehind := h.behind
  cases hphase : s.phase with
  | greeting =>
      simp only [Session.fail, hphase]
      exact hbehind
  | awaiting cmd =>
      simp only [Session.fail, hphase, Exact, if_true]
      exact hbehind
  | _ => simpa only [Session.fail, hphase] using h

theorem Exact.cut (link' : Option Connection) : s.cut.Exact link' log := by
  have hlive : s.cut.linked = true → ∃ k, link' = some k ∧ k.closing = false ∧
      s.auth = k.handed s.auth.generation := nofun
  have hbehind : Behind log s.cut := by
    obtain ⟨last, hlog, hlength⟩ := h.behind
    exact ⟨last, hlog, by simp only [Session.cut, List.length_nil]; omega⟩
  cases hphase : s.phase with
  | greeting =>
      rw [Exact, hphase] at h
      obtain ⟨hbroken, hconfirmed, hlog, hgreeting⟩ := h
      simp only [Exact, Session.cut, hphase]
      refine ⟨hbroken, hconfirmed, hlog, ?_⟩
      cases hgreeting with
      | hello _ _ _ hdown _ => exact .nothing rfl hdown rfl
      | reply r k hkind hread _ hdown _ => exact .reply r k hkind hread rfl hdown nofun
      | nothing _ hdown _ => exact .nothing rfl hdown rfl
  | idle =>
      rw [Exact, hphase] at h
      simp only [Exact, Session.cut, hphase]
      split
      · exact hbehind
      · next hwhole =>
          simp only [if_neg hwhole] at h
          obtain ⟨henrolled, hlog, -, hdown⟩ := h
          exact ⟨⟨hlive, henrolled.generation⟩, hlog, trivial, hdown⟩
  | awaiting cmd =>
      rw [Exact, hphase] at h
      obtain ⟨hbroken, henrolled, hwaiting⟩ := h
      simp only [Exact, Session.cut, hphase]
      refine ⟨hbroken, ⟨hlive, henrolled.generation⟩, ?_⟩
      cases hwaiting with
      | request hlog _ hdown =>
          exact .nothing [] (hlog.trans (List.append_nil _).symm) (by simp) rfl hdown
      | reply r hlog hreadable _ hdown => exact .reply r hlog hreadable rfl hdown
      | nothing last hlog hlast _ hdown => exact .nothing last hlog hlast rfl hdown
  | ended =>
      simp only [Exact, Session.cut, hphase]
      simpa only [Session.cut, hphase] using hbehind

omit h

theorem countP_confirm (cmd : Command) (result : Bytes) :
    (s.confirm cmd result).confirmed.countP (fun x => x.1.isOwn) =
      s.confirmed.countP (fun x => x.1.isOwn) + if cmd.isOwn then 1 else 0 := by
  simp [confirm, List.countP_append, List.countP_singleton]

theorem Enrolled.advance (h : s.Enrolled link) {cmd : Command} (hown : cmd.isOwn = true)
    (result : Bytes) (object placement : UInt64) (phase : SessionPhase) :
    Enrolled link { s.confirm cmd result with
      phase, lastObject := object, lastPlacement := placement
      auth := { s.auth with generation := s.auth.generation.next } } := by
  refine ⟨fun hlinked => ?_, ?_⟩
  · obtain ⟨k, hlink, hopen, hauth⟩ := h.live hlinked
    refine ⟨k, hlink, hopen, ?_⟩
    show ({ s.auth with generation := s.auth.generation.next } : AuthorityEnvelope) = _
    rw [hauth]
    rfl
  · show s.auth.generation.value + 1 =
      1 + UInt64.ofNat ((s.confirm cmd result).confirmed.countP fun x => x.1.isOwn)
    rw [countP_confirm, if_pos hown, h.generation, UInt64.ofNat_add, UInt64.add_assoc]
    rfl

theorem finish_of_refused (s : Session) (cmd : Command) {r : Frame}
    (hok : (frameReply r).ok = false) :
    s.finish cmd r = { s with phase := .idle } ∧ unreported cmd r = [] := by
  simp [Session.finish, unreported, hok]

theorem finish_of_ok (s : Session) (cmd : Command) {r : Frame} (hok : (frameReply r).ok = true) :
    s.finish cmd r = { s with phase := .idle }.succeed cmd (frameReply r).result ∧
      unreported cmd r = if cmd.mutates then [(cmd.kind, (frameReply r).result)] else [] := by
  simp [Session.finish, unreported, hok]

theorem Enrolled.finish (h : s.Enrolled link) {cmd : Command} {r : Frame}
    (hreadable : Readable cmd r) :
    (s.finish cmd r).phase = .idle ∧ (s.finish cmd r).broken = s.broken ∧
      (s.finish cmd r).up = s.up ∧ (s.finish cmd r).down = s.down ∧
      (s.finish cmd r).reports = s.reports ++ unreported cmd r ∧
      (s.finish cmd r).Enrolled link := by
  cases hok : (frameReply r).ok with
  | false =>
      obtain ⟨hfinish, hnone⟩ := s.finish_of_refused cmd hok
      rw [hfinish, hnone, List.append_nil]
      exact ⟨rfl, rfl, rfl, rfl, rfl, h.live, h.generation⟩
  | true =>
      obtain ⟨hfinish, hsome⟩ := s.finish_of_ok cmd hok
      rw [hfinish, hsome]
      have hread := hreadable hok
      have hreports : (s.confirm cmd (frameReply r).result).reports =
          s.reports ++ [(cmd.kind, (frameReply r).result)] := by
        simp [confirm, reports]
      cases cmd with
      | create size text =>
          obtain ⟨⟨x, rest⟩, hx⟩ := hread
          simp only [succeed, hx]
          exact ⟨rfl, rfl, rfl, rfl, hreports, h.advance rfl _ _ _ _⟩
      | dispatch command =>
          obtain ⟨x, hx⟩ := hread
          simp only [succeed, hx]
          exact ⟨rfl, rfl, rfl, rfl, hreports, h.advance rfl _ _ _ _⟩
      | commitStale epoch boot generation command =>
          refine ⟨rfl, rfl, rfl, rfl, hreports, h.live, ?_⟩
          show s.auth.generation.value = 1 + UInt64.ofNat
            ((s.confirm (.commitStale epoch boot generation command)
              (frameReply r).result).confirmed.countP fun x => x.1.isOwn)
          rw [countP_confirm]
          exact h.generation
      | _ => exact ⟨rfl, rfl, rfl, rfl, (List.append_nil _).symm, h.live, h.generation⟩

theorem Exact.take (h : s.Exact link log) {f : Frame} {down : List Frame} (hdown : s.down = f :: down) :
    ({ s with down }.take f).Exact link log := by
  have hbehind : Behind log { s with down } := h.behind
  obtain ⟨phase, hphase⟩ : ∃ phase, s.phase = phase := ⟨_, rfl⟩
  cases phase with
  | greeting =>
      rw [Exact, hphase] at h
      obtain ⟨hbroken, hconfirmed, hlog, hgreeting⟩ := h
      cases hgreeting with
      | hello _ _ _ hnone _ => exact absurd (hnone.symm.trans hdown) nofun
      | reply r k hkind hread hup hr hlink =>
          obtain ⟨rfl, rfl⟩ := List.cons.inj (hr.symm.trans hdown)
          -- the reply to the handshake is the only frame under way, so it is the one taken
          have hnot : ¬r.kind ≠ .hello := not_not.mpr hkind
          simp only [Session.take, hphase, greet, if_neg hnot, hread]
          simp only [Exact, hbroken, Bool.false_eq_true, if_false]
          refine ⟨⟨fun hlinked => ?_, ?_⟩, by simp [hlog, reports, hconfirmed], hup, trivial⟩
          · obtain ⟨hlookup, hopen⟩ := hlink hlinked
            exact ⟨k, hlookup, hopen, rfl⟩
          · simp [hconfirmed, Connection.handed]
      | nothing _ hnone _ => exact absurd (hnone.symm.trans hdown) nofun
  | idle =>
      have htake : { s with down }.take f = { s with down } := by simp only [Session.take, hphase]
      rw [Exact, hphase] at h
      rw [htake, Exact]
      simp only [hphase]
      split
      · exact hbehind
      · next hwhole =>
          simp only [if_neg hwhole] at h
          exact absurd (h.2.2.2.symm.trans hdown) nofun
  | awaiting cmd =>
      rw [Exact, hphase] at h
      obtain ⟨hbroken, henrolled, hwaiting⟩ := h
      cases hwaiting with
      | request _ _ hnone => exact absurd (hnone.symm.trans hdown) nofun
      | reply r hlog hreadable hup hr =>
          obtain ⟨rfl, rfl⟩ := List.cons.inj (hr.symm.trans hdown)
          have henrolled' : Enrolled link { s with down := [] } := ⟨henrolled.live, henrolled.generation⟩
          -- a reply that is read ends the command, with all frames taken
          obtain ⟨hidle, hbroken', hup', hdown', hreports, hnext⟩ := henrolled'.finish hreadable
          have htake : { s with down := [] }.take r = { s with down := [] }.finish cmd r := by
            simp only [Session.take, hphase]
          have hwhole : ¬({ s with down := [] }.finish cmd r).broken = true :=
            Bool.eq_false_iff.mp (hbroken'.trans hbroken)
          rw [htake, Exact, hidle]
          simp only [if_neg hwhole]
          exact ⟨hnext, hlog.trans hreports.symm, hup'.trans hup, hdown'⟩
      | nothing _ _ _ _ hnone => exact absurd (hnone.symm.trans hdown) nofun
  | ended =>
      have htake : { s with down }.take f = { s with down } := by simp only [Session.take, hphase]
      rw [htake, Exact]
      simp only [hphase]
      exact hbehind

end Worker

/-! ### The coordinator's side -/

@[simp] theorem kind_request (s : Session) (cmd : Command) : (s.request cmd).kind = cmd.kind := by
  cases cmd <;> rfl

theorem kind_ne_goodbye (cmd : Command) : cmd.kind ≠ .goodbye := by
  cases cmd <;> nofun

theorem mutates_iff (cmd : Command) :
    cmd.mutates = true ↔ cmd.kind = .createObject ∨ cmd.kind = .commit := by
  cases cmd <;> simp [Command.mutates, Command.kind]

theorem note_eq_unreported (s : Session) (conn : Nat) (cmd : Command) (r : Frame)
    (hanswers : cmd.mutates = true → Answers cmd.kind r) :
    (Site.note conn (s.request cmd) (some r)).map Performed.report = unreported cmd r ∧
      Readable cmd r ∧
      (unreported cmd r ≠ [] → r.payload.length ≤ kMaxFramePayload.toNat) := by
  have hkind := mutates_iff cmd
  cases hmutates : cmd.mutates with
  | false =>
      -- no mutation: neither side has anything to report
      have hnot : ¬(cmd.kind = .createObject ∨ cmd.kind = .commit) :=
        fun h => by simp [hkind.mpr h] at hmutates
      refine ⟨by simp [Site.note, hnot, unreported, hmutates], fun _ => ?_, by simp [unreported, hmutates]⟩
      cases cmd <;> trivial
  | true =>
      have hmem := hkind.mp hmutates
      obtain hrefused | ⟨result, rfl, hlength, hcreate, hcommit⟩ := hanswers hmutates
      · have hok : (frameReply r).ok = false := by
          rw [← Bool.not_eq_true]
          exact fun h => by simp [isOk_of_frameReply h] at hrefused
        refine ⟨by simp [Site.note, hrefused, unreported, hok], fun h => by simp [hok] at h,
          by simp [unreported, hok]⟩
      · have hreply : frameReply (replyOk cmd.kind result) = { ok := true, result } :=
          frameReply_replyOk _ (by omega)
        refine ⟨by simp [Site.note, hmem, unreported, hmutates, hreply, Performed.report], fun _ => ?_, fun _ => ?_⟩
        · cases cmd with
          | create size text =>
              rw [hreply]
              exact hcreate rfl
          | dispatch command =>
              rw [hreply]
              exact hcommit rfl
          | _ => trivial
        · rw [length_replyOk]
          have hmax : kMaxFramePayload.toNat = 67108864 := by decide
          omega

theorem length_note (conn : Nat) (f : Frame) (r : Option Frame) : (Site.note conn f r).length ≤ 1 := by
  unfold Site.note
  cases r with
  | none => exact Nat.zero_le _
  | some r =>
      dsimp only
      split <;> simp

theorem receive_hello {β : Type} [StorageBackend β] {p : Process β} {conn : Nat}
    (hnone : p.connections.lookup conn = none) {worker : UInt64} {desc : Bytes}
    (hshort : (helloFrame worker desc).payload.length ≤ kMaxFramePayload.toNat) (env : Env β) :
    ∃ r k, (p.receive conn (Frame.of .hello (helloFrame worker desc).payload) env).1 = some r ∧
      r.kind = .hello ∧ r.payload.length ≤ kMaxFramePayload.toNat ∧
      (p.receive conn (Frame.of .hello (helloFrame worker desc).payload) env).2.connections.lookup
        conn = some k ∧ k.closing = false ∧
      readHelloReply.run r.payload = some (k.handed ⟨1⟩, []) := by
  have hdesc : desc.length < 2 ^ 32 := by
    have hmax : kMaxFramePayload.toNat = 67108864 := by decide
    simp only [helloFrame, putBlob, List.length_append, length_putU64, length_putU32] at hshort
    omega
  have hread : readHello.run (helloFrame worker desc).payload = some ((worker, desc), []) := by
    simp only [helloFrame, readHello, run_bind_eq_some, readU64_eq_some, readBlob_eq_some,
      run_pure_eq_some]
    exact ⟨_, _, rfl, desc, [], ⟨hdesc, (List.append_nil _).symm⟩, rfl, rfl⟩
  have hreceive : p.receive conn (Frame.of .hello (helloFrame worker desc).payload) env =
      p.hello conn (Frame.of .hello (helloFrame worker desc).payload) env.nowNs := by
    simp only [Process.receive, hnone]
  generalize hf : Frame.of .hello (helloFrame worker desc).payload = f at hreceive
  have hkind : ¬f.kind ≠ .hello := by simp [← hf, Frame.of]
  have hpayload : f.payload = (helloFrame worker desc).payload := by rw [← hf, Frame.of]
  rw [hreceive]
  have hhello : ∃ r k, (p.hello conn f env.nowNs).1 = some r ∧ r.kind = .hello ∧
      r.payload.length = 32 ∧
      (p.hello conn f env.nowNs).2.connections.lookup conn = some k ∧ k.closing = false := by
    simp only [Process.hello, if_neg hkind, hpayload, hread]
    exact ⟨_, _, rfl, rfl, by simp, AList.lookup_insert _, rfl⟩
  obtain ⟨r, k, hr, hrkind, hlength, hlookup, hopen⟩ := hhello
  obtain ⟨k', hlookup', hreply⟩ := readHelloReply_hello hr
  obtain rfl := Option.some.inj (hlookup.symm.trans hlookup')
  have hmax : kMaxFramePayload.toNat = 67108864 := by decide
  exact ⟨r, k, hr, hrkind, by omega, hlookup, hopen, hreply⟩

theorem of_transmitted {f g : Frame} {gs : List Frame} (h : transmit f [] = g :: gs) :
    f.payload.length ≤ kMaxFramePayload.toNat ∧ g = Frame.of f.kind f.payload ∧ gs = [] := by
  unfold transmit sendFrame at h
  by_cases hlong : kMaxFramePayload.toNat < f.payload.length
  · simp [encodeFrame, hlong, Result.fail] at h
  · refine ⟨Nat.not_lt.mp hlong, ?_⟩
    cases hempty : (encodeFrame f.kind f.payload).isEmpty with
    | true => simp [hempty, Result.fail] at h
    | false =>
        simp only [hempty, Bool.false_eq_true, if_false, List.nil_append, List.cons.injEq] at h
        exact ⟨h.1.symm, h.2.symm⟩

/-- A frame of a session that is at most one mutation behind is served. -/
theorem Behind.serve {log : List (WireMessageKind × Bytes)} {s : Session} (h : Behind log s) {f : Frame}
    {up : List Frame} (hup : s.up = f :: up) (conn : Nat) (r : Option Frame) (down : List Frame) :
    Behind (log ++ (Site.note conn f r).map Performed.report) { s with up, down } := by
  obtain ⟨last, hlog, hlength⟩ := h
  rw [hup, List.length_cons] at hlength
  have hnote := length_note conn f r
  refine ⟨last ++ (Site.note conn f r).map Performed.report, ?_, ?_⟩
  · rw [hlog, List.append_assoc]
    rfl
  · rw [List.length_append, List.length_map]
    dsimp only
    omega

theorem Exact.serve {β : Type} [StorageBackend β] {p : Process β} {conn : Nat} {log : List (WireMessageKind × Bytes)}
    {s : Session} (h : s.Exact (p.connections.lookup conn) log) (hlinked : s.linked = true)
    {f : Frame} {up : List Frame} (hup : s.up = f :: up) (env : Env β) {r : Option Frame}
    {p' : Process β} (hreceive : p.receive conn f env = (r, p')) :
    Exact (p'.connections.lookup conn) (log ++ (Site.note conn f r).map Performed.report)
      { s with up, down := Site.reply s.down r } := by
  have hbehind := h.behind.serve hup conn r (Site.reply s.down r)
  obtain ⟨phase, hphase⟩ : ∃ phase, s.phase = phase := ⟨_, rfl⟩
  cases phase with
  | greeting =>
      rw [Exact, hphase] at h
      obtain ⟨hbroken, hconfirmed, rfl, hgreeting⟩ := h
      cases hgreeting with
      | hello worker desc hsent hdown hlink =>
          obtain ⟨hshort, rfl, rfl⟩ := of_transmitted (hsent.symm.trans hup)
          obtain ⟨reply, k, hreply, hkind, hfits, hlookup, hopen, hread⟩ :=
            receive_hello (hlink hlinked) hshort env
          have hframe : (helloFrame worker desc).kind = .hello := rfl
          rw [hframe] at hreceive ⊢
          rw [hreceive] at hreply hlookup
          obtain rfl : r = some reply := hreply
          -- a handshake is no mutation, so there is nothing to report
          have hnote : Site.note conn (Frame.of .hello (helloFrame worker desc).payload) (some reply) =
              [] := by simp [Site.note, Frame.of]
          have hdown' : Site.reply s.down (some reply) = [Frame.of reply.kind reply.payload] := by
            rw [Site.reply, hdown, transmit_of_short hfits, List.nil_append]
          rw [hnote, hdown']
          simp only [Exact, hphase, List.map_nil, List.append_nil]
          exact ⟨hbroken, hconfirmed, trivial,
            .reply (Frame.of reply.kind reply.payload) k hkind hread rfl rfl fun _ => ⟨hlookup, hopen⟩⟩
      | reply _ _ _ _ hnone _ _ => exact absurd (hnone.symm.trans hup) (List.cons_ne_nil _ _).symm
      | nothing hnone _ _ => exact absurd (hnone.symm.trans hup) (List.cons_ne_nil _ _).symm
  | idle =>
      rw [Exact, hphase] at h
      simp only [Exact, hphase]
      split
      · simpa only [hphase] using hbehind
      · next hwhole =>
          simp only [if_neg hwhole] at h
          -- an idle worker has nothing under way to the coordinator
          exact absurd (h.2.2.1.symm.trans hup) (List.cons_ne_nil _ _).symm
  | awaiting cmd =>
      rw [Exact, hphase] at h
      obtain ⟨hbroken, henrolled, hwaiting⟩ := h
      cases hwaiting with
      | request hlog hsent hdown =>
          obtain ⟨rfl, rfl⟩ := List.cons.inj (hup.symm.trans hsent)
          obtain ⟨k, hlink, hopen, hauth⟩ := henrolled.live hlinked
          have hgoodbye : (s.request cmd).kind ≠ .goodbye := s.kind_request cmd ▸ kind_ne_goodbye cmd
          obtain ⟨reply, hreply, hconnections, hanswers⟩ := Process.receive_request hlink hopen
            (f := Frame.of (s.request cmd).kind (s.request cmd).payload) hgoodbye env
          rw [hreceive] at hreply hconnections
          obtain rfl : r = some reply := hreply
          obtain ⟨hnote, hreadable, hfits⟩ := s.note_eq_unreported conn cmd reply
            fun h => s.kind_request cmd ▸ hanswers (s.kind_request cmd ▸ (mutates_iff cmd).mp h)
          have hsame : Site.note conn (Frame.of (s.request cmd).kind (s.request cmd).payload)
              (some reply) = Site.note conn (s.request cmd) (some reply) := rfl
          rw [hsame, hnote, hlog, hdown]
          have henrolled' : ∀ down, Enrolled (p'.connections.lookup conn)
              { s with up := [], down } := fun down =>
            ⟨fun _ => ⟨k, by rw [hconnections]; exact hlink, hopen, hauth⟩, henrolled.generation⟩
          simp only [Exact, hphase]
          refine ⟨hbroken, by simpa only [hphase] using henrolled' (Site.reply [] (some reply)), ?_⟩
          by_cases hfit : reply.payload.length ≤ kMaxFramePayload.toNat
          · rw [Site.reply, transmit_of_short hfit, List.nil_append]
            exact .reply (Frame.of reply.kind reply.payload) rfl hreadable rfl rfl
          -- a reply too large for a frame is lost, but the replies to mutations all fit
          · have hnone : unreported cmd reply = [] := by
              by_contra hne
              exact hfit (hfits hne)
            rw [Site.reply]
            obtain hsome | hempty := transmit_cases reply []
            · exact absurd (of_transmitted hsome).1 hfit
            · rw [hnone, hempty]
              exact .nothing [] rfl (Nat.zero_le _) rfl rfl
      | reply _ _ _ hnone _ => exact absurd (hnone.symm.trans hup) (List.cons_ne_nil _ _).symm
      | nothing _ _ _ hnone _ => exact absurd (hnone.symm.trans hup) (List.cons_ne_nil _ _).symm
  | ended =>
      simp only [Exact, hphase]
      simpa only [hphase] using hbehind

end Session

/-! ### All the sessions -/

namespace Site

variable {β : Type} [StorageBackend β]

/-- Every session is exact. -/
def Exact (s : Site β) : Prop :=
  ∀ conn t, s.sessions.lookup conn = some t →
    t.Exact (s.process.connections.lookup conn) (s.performedFor conn)

theorem conn_of_mem_note {conn : Nat} {f : Frame} {r : Option Frame} {x : Performed}
    (hx : x ∈ note conn f r) : x.conn = conn := by
  unfold note at hx
  split at hx
  · split at hx
    · rw [List.mem_singleton.mp hx]
    · cases hx
  · cases hx

theorem performedFor_receive (s : Site β) (conn other : Nat) (f : Frame) (env : Env β) :
    (s.receive conn f env).2.performedFor other = s.performedFor other ++
      if other = conn then (note conn f (s.process.receive conn f env).1).map Performed.report
      else [] := by
  simp only [receive, performedFor, List.filter_append, List.map_append]
  congr 1
  split
  · next heq =>
      rw [List.filter_eq_self.mpr fun x hx => by simp [conn_of_mem_note hx, heq]]
  · next hne =>
      rw [List.filter_eq_nil_iff.mpr fun x hx => by simpa [conn_of_mem_note hx] using Ne.symm hne,
        List.map_nil]

omit [StorageBackend β] in
theorem Exact.modify {s : Site β} (h : s.Exact) (conn : Nat) {g : Session → Session}
    (hg : ∀ t link log, s.sessions.lookup conn = some t → t.Exact link log → (g t).Exact link log) :
    Exact { s with sessions := s.sessions.modify conn g } := by
  intro other t ht
  obtain ⟨t', ht', rfl⟩ := AList.lookup_modify_eq_some.mp ht
  split
  · next heq =>
      subst heq
      exact hg t' _ _ ht' (h other t' ht')
  · exact h other t' ht'

/-- What happens on a connection that is not a worker's session leaves the sessions exact. -/
theorem Exact.foreign {s : Site β} (h : s.Exact) {conn : Nat} (hconn : conn ∉ s.sessions)
    (f : Frame) (env : Env β) : (s.receive conn f env).2.Exact := by
  intro other t ht
  have hne : other ≠ conn := by
    rintro rfl
    exact hconn (AList.mem_iff_lookup.mpr ⟨t, ht⟩)
  have hlookup : (s.receive conn f env).2.process.connections.lookup other =
      s.process.connections.lookup other := s.process.lookup_connections_receive hne f env
  rw [hlookup, performedFor_receive, if_neg hne, List.append_nil]
  exact h other t ht

theorem Exact.serve {s : Site β} (h : s.Exact) (conn : Nat) (env : Env β) :
    (s.step (.serve conn env)).Exact := by
  rw [step]
  split
  · exact h
  · next session hsession =>
      split
      · next f up hlinked hup =>
          intro other t ht
          rw [AList.lookup_insert_eq_some] at ht
          obtain ⟨rfl, rfl⟩ | ⟨hne, ht⟩ := ht
          · have hlog := s.performedFor_receive other other f env
            rw [if_pos rfl] at hlog
            have hexact := (h other session hsession).serve hlinked hup env Prod.mk.eta.symm
            rw [← hlog] at hexact
            exact hexact
          · have hlookup : (s.receive conn f env).2.process.connections.lookup other =
                s.process.connections.lookup other := s.process.lookup_connections_receive hne f env
            have hlog : (s.receive conn f env).2.performedFor other = s.performedFor other := by
              rw [performedFor_receive, if_neg hne, List.append_nil]
            have hexact := h other t ht
            rw [← hlookup, ← hlog] at hexact
            exact hexact
      · exact h

theorem Exact.step {s : Site β} (h : s.Exact) (e : SiteEvent β) : (s.step e).Exact := by
  cases e with
  | connect conn worker desc =>
      rw [Site.step]
      split
      · exact h
      · next hfresh =>
          simp only [not_or, not_not] at hfresh
          obtain ⟨-, hconn, hlog⟩ := hfresh
          intro other t ht
          obtain ⟨rfl, rfl⟩ | ⟨-, ht⟩ := AList.lookup_insert_eq_some.mp ht
          · exact ⟨rfl, rfl, hlog,
              .hello worker desc rfl rfl fun _ => AList.notMem_iff_lookup.mp hconn⟩
          · exact h other t ht
  -- what the worker does by itself reaches no connection and no log
  | command conn cmd => exact h.modify conn fun t _ _ _ ht => ht.type cmd
  | exit conn => exact h.modify conn fun t _ _ _ ht => ht.exit
  | quit conn => exact h.modify conn fun t _ _ _ ht => ht.quit
  | fail conn => exact h.modify conn fun t _ _ _ ht => ht.fail
  | serve conn env => exact h.serve conn env
  | deliver conn =>
      refine h.modify conn fun t _ _ _ ht => ?_
      cases hdown : t.down with
      | nil => exact ht
      | cons f down => exact ht.take hdown
  | lose conn =>
      intro other t ht
      obtain ⟨t', ht', rfl⟩ := AList.lookup_modify_eq_some.mp ht
      split
      -- the connection that is lost takes the session down; the others keep theirs
      · exact (h other t' ht').cut _
      · next hne =>
          have hlookup : (if conn ∈ s.sessions then s.process.drop conn else s.process).connections.lookup
              other = s.process.connections.lookup other := by
            split
            · exact s.process.lookup_connections_drop hne
            · rfl
          show t'.Exact ((if conn ∈ s.sessions then s.process.drop conn else s.process).connections.lookup
            other) (s.performedFor other)
          rw [hlookup]
          exact h other t' ht'
  | foreign conn f env =>
      rw [Site.step]
      split
      · exact h
      · next hconn => exact h.foreign hconn f env
  | foreignLost conn =>
      rw [Site.step]
      split
      · exact h
      · next hconn =>
          intro other t ht
          have hne : other ≠ conn := by
            rintro rfl
            exact hconn (AList.mem_iff_lookup.mpr ⟨t, ht⟩)
          show t.Exact ((s.process.drop conn).connections.lookup other) (s.performedFor other)
          rw [s.process.lookup_connections_drop hne]
          exact h other t ht

theorem exact_run (p : Process β) (es : List (SiteEvent β)) :
    (Runs.run step ({ process := p } : Site β) es).Exact := by
  refine Runs.invariant (I := Exact) (P := fun _ _ => True) (fun s e h _ => h.step e) ?_
    (Runs.along_of_forall (fun _ _ => trivial) _ es)
  exact fun conn t ht => by simp at ht

/-- A session's worker has been told of all that the coordinator has done for it, in order
and nothing twice, but for at most one mutation; when it waits for nothing on a
connection that has not failed, of all. -/
theorem sessions_exactly_once (p : Process β) (es : List (SiteEvent β)) (conn : Nat) (t : Session)
    (ht : (Runs.run step ({ process := p } : Site β) es).sessions.lookup conn = some t) :
    (∃ last, (Runs.run step ({ process := p } : Site β) es).performedFor conn =
      t.reports ++ last ∧ last.length ≤ 1) ∧
    (t.phase = .idle → t.broken = false →
      (Runs.run step ({ process := p } : Site β) es).performedFor conn = t.reports ∧
      t.auth.generation.value =
        1 + UInt64.ofNat (t.confirmed.countP fun x => x.1.isOwn)) := by
  have hexact := exact_run p es conn t ht
  refine ⟨?_, fun hidle hwhole => ?_⟩
  · obtain ⟨last, hlog, hlength⟩ := hexact.behind
    exact ⟨last, hlog, by omega⟩
  · rw [Session.Exact, hidle] at hexact
    simp only [hwhole, Bool.false_eq_true, if_false] at hexact
    obtain ⟨henrolled, hlog, -, -⟩ := hexact
    exact ⟨hlog, henrolled.generation⟩

/-- Two workers dispatch; the second one has not got its last reply. -/
def twoWorkers : List (SiteEvent SyntheticBackend) :=
  let env := Process.smallEnv
  [.connect 1 7 [], .connect 2 8 [], .serve 1 env, .serve 2 env, .deliver 1, .deliver 2,
    .command 1 (.dispatch 5), .serve 1 env, .deliver 1,
    .command 2 (.dispatch 6), .serve 2 env, .deliver 2, .command 2 (.dispatch 6), .serve 2 env]

def twoWorkersSite : Site SyntheticBackend :=
  Runs.run step { process := Process.smallProcess } twoWorkers

theorem sessions_exactly_once_two_workers :
    ∃ t, twoWorkersSite.sessions.lookup 2 = some t ∧ t.reports.length = 1 ∧
      (twoWorkersSite.performedFor 2).length = 2 ∧
      ∃ last, twoWorkersSite.performedFor 2 = t.reports ++ last ∧ last.length ≤ 1 := by
  have hsome : (twoWorkersSite.sessions.lookup 2).map (·.reports.length) = some 1 := by
    decide +kernel
  obtain ⟨t, ht, hone⟩ := Option.map_eq_some_iff.mp hsome
  exact ⟨t, ht, hone, by decide +kernel,
    (sessions_exactly_once Process.smallProcess twoWorkers 2 t ht).1⟩

/-! ### Dispatch ids -/

def dispatchResult (did : UInt64) : Bytes := putU64 did ++ putU64 1

theorem dispatchResult_inj {did did' : UInt64} :
    dispatchResult did = dispatchResult did' ↔ did = did' := by
  refine ⟨fun h => ?_, congrArg _⟩
  have hread : ∀ d, readU64.run (dispatchResult d) = some (d, putU64 1) := fun d =>
    readU64_eq_some.mpr rfl
  have heq := (hread did).symm.trans ((congrArg readU64.run h).trans (hread did'))
  exact (Prod.mk.inj (Option.some.inj heq)).1

end Site

namespace Coordinator

variable {β : Type} [StorageBackend β]

theorem dispatchCounter_createObject (c : Coordinator β) (payload : Bytes) :
    (c.createObject payload).2.dispatchCounter = c.dispatchCounter := by
  unfold createObject
  split
  · rfl
  · split
    · split
      · rfl
      · split <;> rfl
    · rfl

omit [StorageBackend β] in
theorem dispatchCounter_registerBackend (c : Coordinator β) (boot : WorkerBootId) (env : Env β)
    (payload : Bytes) :
    (c.registerBackend boot env payload).2.dispatchCounter = c.dispatchCounter := by
  unfold registerBackend
  split
  · rfl
  · dsimp only
    split <;> rfl

theorem dispatchCounter_readObject (c : Coordinator β) (payload : Bytes) :
    (c.readObject payload).2.dispatchCounter = c.dispatchCounter := by
  unfold readObject
  split
  · rfl
  · split <;> rfl

theorem dispatchCounter_verify (c : Coordinator β) (payload : Bytes) :
    (c.verify payload).2.dispatchCounter = c.dispatchCounter := by
  unfold verify
  split
  · rfl
  · split <;> rfl

omit [StorageBackend β] in
theorem dispatchCounter_saveMetadata (c : Coordinator β) (env : Env β) (payload : Bytes)
    (files : Table Bytes Bytes) :
    (c.saveMetadata env payload files).2.1.dispatchCounter = c.dispatchCounter := by
  unfold saveMetadata
  split
  · rfl
  · dsimp only
    split <;> rfl

omit [StorageBackend β] in
theorem dispatchCounter_recoverMetadata (c : Coordinator β) (env : Env β) (payload : Bytes)
    (files : Table Bytes Bytes) :
    (c.recoverMetadata env payload files).2.dispatchCounter = c.dispatchCounter := by
  unfold recoverMetadata
  split
  · rfl
  · dsimp only
    split <;> rfl

omit [StorageBackend β] in
theorem dispatch_cases (c : Coordinator β) (payload : Bytes) :
    (c.commit payload).1.isOk = false ∧ (c.commit payload).2.dispatchCounter = c.dispatchCounter ∨
    (c.commit payload).1 = replyOk .commit (Site.dispatchResult c.dispatchCounter) ∧
      (c.commit payload).2.dispatchCounter = c.dispatchCounter + 1 := by
  unfold commit
  split
  · exact .inl ⟨rfl, rfl⟩
  · split
    · exact .inr ⟨rfl, rfl⟩
    · exact .inl ⟨rfl, rfl⟩

end Coordinator

namespace Process

variable {β : Type} [StorageBackend β]

omit [StorageBackend β] in
theorem dispatchCounter_hello (p : Process β) (conn : Nat) (f : Frame) (nowNs : UInt64) :
    (p.hello conn f nowNs).2.c.dispatchCounter = p.c.dispatchCounter := by
  unfold hello
  split
  · rfl
  · split <;> rfl

omit [StorageBackend β] in
theorem dispatchCounter_drop (p : Process β) (conn : Nat) :
    (p.drop conn).c.dispatchCounter = p.c.dispatchCounter := by
  unfold drop
  split <;> rfl

/-- The counter moves when a dispatch is done, and at no other frame. -/
theorem receive_dispatch (p : Process β) (conn : Nat) (f : Frame) (env : Env β) :
    (p.receive conn f env).2.c.dispatchCounter = p.c.dispatchCounter ∧
      (f.kind = .commit → ∀ r, (p.receive conn f env).1 = some r → r.isOk = false) ∨
    f.kind = .commit ∧
      (p.receive conn f env).1 = some (replyOk .commit (Site.dispatchResult p.c.dispatchCounter)) ∧
      (p.receive conn f env).2.c.dispatchCounter = p.c.dispatchCounter + 1 := by
  unfold receive
  split
  · refine .inl ⟨p.dispatchCounter_hello conn f env.nowNs, fun hkind r hr => ?_⟩
    have hnot : f.kind ≠ .hello := by simp [hkind]
    simp [hello, hnot] at hr
  · next k _ =>
      split
      · exact .inl ⟨rfl, fun _ r hr => absurd hr (Option.some_ne_none r).symm⟩
      · by_cases hkind : f.kind = .commit
        · simp only [request, hkind, reply]
          obtain ⟨hrefused, hsame⟩ | ⟨hdone, hnext⟩ := p.c.dispatch_cases f.payload
          · exact .inl ⟨hsame, fun _ r hr => Option.some.inj hr ▸ hrefused⟩
          · exact .inr ⟨trivial, congrArg some hdone, hnext⟩
        · refine .inl ⟨?_, fun h => absurd h hkind⟩
          unfold request
          split
          · rfl
          · rfl
          · exact p.c.dispatchCounter_registerBackend k.boot env f.payload
          · exact p.c.dispatchCounter_createObject f.payload
          · exact p.c.dispatchCounter_readObject f.payload
          · exact p.c.dispatchCounter_verify f.payload
          · next h => exact absurd h hkind
          · exact p.c.dispatchCounter_saveMetadata env f.payload p.files
          · exact p.c.dispatchCounter_recoverMetadata env f.payload p.files
          · rfl

end Process

namespace Site

variable {β : Type} [StorageBackend β]

def dispatched (s : Site β) : List Bytes :=
  (s.performed.filter (·.kind = .commit)).map Performed.result

/-- The dispatches done since the counter stood at `start` have the ids that follow. -/
def Numbered (start : UInt64) (s : Site β) : Prop :=
  s.dispatched = (List.range s.dispatched.length).map
      (fun i => dispatchResult (start + UInt64.ofNat i)) ∧
    s.process.c.dispatchCounter = start + UInt64.ofNat s.dispatched.length

theorem Numbered.receive {start : UInt64} {s : Site β} (h : s.Numbered start) (conn : Nat)
    (f : Frame) (env : Env β) : (s.receive conn f env).2.Numbered start := by
  obtain ⟨hids, hcounter⟩ := h
  have hdispatched : (s.receive conn f env).2.dispatched = s.dispatched ++
      ((note conn f (s.process.receive conn f env).1).filter (·.kind = .commit)).map
        Performed.result := by
    simp only [Site.receive, dispatched, List.filter_append, List.map_append]
  have hprocess : (s.receive conn f env).2.process = (s.process.receive conn f env).2 := rfl
  obtain ⟨hsame, hrefused⟩ | ⟨hkind, hreply, hnext⟩ := s.process.receive_dispatch conn f env
  · have hnone : (note conn f (s.process.receive conn f env).1).filter (·.kind = .commit) = [] := by
      refine List.filter_eq_nil_iff.mpr fun x hx => ?_
      unfold note at hx
      split at hx
      · next r hr =>
          split at hx
          · next hdone =>
              rw [List.mem_singleton.mp hx]
              have hne : f.kind ≠ .commit := fun hkind => by simp [hrefused hkind r hr] at hdone
              simp [hne]
          · cases hx
      · cases hx
    rw [hnone, List.map_nil, List.append_nil] at hdispatched
    exact ⟨by rw [hdispatched]; exact hids, by rw [hprocess, hsame, hdispatched, hcounter]⟩
  · have hread : frameReply (replyOk .commit (dispatchResult s.process.c.dispatchCounter)) =
        { ok := true, result := dispatchResult s.process.c.dispatchCounter } :=
      frameReply_replyOk _ (by simp [dispatchResult])
    have hone : ((note conn f (s.process.receive conn f env).1).filter (·.kind = .commit)).map
        Performed.result = [dispatchResult (start + UInt64.ofNat s.dispatched.length)] := by
      simp [hreply, note, hkind, hread, ← hcounter]
    rw [hone] at hdispatched
    refine ⟨?_, ?_⟩
    · rw [hdispatched, List.length_append, List.length_singleton, List.range_succ, List.map_append,
        ← hids, List.map_singleton]
    · rw [hprocess, hnext, hcounter, hdispatched, List.length_append, List.length_singleton,
        UInt64.ofNat_add, UInt64.add_assoc]
      rfl

theorem Numbered.step {start : UInt64} {s : Site β} (h : s.Numbered start) (e : SiteEvent β) :
    (s.step e).Numbered start := by
  have hdrop : ∀ conn sessions, Numbered start
      { s with process := s.process.drop conn, sessions } := fun conn _ =>
    ⟨h.1, (s.process.dispatchCounter_drop conn).trans h.2⟩
  cases e with
  | connect conn worker desc =>
      rw [Site.step]
      split
      · exact h
      · exact h
  | serve conn env =>
      rw [Site.step]
      split
      · exact h
      · split
        · next f up _ _ => exact h.receive conn f env
        · exact h
  | lose conn =>
      rw [Site.step]
      split
      · exact hdrop conn _
      · exact h
  | foreign conn f env =>
      rw [Site.step]
      split
      · exact h
      · exact h.receive conn f env
  | foreignLost conn =>
      rw [Site.step]
      split
      · exact h
      · exact hdrop conn _
  | _ => exact h

theorem numbered_run (p : Process β) (es : List (SiteEvent β)) :
    (Runs.run step ({ process := p } : Site β) es).Numbered p.c.dispatchCounter := by
  refine Runs.invariant (I := Numbered p.c.dispatchCounter) (P := fun _ _ => True)
    (fun s e h _ => h.step e) ⟨rfl, ?_⟩ (Runs.along_of_forall (fun _ _ => trivial) _ es)
  exact (UInt64.add_zero _).symm

omit [StorageBackend β] in
theorem Numbered.nodup {start : UInt64} {s : Site β} (h : s.Numbered start)
    (hcount : s.dispatched.length ≤ 2 ^ 64) : s.dispatched.Nodup := by
  rw [h.1]
  refine List.Nodup.map_on (fun i hi j hj hij => ?_) List.nodup_range
  rw [List.mem_range] at hi hj
  have hput : UInt64.ofNat i = UInt64.ofNat j :=
    (UInt64.add_right_inj start).mp (dispatchResult_inj.mp hij)
  have hmod : i % 2 ^ 64 = j % 2 ^ 64 := by
    simpa using congrArg UInt64.toNat hput
  rwa [Nat.mod_eq_of_lt (by omega), Nat.mod_eq_of_lt (by omega)] at hmod

omit [StorageBackend β] in
theorem mem_performed {s : Site β} {conn : Nat} {x : WireMessageKind × Bytes}
    (hx : x ∈ s.performedFor conn) : ⟨conn, x.1, x.2⟩ ∈ s.performed := by
  obtain ⟨y, hy, rfl⟩ := List.mem_map.mp hx
  obtain ⟨hmem, hconn⟩ := List.mem_filter.mp hy
  obtain rfl : y.conn = conn := of_decide_eq_true hconn
  exact hmem

omit [StorageBackend β] in
theorem sublist_dispatched (s : Site β) (conn : Nat) :
    (((s.performedFor conn).filter (·.1 = .commit)).map Prod.snd).Sublist s.dispatched := by
  have heq : ((s.performedFor conn).filter (·.1 = .commit)).map Prod.snd =
      ((s.performed.filter (·.conn = conn)).filter (·.kind = .commit)).map Performed.result := by
    rw [performedFor, List.filter_map, List.map_map]
    rfl
  rw [heq, List.filter_comm]
  exact List.Sublist.map _ List.filter_sublist

/-- Dispatch ids are handed out in order, and no two dispatches that workers have been told
of have one id, be it one worker or two. -/
theorem dispatch_ids_distinct (p : Process β) (es : List (SiteEvent β))
    (hcount : (Runs.run step ({ process := p } : Site β) es).dispatched.length ≤ 2 ^ 64)
    (conn conn' : Nat) (t t' : Session)
    (ht : (Runs.run step ({ process := p } : Site β) es).sessions.lookup conn = some t)
    (ht' : (Runs.run step ({ process := p } : Site β) es).sessions.lookup conn' = some t') :
    (Runs.run step ({ process := p } : Site β) es).dispatched =
      (List.range (Runs.run step ({ process := p } : Site β) es).dispatched.length).map
        (fun i => dispatchResult (p.c.dispatchCounter + UInt64.ofNat i)) ∧
    ((t.reports.filter (·.1 = .commit)).map Prod.snd).Nodup ∧
    (conn ≠ conn' → ∀ result, (.commit, result) ∈ t.reports → (.commit, result) ∉ t'.reports) := by
  have hnumbered := numbered_run p es
  have hnodup := hnumbered.nodup hcount
  generalize hs : Runs.run step ({ process := p } : Site β) es = s at *
  have hreports : ∀ conn t, s.sessions.lookup conn = some t →
      t.reports <+: s.performedFor conn := fun conn t ht => by
    obtain ⟨last, hlog, -⟩ := (hs ▸ exact_run p es : s.Exact) conn t ht |>.behind
    exact ⟨last, hlog.symm⟩
  have hdone : ∀ conn t result, s.sessions.lookup conn = some t → (.commit, result) ∈ t.reports →
      (⟨conn, .commit, result⟩ : Performed) ∈ s.performed.filter (·.kind = .commit) :=
    fun conn t result ht hresult =>
      List.mem_filter.mpr ⟨mem_performed ((hreports conn t ht).subset hresult), rfl⟩
  refine ⟨hnumbered.1, ?_, fun hne result hresult hresult' => ?_⟩
  · have hsub : ((t.reports.filter (·.1 = .commit)).map Prod.snd).Sublist s.dispatched :=
      (((hreports conn t ht).sublist.filter _).map _).trans (s.sublist_dispatched conn)
    exact hnodup.sublist hsub
  · have hsame := List.inj_on_of_nodup_map hnodup (hdone conn t result ht hresult)
      (hdone conn' t' result ht' hresult') rfl
    exact hne (congrArg Performed.conn hsame)

theorem dispatch_ids_distinct_two_workers :
    ∃ t t', twoWorkersSite.sessions.lookup 1 = some t ∧ twoWorkersSite.sessions.lookup 2 = some t' ∧
      t.reports = [(.commit, dispatchResult 1)] ∧ (.commit, dispatchResult 1) ∉ t'.reports := by
  have hsome : (twoWorkersSite.sessions.lookup 1).map (·.reports) =
      some [(.commit, dispatchResult 1)] := by decide +kernel
  have hsome' : (twoWorkersSite.sessions.lookup 2).isSome := by decide +kernel
  obtain ⟨t, ht, hreports⟩ := Option.map_eq_some_iff.mp hsome
  obtain ⟨t', ht'⟩ := Option.isSome_iff_exists.mp hsome'
  refine ⟨t, t', ht, ht', hreports, ?_⟩
  have hcount : twoWorkersSite.dispatched.length = 3 := by decide +kernel
  exact (dispatch_ids_distinct Process.smallProcess twoWorkers (by
    have heq : (Runs.run step { process := Process.smallProcess } twoWorkers).dispatched.length = 3 :=
      hcount
    omega) 1 2 t t' ht ht').2.2 (by decide) _ (by simp [hreports])

end Site

end StorageFabric
