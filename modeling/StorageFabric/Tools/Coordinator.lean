import StorageFabric.Runtime.Access
import StorageFabric.Runtime.Recovery
import StorageFabric.Wire.Protocol

/-!
The coordinator process.

It owns one runtime and serves the frames of its worker connections. A frame
that arrives on a connection is the handshake if there was none yet, and a
request after that. What the rest of the machine does is an argument of the
event (`Env`): the clock, the backend that is built over a directory, and what
the file system makes of a save.
-/

namespace StorageFabric

open ByteWriter ByteReader

/-- The state that the connections share. -/
structure Coordinator (β : Type) where
  sf : Fabric β := {}
  liveBoots : List WorkerBootId := []
  dispatchCounter : UInt64 := 1
  metadataPath : Bytes := []
  defaultBackend : StorageBackendId := default
  coordRoot : Bytes := []

/-- What a connection was given by its handshake. -/
structure Connection where
  /-- How many handshakes had been served, this one included. -/
  nonce : Nat
  boot : WorkerBootId
  worker : WorkerId
  epoch : CoordinatorEpoch
  closing : Bool := false
  deriving DecidableEq

structure Env (β : Type) where
  nowNs : UInt64 := 0
  fault : SaveFault := .none
  /-- The backend over a root directory, and what it says of its capacity. -/
  localBackend : Bytes → β × Result BackendCapacity

/-- The process: the shared state, the nonce of the last handshake, the open
connections, and the files. -/
structure Process (β : Type) where
  c : Coordinator β := {}
  bootNonce : Nat := 0
  connections : Table Nat Connection := ∅
  files : Table Bytes Bytes := ∅

inductive Event (β : Type)
  /-- A frame is received on the connection. -/
  | frame (conn : Nat) (f : Frame) (env : Env β)
  /-- Receiving fails, or the connection is closing. -/
  | lost (conn : Nat)

/-! ### Requests and replies -/

/-- The origin is cast as it is. -/
def readAuthority : ByteReader AuthorityEnvelope := do
  let ep ← readU64
  let bo ← readU64
  let wo ← readU64
  let ge ← readU64
  let ori ← readU8
  return {
    epoch := ⟨ep⟩
    boot := ⟨bo.toNat⟩
    worker := ⟨wo.toNat⟩
    generation := ⟨ge⟩
    origin := .ofByte ori }

structure CreateRequest where
  incoming : AuthorityEnvelope
  kind : EnumValue ObjectKind
  size : UInt64
  content : Bytes
  deriving DecidableEq

def readCreate : ByteReader CreateRequest := do
  let incoming ← readAuthority
  let kind ← readU8
  let size ← readU64
  let content ← readBlob
  return { incoming, kind := .ofByte kind, size, content }

def readCommit : ByteReader (AuthorityEnvelope × UInt64) := do
  let incoming ← readAuthority
  let command ← readU64
  return (incoming, command)

def readHello : ByteReader (UInt64 × Bytes) := do
  let worker ← readU64
  let desc ← readBlob
  return (worker, desc)

def replyOk (kind : WireMessageKind) (result : Bytes) : Frame :=
  { kind, payload := putU8 1 ++ putBlob result }

def replyErr (kind : WireMessageKind) (err : Bytes) : Frame :=
  { kind, payload := putU8 0 ++ putBlob err }

def Frame.isOk (f : Frame) : Bool := f.payload.head? = some 1

@[simp] theorem isOk_replyOk (kind : WireMessageKind) (result : Bytes) :
    (replyOk kind result).isOk = true := rfl

@[simp] theorem isOk_replyErr (kind : WireMessageKind) (err : Bytes) :
    (replyErr kind err).isOk = false := rfl

/-- `dir / leaf`, for a relative leaf. -/
def joinPath (dir leaf : Bytes) : Bytes :=
  if dir.isEmpty || dir.getLast? = some 47 then dir ++ leaf else dir ++ ascii "/" ++ leaf

namespace Coordinator

variable {β : Type}

/-! ### Authority -/

/-- The baseline authority of an epoch: no boot and no generation. -/
def baseline (epoch : CoordinatorEpoch) : AuthorityEnvelope where
  epoch
  boot := ⟨0⟩
  worker := ⟨0⟩
  generation := ⟨0⟩
  origin := .known .coordinator

def resetAuthorityBaseline (c : Coordinator β) : Coordinator β :=
  { c with sf := c.sf.setAuthority (baseline c.sf.authority.epoch) }

def onWorkerLoss (c : Coordinator β) (boot : WorkerBootId) : Coordinator β :=
  resetAuthorityBaseline
    { c with
      liveBoots := c.liveBoots.erase boot
      sf := c.sf.newCoordinatorEpoch }

/-! ### Requests that only touch the shared state -/

def registerBackend (c : Coordinator β) (boot : WorkerBootId) (env : Env β) (payload : Bytes) :
    Frame × Coordinator β :=
  match readBlob.run payload with
  | none => (replyErr .registerBackend (ascii "REGISTER_BACKEND: missing name"), c)
  | some (name, _) =>
      let root := joinPath c.coordRoot (ascii "wb-" ++ name ++ ascii "-" ++ boot.str)
      let (be, probe) := env.localBackend root
      match c.sf.registerLocalBackend name (.known .localFilesystem) be probe with
      | (.error s, sf) => (replyErr .registerBackend s.message, { c with sf })
      | (.ok bid, sf) =>
          (replyOk .registerBackend (LittleEndian.encode 8 bid.value), { c with sf })

section Backend

variable [StorageBackend β]

/-- The options that an object is published with. -/
def createOptions (incoming : AuthorityEnvelope) : PublishOptions :=
  { authority := incoming, requiredReplicas := 1, eagerVerify := true }

def createObject (c : Coordinator β) (payload : Bytes) : Frame × Coordinator β :=
  match readCreate.run payload with
  | none => (replyErr .createObject (ascii "CREATE_OBJECT: malformed body"), c)
  | some (req, _) =>
      if req.incoming.isStrictlyNewerThan c.sf.authority then
        match c.sf.defineObject req.kind req.size req.content req.incoming { minReplicas := 1 }
          (.known .high) with
        | (.error s, sf) => (replyErr .createObject s.message, { c with sf })
        | (.ok obj, sf) =>
            match sf.publishTo obj req.content c.defaultBackend (createOptions req.incoming) with
            | (.error s, sf) => (replyErr .createObject s.message, { c with sf })
            | (.ok p, sf) =>
                (replyOk .createObject (LittleEndian.encode 8 obj.id.value ++
                    putU64 obj.generation.value ++ LittleEndian.encode 8 p.id.value ++
                    obj.digest.bytes),
                  { c with sf := sf.setAuthority req.incoming })
      else (replyErr .createObject (ascii "stale authority"), c)

def commit (c : Coordinator β) (payload : Bytes) : Frame × Coordinator β :=
  match readCommit.run payload with
  | none => (replyErr .commit (ascii "COMMIT: malformed body"), c)
  | some ((incoming, _), _) =>
      if incoming.isStrictlyNewerThan c.sf.authority then
        (replyOk .commit (putU64 c.dispatchCounter ++ putU64 1),
          { c with
            dispatchCounter := c.dispatchCounter + 1
            sf := c.sf.setAuthority incoming })
      else (replyErr .commit (ascii "stale authority"), c)

def readObject (c : Coordinator β) (payload : Bytes) : Frame × Coordinator β :=
  match readU64.run payload with
  | none => (replyErr .readObject (ascii "READ_OBJECT: missing id"), c)
  | some (oid, _) =>
      match c.sf.read ⟨oid.toNat⟩ none with
      | (.error s, sf) => (replyErr .readObject s.message, { c with sf })
      | (.ok data, sf) =>
          (replyOk .readObject (putU64 (UInt64.ofNat data.length) ++ putBlob data), { c with sf })

def verify (c : Coordinator β) (payload : Bytes) : Frame × Coordinator β :=
  match readU64.run payload with
  | none => (replyErr .verify (ascii "VERIFY: missing placement id"), c)
  | some (pid, _) =>
      match c.sf.verify ⟨pid.toNat⟩ with
      | (.error s, sf) => (replyErr .verify s.message, { c with sf })
      | (.ok vr, sf) =>
          (replyOk .verify (putU8 (if vr.ok then 1 else 0) ++ putU64 (UInt64.ofNat vr.size)),
            { c with sf })

end Backend

/-! ### Saving and recovering -/

/-- The path in a request, or the configured one if it is empty. -/
def choosePath (c : Coordinator β) (path : Bytes) : Bytes :=
  if path.isEmpty then c.metadataPath else path

def saveMetadata (c : Coordinator β) (env : Env β) (payload : Bytes) (files : Table Bytes Bytes) :
    Frame × Coordinator β × Table Bytes Bytes :=
  match readBlob.run payload with
  | none => (replyErr .publish (ascii "SAVE: missing path"), c, files)
  | some (path, _) =>
      let (st, sf, files) := c.sf.save (c.choosePath path) env.fault files
      if st.isOk then (replyOk .publish [], { c with sf }, files)
      else (replyErr .publish st.toString, { c with sf }, files)

def recoverMetadata (c : Coordinator β) (env : Env β) (payload : Bytes)
    (files : Table Bytes Bytes) : Frame × Coordinator β :=
  match readBlob.run payload with
  | none => (replyErr .recover (ascii "RECOVER: missing path"), c)
  | some (path, _) =>
      let (st, sf) := c.sf.recover (c.choosePath path) files env.nowNs
      if st.isOk then (replyOk .recover [], resetAuthorityBaseline { c with sf })
      else (replyErr .recover st.toString, { c with sf })

/-- The state before the first connection; `localBackend` is what is built over
the root directory. -/
def start (metadataPath coordRoot : Bytes) (localBackend : β × Result BackendCapacity) :
    Coordinator β :=
  let sf := ({} : Fabric β).setAuthority (baseline ⟨1⟩)
  let (bid, sf) := sf.registerLocalBackend (ascii "coord-local") (.known .localFilesystem)
    localBackend.1 localBackend.2
  -- the registration never fails
  { sf, metadataPath, coordRoot, defaultBackend := bid.toOption.getD default }

end Coordinator

/-! ### Connections -/

namespace Process

variable {β : Type}

def authority (p : Process β) : AuthorityEnvelope := p.c.sf.authority

/-- The boot id of the handshake with the given nonce. -/
def bootId (nowNs : UInt64) (nonce : Nat) : WorkerBootId :=
  let bv := nowNs ^^^ UInt64.ofNat nonce
  ⟨(if bv = 0 then 1 else bv).toNat⟩

def hello (p : Process β) (conn : Nat) (f : Frame) (nowNs : UInt64) : Option Frame × Process β :=
  if f.kind ≠ .hello then (none, p)
  else
    match readHello.run f.payload with
    | none => (none, p)
    | some ((worker, _), _) =>
        let nonce := p.bootNonce + 1
        let boot := bootId nowNs nonce
        let epoch := p.authority.epoch
        (some {
          kind := .hello
          payload := putU64 epoch.value ++ LittleEndian.encode 8 boot.value ++ putU64 worker ++
            putU32 kMetaMagic ++ putU32 (crc32 (ascii "ACK")) },
          { p with
            c := { p.c with liveBoots := p.c.liveBoots ++ [boot] }
            bootNonce := nonce
            connections := p.connections.insert conn { nonce, boot, worker := ⟨worker.toNat⟩, epoch } })

/-- A request that only touches the shared state. -/
def reply (p : Process β) (r : Frame × Coordinator β) : Option Frame × Process β :=
  (some r.1, { p with c := r.2 })

def request [StorageBackend β] (p : Process β) (conn : Nat) (k : Connection) (f : Frame)
    (env : Env β) : Option Frame × Process β :=
  match f.kind with
  | .goodbye =>
      (none, { p with connections := p.connections.modify conn fun k => { k with closing := true } })
  | .ping => p.reply (replyOk .pong [], p.c)
  | .registerBackend => p.reply (p.c.registerBackend k.boot env f.payload)
  | .createObject => p.reply (p.c.createObject f.payload)
  | .readObject => p.reply (p.c.readObject f.payload)
  | .verify => p.reply (p.c.verify f.payload)
  | .commit => p.reply (p.c.commit f.payload)
  | .publish =>
      let (r, c, files) := p.c.saveMetadata env f.payload p.files
      (some r, { p with c, files })
  | .recover => p.reply (p.c.recoverMetadata env f.payload p.files)
  | kind => p.reply (replyErr kind (ascii "unsupported request kind"), p.c)

def drop (p : Process β) (conn : Nat) : Process β :=
  match p.connections.lookup conn with
  | none => p
  | some k => { p with c := p.c.onWorkerLoss k.boot, connections := p.connections.erase conn }

/-- A frame: the handshake of a new connection, or a request. -/
def receive [StorageBackend β] (p : Process β) (conn : Nat) (f : Frame) (env : Env β) :
    Option Frame × Process β :=
  match p.connections.lookup conn with
  | none => p.hello conn f env.nowNs
  | some k => if k.closing then (none, p) else p.request conn k f env

def step [StorageBackend β] (p : Process β) : Event β → Process β
  | .frame conn f env => (p.receive conn f env).2
  | .lost conn => p.drop conn

def start (metadataPath coordRoot : Bytes) (localBackend : β × Result BackendCapacity)
    (files : Table Bytes Bytes) : Process β :=
  { c := Coordinator.start metadataPath coordRoot localBackend, files }

end Process

end StorageFabric
