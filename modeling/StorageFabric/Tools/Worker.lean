import StorageFabric.Tools.Coordinator

/-!
The worker program: the frames that it sends, and what it reads out of the reply
to its handshake.

It keeps the epoch, the boot id and the worker id of that reply and counts its
own generation, so that what it creates and commits on its own account goes under an
envelope of the form `Connection.handed`. The epoch and the boot id of a replayed commit
are those that it is told to send.
-/

namespace StorageFabric

open ByteWriter ByteReader Codec

def putAuthority (a : AuthorityEnvelope) : Bytes :=
  putU64 a.epoch.value ++ LittleEndian.encode 8 a.boot.value ++
    LittleEndian.encode 8 a.worker.value ++ putU64 a.generation.value ++ putU8 a.origin.toByte

def helloFrame (worker : UInt64) (desc : Bytes) : Frame :=
  { kind := .hello, payload := putU64 worker ++ putBlob desc }

def createFrame (a : AuthorityEnvelope) (kind : EnumValue ObjectKind) (content : Bytes) : Frame :=
  { kind := .createObject
    payload := putAuthority a ++ putU8 kind.toByte ++ putU64 (UInt64.ofNat content.length) ++
      putBlob content }

def dispatchFrame (a : AuthorityEnvelope) (command : UInt64) : Frame :=
  { kind := .commit, payload := putAuthority a ++ putU64 command }

def saveFrame (path : Bytes) : Frame := { kind := .publish, payload := putBlob path }

def recoverFrame (path : Bytes) : Frame := { kind := .recover, payload := putBlob path }

/-- The envelope of the worker on a connection at the given generation. -/
def Connection.handed (k : Connection) (gen : AuthorityGeneration) : AuthorityEnvelope where
  epoch := k.epoch
  boot := k.boot
  worker := k.worker
  generation := gen
  origin := .known .worker

/-- The reply to the handshake, with the first generation. -/
def readHelloReply : ByteReader AuthorityEnvelope := do
  let epoch ← readU64
  let boot ← readU64
  let worker ← readU64
  let _magic ← readU32
  let _ackcrc ← readU32
  return {
    epoch := ⟨epoch⟩
    boot := ⟨boot.toNat⟩
    worker := ⟨worker.toNat⟩
    generation := ⟨1⟩
    origin := .known .worker }

/-! ### What is sent is what is read -/

theorem encode_eq_putU64 (n : Nat) : LittleEndian.encode 8 n = putU64 (UInt64.ofNat n) := by
  rw [putU64, UInt64.toNat_ofNat']
  exact (LittleEndian.encode_mod 8 n).symm

theorem readAuthority_putAuthority {a : AuthorityEnvelope} (hboot : a.boot.value < 2 ^ 64)
    (hworker : a.worker.value < 2 ^ 64) (rest : Bytes) :
    readAuthority.run (putAuthority a ++ rest) = some (a, rest) := by
  have hid : ∀ {n : Nat}, n < 2 ^ 64 → (UInt64.ofNat n).toNat = n := fun h => by
    rw [UInt64.toNat_ofNat', Nat.mod_eq_of_lt h]
  simp only [putAuthority, encode_eq_putU64, List.append_assoc]
  simp only [readAuthority, run_bind_eq_some, readU64_eq_some, readU8_eq_some, run_pure_eq_some]
  refine ⟨_, _, rfl, _, _, rfl, _, _, rfl, _, _, rfl, _, _, rfl, ?_, rfl⟩
  rw [hid hboot, hid hworker, EnumValue.ofByte_toByte]

theorem readHelloReply_hello {β : Type} {p : Process β} {conn : Nat} {f r : Frame}
    {nowNs : UInt64} (h : (p.hello conn f nowNs).1 = some r) :
    ∃ k, (p.hello conn f nowNs).2.connections.lookup conn = some k ∧
      readHelloReply.run r.payload = some (k.handed ⟨1⟩, []) := by
  unfold Process.hello at h ⊢
  by_cases hkind : f.kind ≠ .hello
  · rw [if_pos hkind] at h
    cases h
  · rw [if_neg hkind] at h ⊢
    cases hread : readHello.run f.payload with
    | none => simp [hread] at h
    | some p' =>
        obtain ⟨⟨worker, desc⟩, rest⟩ := p'
        simp only [hread, Option.some.injEq] at h
        refine ⟨_, AList.lookup_insert _, ?_⟩
        have hboot : (Process.bootId nowNs (p.bootNonce + 1)).value < 2 ^ 64 := UInt64.toNat_lt _
        rw [← h]
        simp only [encode_eq_putU64, List.append_assoc]
        simp only [readHelloReply, run_bind_eq_some, readU64_eq_some, readU32_eq_some,
          run_pure_eq_some]
        refine ⟨_, _, rfl, _, _, rfl, _, _, rfl, _, _, rfl, _, [], rfl, ?_, rfl⟩
        rw [UInt64.toNat_ofNat', Nat.mod_eq_of_lt hboot]
        rfl

end StorageFabric
