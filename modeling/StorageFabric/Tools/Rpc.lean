import StorageFabric.Tools.Worker
import StorageFabric.Wire.Channel

/-!
A request and its reply, as the worker sees them.

Both programs send a frame as the bytes that it encodes to, and receive one by its
header first. The body of a reply is a byte that tells success and a blob; what is in
the blob depends on the request.
-/

namespace StorageFabric

open ByteWriter ByteReader Codec

/-! ### Frames on a connection -/

/-- The bytes that are sent for a frame. -/
def sendFrame (f : Frame) : Result Bytes :=
  let raw := encodeFrame f.kind f.payload
  if raw.isEmpty then Result.fail .overflow "frame too large" else .ok raw

def recvExact (n : Nat) (stream : Bytes) : Result (Bytes × Bytes) :=
  if stream.length < n then Result.fail .truncated "peer closed"
  else .ok (stream.take n, stream.drop n)

def recvFrameLocal (stream : Bytes) : Result Frame :=
  match recvExact kFrameHeaderSize stream with
  | .error s => .error s
  | .ok (h, stream) =>
      match readFrameHeader.run h with
      | none => Result.fail .truncated "bad frame header"
      | some (header, _) =>
          if header.magic ≠ kFrameMagic then Result.fail .protocolError "bad magic"
          else if header.version ≠ kProtocolVersion then
            Result.fail .protocolError "unsupported version"
          else if kMaxFramePayload < header.length then
            Result.fail .overflow "oversized payload"
          else
            match recvExact header.length.toNat stream with
            | .error s => .error s
            | .ok (payload, _) => (decodeFrame (h ++ payload)).1

theorem recvExact_append {n : Nat} {front : Bytes} (h : front.length = n) (rest : Bytes) :
    recvExact n (front ++ rest) = .ok (front, rest) := by
  have hlong : ¬(front ++ rest).length < n := by
    rw [List.length_append]
    omega
  rw [recvExact, if_neg hlong, List.take_left' h, List.drop_left' h]

theorem recvFrameLocal_of_decode {data : Bytes} {f : Frame} {n : Nat}
    (h : decodeFrame data = (.ok f, n)) : recvFrameLocal data = .ok f := by
  obtain ⟨hmax, hf, -, rest, rfl⟩ := decodeFrame_iff.mp h
  let word := UInt32.ofNat f.payload.length
  have hword : word.toNat = f.payload.length := by
    rw [UInt32.toNat_ofNat', Nat.mod_eq_of_lt]
    exact Nat.lt_of_le_of_lt hmax kMaxFramePayload.toNat_lt
  let front := frameHeader f.kind.toWord word ++ putU32 f.crc
  have hfront : front.length = kFrameHeaderSize := by
    simp [front, kFrameHeaderSize]
  have hbytes : frameBytes f.kind f.payload = front ++ f.payload := by
    have hcrc : f.crc = frameCrc (frameHeader f.kind.toWord word) f.payload :=
      congrArg Frame.crc hf
    rw [frameBytes, ← hcrc]
  have hheader : readFrameHeader.run front =
      some ({
        magic := kFrameMagic
        version := kProtocolVersion
        kindRaw := f.kind.toWord
        length := word
        storedCrc := f.crc }, []) := by
    rw [readFrameHeader_eq_some]
    simp only [front, frameHeader, List.append_assoc, List.append_nil]
  have hroom : ¬kMaxFramePayload < word := by
    rw [UInt32.lt_iff_toNat_lt, hword]
    exact Nat.not_lt.mpr hmax
  have hdecode : decodeFrame (front ++ f.payload) =
      (.ok f, kFrameHeaderSize + f.payload.length) :=
    decodeFrame_iff.mpr ⟨hmax, hf, rfl, [], by rw [hbytes, List.append_nil]⟩
  rw [hbytes, List.append_assoc, recvFrameLocal, recvExact_append hfront]
  simp only [hheader, ne_eq, not_true_eq_false, if_false, hroom,
    recvExact_append hword.symm rest, hdecode]

theorem sendFrame_received {f : Frame} (h : f.payload.length ≤ kMaxFramePayload.toNat) :
    ∃ sent, sendFrame f = .ok sent ∧ recvFrameLocal sent = .ok (Frame.of f.kind f.payload) := by
  have hencode : encodeFrame f.kind f.payload = frameBytes f.kind f.payload := encodeFrame_eq h
  refine ⟨frameBytes f.kind f.payload, ?_, ?_⟩
  · have hne : (frameBytes f.kind f.payload).isEmpty = false := by
      rw [List.isEmpty_eq_false_iff, ← List.length_pos_iff, length_frameBytes]
      exact Nat.add_pos_left (by decide) _
    simp only [sendFrame, hencode, hne, Bool.false_eq_true, if_false]
  · have hdecode := @decodeFrame_encodeFrame f.kind f.payload h []
    rw [hencode, List.append_nil] at hdecode
    exact recvFrameLocal_of_decode hdecode

/-! ### Replies -/

structure Reply where
  ok : Bool := false
  result : Bytes := []
  err : Bytes := []
  deriving DecidableEq

/-- The body of a reply is `[ok u8][blob]`. -/
def readReply : ByteReader (UInt8 × Bytes) := do
  let okb ← readU8
  let body ← readBlob
  return (okb, body)

/-- What `rpc` makes of the bytes that arrive after its request is sent. -/
def rpcReply (stream : Bytes) : Reply :=
  match recvFrameLocal stream with
  | .error s => { err := ascii "recv(" ++ ascii s.code.name ++ ascii "): " ++ s.message }
  | .ok f =>
      match readReply.run f.payload with
      | none => { err := ascii "malformed reply from coordinator" }
      | some ((okb, body), _) =>
          if okb = 1 then { ok := true, result := body } else { err := body }

/-- A command that sends a request and reads its result with `r`, or what it prints. -/
def commandReply {α : Type} (name : String) (r : ByteReader α) (stream : Bytes) : Except Bytes α :=
  let reply := rpcReply stream
  if reply.ok then
    match r.run reply.result with
    | none => .error (ascii name ++ ascii ": malformed result")
    | some (a, _) => .ok a
  else .error (ascii name ++ ascii " FAILED: " ++ reply.err)

structure CreateResult where
  object : UInt64
  generation : UInt64
  placement : UInt64
  digest : Bytes
  deriving DecidableEq

def readCreateResult : ByteReader CreateResult := do
  let oid ← readU64
  let objGen ← readU64
  let pid ← readU64
  let digest ← readBytes 32
  return { object := oid, generation := objGen, placement := pid, digest }

def createReply (stream : Bytes) : Except Bytes CreateResult :=
  commandReply "create" readCreateResult stream

def readReadResult : ByteReader (UInt64 × Bytes) := do
  let n ← readU64
  let data ← readBlob
  return (n, data)

def readCommandReply (stream : Bytes) : Except Bytes (UInt64 × Bytes) :=
  commandReply "read" readReadResult stream

theorem length_replyOk (kind : WireMessageKind) (result : Bytes) :
    (replyOk kind result).payload.length = 5 + result.length := by
  simp only [replyOk, putBlob, List.length_append, length_putU8, length_putU32]
  omega

/-- The result of a successful request is read out of its reply, unless it makes the
reply too long. -/
theorem commandReply_replyOk {α : Type} (kind : WireMessageKind) {result rest : Bytes}
    {r : ByteReader α} {a : α} (hmax : 5 + result.length ≤ kMaxFramePayload.toNat)
    (hread : r.run result = some (a, rest)) (name : String) :
    ∃ sent, sendFrame (replyOk kind result) = .ok sent ∧ commandReply name r sent = .ok a := by
  have hmax' : (replyOk kind result).payload.length ≤ kMaxFramePayload.toNat := by
    rw [length_replyOk]
    exact hmax
  obtain ⟨sent, hsent, hreceived⟩ := sendFrame_received hmax'
  have hlength : result.length < 2 ^ 32 := by
    have hbound := kMaxFramePayload.toNat_lt
    omega
  have hreply : readReply.run (replyOk kind result).payload = some ((1, result), []) := by
    simp only [readReply, run_bind_eq_some, readU8_eq_some, readBlob_eq_some, run_pure_eq_some]
    exact ⟨1, _, rfl, result, [], ⟨hlength, (List.append_nil _).symm⟩, rfl, rfl⟩
  refine ⟨sent, hsent, ?_⟩
  simp only [commandReply, rpcReply, hreceived, Frame.of, hreply, if_true, hread]

theorem readCreateResult_created (object placement : Nat) (generation : UInt64)
    (digest : ContentDigest) :
    readCreateResult.run (LittleEndian.encode 8 object ++ putU64 generation ++
        LittleEndian.encode 8 placement ++ digest.bytes) =
      some ({
        object := .ofNat object
        generation
        placement := .ofNat placement
        digest := digest.bytes }, []) := by
  simp only [encode_eq_putU64, List.append_assoc]
  simp only [readCreateResult, run_bind_eq_some, readU64_eq_some, readBytes_eq_some,
    run_pure_eq_some]
  exact ⟨_, _, rfl, _, _, rfl, _, _, rfl, _, [], ⟨digest.size, (List.append_nil _).symm⟩, rfl, rfl⟩

/-- A blob that can be sent in a request can be sent back: its own length is all that
counts in the reply. -/
theorem readReadResult_read {data : Bytes} (h : data.length < 2 ^ 32) :
    readReadResult.run (putU64 (UInt64.ofNat data.length) ++ putBlob data) =
      some ((UInt64.ofNat data.length, data), []) := by
  simp only [readReadResult, run_bind_eq_some, readU64_eq_some, readBlob_eq_some, run_pure_eq_some]
  exact ⟨_, _, rfl, data, [], ⟨h, (List.append_nil _).symm⟩, rfl, rfl⟩

theorem length_readCreate {payload rest : Bytes} {req : CreateRequest}
    (h : readCreate.run payload = some (req, rest)) :
    payload.length = 46 + req.content.length + rest.length := by
  simp only [readCreate, readAuthority, run_bind_eq_some, readU64_eq_some, readU8_eq_some,
    readBlob_eq_some, run_pure_eq_some] at h
  obtain ⟨incoming, _, ⟨ep, _, rfl, bo, _, rfl, wo, _, rfl, ge, _, rfl, ori, _, rfl, -, rfl⟩, kind, _,
    rfl, size, _, rfl, content, _, ⟨-, rfl⟩, rfl, rfl⟩ := h
  simp only [putBlob, List.length_append, length_putU64, length_putU8, length_putU32]
  omega

end StorageFabric
