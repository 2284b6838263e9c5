import StorageFabric.Core.Bytes
import StorageFabric.Core.Digest

/-!
The framed wire protocol.

A frame is a header of sixteen bytes (magic, version, kind, payload length and
CRC, little-endian) and the payload. The CRC is combined from the one of the
first twelve bytes of the header and the one of the payload.

`decodeFrame_iff` says which byte strings `decodeFrame` accepts: those that begin
with what `encodeFrame` makes of a kind and a bounded payload. Both directions of
the stream round trip follow from it.
-/

namespace StorageFabric

open ByteWriter ByteReader

def kFrameMagic : UInt32 := 0x53464231

def kProtocolVersion : UInt16 := 1

def kMaxFramePayload : UInt32 := 64 * 1024 * 1024

def kFrameHeaderSize : Nat := 16

inductive WireMessageKind
  | hello
  | registerBackend
  | createObject
  | publish
  | readObject
  | verify
  | commit
  | replicate
  | recover
  | ping
  | pong
  | error
  | goodbye
  deriving DecidableEq

namespace WireMessageKind

/-- `static_cast<std::uint16_t>(kind)`. -/
def toWord : WireMessageKind → UInt16
  | hello => 1
  | registerBackend => 2
  | createObject => 3
  | publish => 4
  | readObject => 5
  | verify => 6
  | commit => 7
  | replicate => 8
  | recover => 9
  | ping => 10
  | pong => 11
  | error => 12
  | goodbye => 13

/-- The kind with the given value, if it is a valid one. -/
def ofWord (v : UInt16) : Option WireMessageKind :=
  [hello, registerBackend, createObject, publish, readObject, verify, commit, replicate, recover,
    ping, pong, error, goodbye].find? fun k => k.toWord = v

theorem ofWord_eq_some {v : UInt16} {kind : WireMessageKind} :
    ofWord v = some kind ↔ v = kind.toWord := by
  constructor
  · intro h
    have hfound := List.find?_some (p := fun k : WireMessageKind => decide (k.toWord = v)) h
    exact (of_decide_eq_true hfound).symm
  · rintro rfl
    cases kind <;> rfl

end WireMessageKind

structure Frame where
  kind : WireMessageKind := .ping
  payload : Bytes := []
  crc : UInt32 := 0
  deriving DecidableEq

/-- The CRC over the first twelve bytes of the header and the payload. -/
def frameCrc (headerBytes payload : Bytes) : UInt32 :=
  crc32Combine (crc32 (headerBytes.take 12)) (crc32 payload) (UInt64.ofNat payload.length)

/-- What the header has in front of the CRC. -/
def frameHeader (kind : UInt16) (length : UInt32) : Bytes :=
  putU32 kFrameMagic ++ putU16 kProtocolVersion ++ putU16 kind ++ putU32 length

/-- A payload that is too long encodes to nothing. -/
def encodeFrame (kind : WireMessageKind) (payload : Bytes) : Bytes :=
  if kMaxFramePayload.toNat < payload.length then []
  else
    let header := frameHeader kind.toWord (UInt32.ofNat payload.length) ++ putU32 0
    let crc := frameCrc header payload
    -- the CRC is patched over the placeholder
    header.take 12 ++ putU32 crc ++ payload

/-- The fields of a header. -/
structure FrameHeader where
  magic : UInt32
  version : UInt16
  kindRaw : UInt16
  length : UInt32
  storedCrc : UInt32
  deriving DecidableEq

def readFrameHeader : ByteReader FrameHeader := do
  let magic ← readU32
  let version ← readU16
  let kindRaw ← readU16
  let length ← readU32
  let storedCrc ← readU32
  return { magic, version, kindRaw, length, storedCrc }

/-- The frame at the front of `data`, and the number of bytes that it takes;
nothing is consumed on a failure. -/
def decodeFrame (data : Bytes) : Result Frame × Nat :=
  if data.length < kFrameHeaderSize then (Result.fail .truncated "frame shorter than header", 0)
  else
    match readFrameHeader.run data with
    | none => (Result.fail .truncated "truncated header", 0)
    | some (h, _) =>
        if h.magic ≠ kFrameMagic then (Result.fail .protocolError "bad magic", 0)
        else if h.version ≠ kProtocolVersion then
          (Result.fail .protocolError "unsupported version", 0)
        else if kMaxFramePayload < h.length then (Result.fail .overflow "oversized payload", 0)
        else if data.length < kFrameHeaderSize + h.length.toNat then
          (Result.fail .truncated "truncated payload", 0)
        else
          let payload := (data.drop kFrameHeaderSize).take h.length.toNat
          if frameCrc (data.take kFrameHeaderSize) payload ≠ h.storedCrc then
            (Result.fail .integrityMismatch "checksum mismatch", 0)
          else
            match WireMessageKind.ofWord h.kindRaw with
            | none => (Result.fail .protocolError "invalid enum", 0)
            | some kind =>
                (.ok { kind, payload, crc := h.storedCrc }, kFrameHeaderSize + h.length.toNat)

/-! ### One frame -/

@[simp] theorem length_frameHeader (kind : UInt16) (length : UInt32) :
    (frameHeader kind length).length = 12 := by
  simp [frameHeader]

def frameBytes (kind : WireMessageKind) (payload : Bytes) : Bytes :=
  let header := frameHeader kind.toWord (UInt32.ofNat payload.length)
  header ++ putU32 (frameCrc header payload) ++ payload

def Frame.of (kind : WireMessageKind) (payload : Bytes) : Frame :=
  { kind
    payload
    crc := frameCrc (frameHeader kind.toWord (UInt32.ofNat payload.length)) payload }

theorem frameCrc_append {header : Bytes} (hheader : header.length = 12) (more payload : Bytes) :
    frameCrc (header ++ more) payload = frameCrc header payload := by
  rw [frameCrc, frameCrc, List.take_left' hheader, ← hheader, List.take_length]

theorem encodeFrame_eq {kind : WireMessageKind} {payload : Bytes}
    (h : payload.length ≤ kMaxFramePayload.toNat) :
    encodeFrame kind payload = frameBytes kind payload := by
  rw [encodeFrame, if_neg (Nat.not_lt.mpr h)]
  show List.take 12 (_ ++ _) ++ putU32 (frameCrc (_ ++ _) payload) ++ payload = _
  rw [frameCrc_append (length_frameHeader _ _), List.take_left' (length_frameHeader _ _)]
  rfl

theorem length_frameBytes (kind : WireMessageKind) (payload : Bytes) :
    (frameBytes kind payload).length = kFrameHeaderSize + payload.length := by
  simp only [frameBytes, kFrameHeaderSize, List.length_append, length_frameHeader, length_putU32]

theorem readFrameHeader_eq_some {s t : Bytes} {h : FrameHeader} :
    readFrameHeader.run s = some (h, t) ↔
      s = putU32 h.magic ++ (putU16 h.version ++ (putU16 h.kindRaw ++ (putU32 h.length ++
        (putU32 h.storedCrc ++ t)))) := by
  simp only [readFrameHeader, Codec.run_bind_eq_some, readU32_eq_some, readU16_eq_some,
    Codec.run_pure_eq_some]
  constructor
  · rintro ⟨magic, _, rfl, version, _, rfl, kind, _, rfl, length, _, rfl, crc, _, rfl, rfl, rfl⟩
    rfl
  · rintro rfl
    exact ⟨_, _, rfl, _, _, rfl, _, _, rfl, _, _, rfl, _, _, rfl, rfl, rfl⟩

theorem decodeFrame_of_header {data t : Bytes} {h : FrameHeader}
    (hread : readFrameHeader.run data = some (h, t)) {f : Frame} {n : Nat} :
    decodeFrame data = (.ok f, n) ↔
      h.magic = kFrameMagic ∧ h.version = kProtocolVersion ∧ h.length ≤ kMaxFramePayload ∧
      h.length.toNat ≤ t.length ∧ frameCrc data (t.take h.length.toNat) = h.storedCrc ∧
      WireMessageKind.ofWord h.kindRaw = some f.kind ∧
      f = { kind := f.kind, payload := t.take h.length.toNat, crc := h.storedCrc } ∧
      n = kFrameHeaderSize + h.length.toNat := by
  obtain ⟨front, hfront, rfl⟩ : ∃ front : Bytes, front.length = kFrameHeaderSize ∧
      data = front ++ t := by
    rw [readFrameHeader_eq_some] at hread
    refine ⟨putU32 h.magic ++ (putU16 h.version ++ (putU16 h.kindRaw ++ (putU32 h.length ++
      putU32 h.storedCrc))), ?_, by simpa only [List.append_assoc] using hread⟩
    simp [kFrameHeaderSize]
  have hcrc : ∀ payload, frameCrc ((front ++ t).take kFrameHeaderSize) payload =
      frameCrc (front ++ t) payload := by
    intro payload
    rw [frameCrc, frameCrc, List.take_take]
    rfl
  have hlong : ¬(front ++ t).length < kFrameHeaderSize := by
    rw [List.length_append]
    omega
  have hroom : (front ++ t).length < kFrameHeaderSize + h.length.toNat ↔
      t.length < h.length.toNat := by
    rw [List.length_append]
    omega
  -- the checks in the order of the source
  simp only [decodeFrame, if_neg hlong, hread, hcrc, hroom, List.drop_left' hfront]
  by_cases hmagic : h.magic = kFrameMagic
  · by_cases hversion : h.version = kProtocolVersion
    · by_cases hlength : kMaxFramePayload < h.length
      · simp [hmagic, hversion, hlength, Result.fail, UInt32.not_le.mpr hlength]
      · by_cases hpayload : t.length < h.length.toNat
        · simp [hmagic, hversion, hlength, hpayload, Result.fail, Nat.not_le.mpr hpayload]
        · by_cases hsum : frameCrc (front ++ t) (t.take h.length.toNat) = h.storedCrc
          · cases hkind : WireMessageKind.ofWord h.kindRaw with
            | none => simp [hmagic, hversion, hlength, hpayload, hsum, Result.fail]
            | some kind =>
                simp only [hmagic, hversion, hlength, hpayload, hsum, ne_eq,
                  not_true_eq_false, if_false, Prod.mk.injEq, Except.ok.injEq, true_and,
                  Option.some.injEq, Nat.le_of_not_lt hpayload, UInt32.not_lt.mp hlength]
                constructor
                · rintro ⟨rfl, rfl⟩
                  exact ⟨rfl, rfl, rfl⟩
                · rintro ⟨rfl, hf, rfl⟩
                  exact ⟨hf.symm, rfl⟩
          · simp [hmagic, hversion, hlength, hpayload, hsum, Result.fail]
    · simp [hmagic, hversion, Result.fail]
  · simp [hmagic, Result.fail]

/-- The decoder accepts the byte strings that begin with an encoded frame, and
consumes that. -/
theorem decodeFrame_iff {data : Bytes} {f : Frame} {n : Nat} :
    decodeFrame data = (.ok f, n) ↔
      f.payload.length ≤ kMaxFramePayload.toNat ∧ f = Frame.of f.kind f.payload ∧
      n = kFrameHeaderSize + f.payload.length ∧
      ∃ rest, data = frameBytes f.kind f.payload ++ rest := by
  constructor
  · intro hdecode
    cases hread : readFrameHeader.run data with
    | none =>
        simp only [decodeFrame, hread, Result.fail] at hdecode
        split at hdecode <;> cases hdecode
    | some p =>
        obtain ⟨h, t⟩ := p
        obtain ⟨hmagic, hversion, hmax, hroom, hcrc, hkind, hf, rfl⟩ :=
          (decodeFrame_of_header hread).mp hdecode
        have hdata := readFrameHeader_eq_some.mp hread
        have hpayload : f.payload = t.take h.length.toNat := by rw [hf]
        have hlength : f.payload.length = h.length.toNat := by
          rw [hpayload, List.length_take, Nat.min_eq_left hroom]
        have hword : UInt32.ofNat f.payload.length = h.length := by
          rw [hlength, UInt32.ofNat_toNat]
        -- the twelve bytes that the CRC is about
        have hsplit : data = frameHeader f.kind.toWord (UInt32.ofNat f.payload.length) ++
            (putU32 h.storedCrc ++ t) := by
          rw [hdata, hword, hmagic, hversion, WireMessageKind.ofWord_eq_some.mp hkind]
          simp only [frameHeader, List.append_assoc]
        have hsum : h.storedCrc =
            frameCrc (frameHeader f.kind.toWord (UInt32.ofNat f.payload.length)) f.payload := by
          rw [← hcrc, hsplit, frameCrc_append (length_frameHeader _ _), hpayload]
        refine ⟨?_, ?_, by rw [hlength], t.drop h.length.toNat, ?_⟩
        · rw [hlength]
          exact hmax
        · rw [Frame.of, ← hsum]
          rw [← hpayload] at hf
          exact hf
        · rw [hsplit, frameBytes, ← hsum, hpayload]
          simp only [List.append_assoc, List.take_append_drop]
  · rintro ⟨hmax, hf, rfl, rest, rfl⟩
    have hword : (UInt32.ofNat f.payload.length).toNat = f.payload.length := by
      rw [UInt32.toNat_ofNat', Nat.mod_eq_of_lt]
      exact Nat.lt_of_le_of_lt hmax kMaxFramePayload.toNat_lt
    have hread : readFrameHeader.run (frameBytes f.kind f.payload ++ rest) =
        some ({
          magic := kFrameMagic
          version := kProtocolVersion
          kindRaw := f.kind.toWord
          length := UInt32.ofNat f.payload.length
          storedCrc := f.crc }, f.payload ++ rest) := by
      rw [readFrameHeader_eq_some, show f.crc = _ from congrArg Frame.crc hf, frameBytes]
      simp only [frameHeader, Frame.of, List.append_assoc]
    refine (decodeFrame_of_header hread).mpr ⟨rfl, rfl, ?_, ?_, ?_,
      WireMessageKind.ofWord_eq_some.mpr rfl, ?_, ?_⟩
    · show (UInt32.ofNat f.payload.length).toNat ≤ _
      rw [hword]
      exact hmax
    · rw [hword, List.length_append]
      omega
    · rw [hword, List.take_left, frameBytes, List.append_assoc, List.append_assoc,
        frameCrc_append (length_frameHeader _ _)]
      exact (congrArg Frame.crc hf).symm
    · rw [hword, List.take_left]
    · rw [hword]

/-! ### A stream of frames -/

def encodeFrames (frames : List (WireMessageKind × Bytes)) : Bytes :=
  frames.flatMap fun f => encodeFrame f.1 f.2

/-- What `n` calls of `decodeFrame` make of a stream, where the consumed bytes are
dropped after each; with the frames, what is left of it. -/
def decodeFrames : Nat → Bytes → Result (List Frame × Bytes)
  | 0, data => .ok ([], data)
  | n + 1, data =>
      match decodeFrame data with
      | (.error s, _) => .error s
      | (.ok f, consumed) =>
          match decodeFrames n (data.drop consumed) with
          | .error s => .error s
          | .ok (frames, rest) => .ok (f :: frames, rest)

theorem decodeFrame_encodeFrame {kind : WireMessageKind} {payload : Bytes}
    (h : payload.length ≤ kMaxFramePayload.toNat) (rest : Bytes) :
    decodeFrame (encodeFrame kind payload ++ rest) =
      (.ok (Frame.of kind payload), (encodeFrame kind payload).length) := by
  rw [encodeFrame_eq h, length_frameBytes]
  exact decodeFrame_iff.mpr ⟨h, rfl, rfl, rest, rfl⟩

theorem decodeFrames_encodeFrames {frames : List (WireMessageKind × Bytes)}
    (h : ∀ f ∈ frames, f.2.length ≤ kMaxFramePayload.toNat) (rest : Bytes) :
    decodeFrames frames.length (encodeFrames frames ++ rest) =
      .ok (frames.map fun f => Frame.of f.1 f.2, rest) := by
  induction frames with
  | nil => rfl
  | cons f frames ih =>
      have hfirst := @decodeFrame_encodeFrame f.1 f.2 (h f List.mem_cons_self)
        (encodeFrames frames ++ rest)
      have hothers := ih fun g hg => h g (List.mem_cons_of_mem f hg)
      have hstream : encodeFrames (f :: frames) ++ rest =
          encodeFrame f.1 f.2 ++ (encodeFrames frames ++ rest) := by
        rw [encodeFrames, List.flatMap_cons, List.append_assoc]
        rfl
      rw [hstream, List.length_cons, decodeFrames, hfirst]
      simp only [List.drop_left, hothers, List.map_cons]

/-- A stream of encoded frames decodes to them and leaves what follows it, and
what decodes to a frame is the encoding of that frame. -/
theorem frames_roundtrip :
    (∀ (frames : List (WireMessageKind × Bytes)) (trailing : Bytes),
      (∀ f ∈ frames, f.2.length ≤ kMaxFramePayload.toNat) →
        decodeFrames frames.length (encodeFrames frames ++ trailing) =
          .ok (frames.map fun f => Frame.of f.1 f.2, trailing)) ∧
    ∀ (data : Bytes) (f : Frame) (consumed : Nat), decodeFrame data = (.ok f, consumed) →
      consumed ≤ data.length ∧ encodeFrame f.kind f.payload = data.take consumed := by
  refine ⟨fun frames trailing h => decodeFrames_encodeFrames h trailing, ?_⟩
  intro data f consumed hdecode
  obtain ⟨hmax, -, rfl, rest, rfl⟩ := decodeFrame_iff.mp hdecode
  have hlength := length_frameBytes f.kind f.payload
  constructor
  · rw [List.length_append]
    omega
  · rw [encodeFrame_eq hmax, List.take_left' hlength]

/-- Two frames and three more bytes, decoded and encoded again. -/
theorem frames_roundtrip_small :
    decodeFrames 2 (encodeFrames [(.ping, []), (.publish, [0])] ++ [1, 2, 3]) =
        .ok ([Frame.of .ping [], Frame.of .publish [0]], [1, 2, 3]) ∧
      encodeFrame .ping [] = (encodeFrame .ping [] ++ [1, 2, 3]).take 16 := by
  refine ⟨frames_roundtrip.1 [(.ping, []), (.publish, [0])] [1, 2, 3] (by decide), ?_⟩
  have hdecode : decodeFrame (encodeFrame .ping [] ++ [1, 2, 3]) = (.ok (Frame.of .ping []), 16) :=
    by decide +kernel
  exact (frames_roundtrip.2 _ _ _ hdecode).2

end StorageFabric
