import StorageFabric.Wire.Protocol

/-!
Frames on a connection.

A peer sends a stream of bytes and closes; `recv` hands it out in pieces, however it
likes, and may be interrupted in between. There are three readers of a frame: the
decoder, which has all the bytes, the one of the library and the one of the tools,
which receive a header first and then the payload that it declares. `Receives` says
that a reader takes off the stream what the decoder makes of it.
-/

namespace StorageFabric

open ByteWriter ByteReader Codec

/-! ### The connection -/

/-- What can happen while one waits for bytes. -/
inductive Arrival
  | piece (bytes : Bytes) (nonempty : bytes ≠ [])
  /-- `EINTR` or `EAGAIN`. -/
  | interrupted
  deriving DecidableEq

namespace Arrival

def bytes : Arrival → Bytes
  | piece bytes _ => bytes
  | interrupted => []

end Arrival

/-- What a call of `recv` returns. -/
inductive Received
  | bytes (bs : Bytes)
  | closed
  | interrupted
  deriving DecidableEq

/-- The end of a connection on which nothing more is sent than what is to arrive. -/
structure TcpChannel where
  isOpen : Bool
  arrivals : List Arrival
  deriving DecidableEq

namespace TcpChannel

def stream (ch : TcpChannel) : Bytes := ch.arrivals.flatMap Arrival.bytes

def connected (arrivals : List Arrival) : TcpChannel := { isOpen := true, arrivals }

/-- `::recv` with room for `n` bytes: the peer has closed when there is nothing left. -/
def recv (n : Nat) : List Arrival → Received × List Arrival
  | [] => (.closed, [])
  | .interrupted :: arrivals => (.interrupted, arrivals)
  | .piece bs hbs :: arrivals =>
      if hlong : n < bs.length then
        (.bytes (bs.take n), .piece (bs.drop n) (by simpa using hlong) :: arrivals)
      else (.bytes bs, arrivals)

theorem recv_cases {n : Nat} (hn : 0 < n) (arrivals : List Arrival) :
    (∃ bs rest, recv n arrivals = (.bytes bs, rest) ∧ bs ≠ [] ∧ bs.length ≤ n ∧
      rest.length ≤ arrivals.length ∧
      arrivals.flatMap Arrival.bytes = bs ++ rest.flatMap Arrival.bytes) ∨
    (∃ rest, arrivals = .interrupted :: rest ∧ recv n arrivals = (.interrupted, rest)) ∨
    (arrivals = [] ∧ recv n arrivals = (.closed, [])) := by
  match arrivals with
  | [] => exact .inr (.inr ⟨rfl, rfl⟩)
  | .interrupted :: arrivals => exact .inr (.inl ⟨arrivals, rfl, rfl⟩)
  | .piece bs hbs :: arrivals =>
      refine .inl ?_
      by_cases hlong : n < bs.length
      · have hfront : bs.take n ≠ [] := by
          simp [hbs]
          omega
        refine ⟨_, _, dif_pos hlong, hfront, by simp, by simp, ?_⟩
        simp only [List.flatMap_cons, Arrival.bytes, ← List.append_assoc, List.take_append_drop]
      · exact ⟨bs, arrivals, dif_neg hlong, hbs, Nat.le_of_not_lt hlong, by simp, rfl⟩

theorem shorter_of_interrupted {n : Nat} {arrivals rest : List Arrival}
    (h : recv n arrivals = (.interrupted, rest)) : rest.length < arrivals.length := by
  match arrivals with
  | .interrupted :: arrivals =>
      obtain rfl := congrArg Prod.snd h
      exact Nat.lt_succ_self _
  | .piece bs hbs :: arrivals =>
      rw [recv] at h
      split at h <;> cases h

theorem shorter_of_bytes {n : Nat} (hn : 0 < n) {bs : Bytes} {arrivals rest : List Arrival}
    (h : recv n arrivals = (.bytes bs, rest)) :
    0 < bs.length ∧ rest.length ≤ arrivals.length := by
  obtain ⟨bs', rest', hrecv, hne, -, hlength, -⟩ | ⟨rest', -, hrecv⟩ | ⟨-, hrecv⟩ :=
    recv_cases hn arrivals
  · rw [h] at hrecv
    cases hrecv
    exact ⟨List.length_pos_iff.mpr hne, hlength⟩
  · rw [h] at hrecv
    cases hrecv
  · rw [h] at hrecv
    cases hrecv

/-- The loop of `recv_exact`: `got` are the bytes received so far. -/
def recvLoop (n : Nat) (got : Bytes) (arrivals : List Arrival) : Result Bytes × List Arrival :=
  if n ≤ got.length then (.ok got, arrivals)
  else
    match _hrecv : recv (n - got.length) arrivals with
    | (.closed, rest) => (Result.fail .truncated "peer closed", rest)
    | (.interrupted, rest) => recvLoop n got rest
    | (.bytes bs, rest) => recvLoop n (got ++ bs) rest
termination_by (n - got.length) + arrivals.length
decreasing_by
  · have hshorter := shorter_of_interrupted _hrecv
    omega
  · have hshorter := shorter_of_bytes (by omega) _hrecv
    rw [List.length_append]
    omega

theorem recvLoop_eq {n : Nat} {got : Bytes} (h : ¬n ≤ got.length) (arrivals : List Arrival) :
    recvLoop n got arrivals =
      match recv (n - got.length) arrivals with
      | (.closed, rest) => (Result.fail .truncated "peer closed", rest)
      | (.interrupted, rest) => recvLoop n got rest
      | (.bytes bs, rest) => recvLoop n (got ++ bs) rest := by
  rw [recvLoop, if_neg h]
  split
  · next hrecv => rw [hrecv]
  · next hrecv => rw [hrecv]
  · next hrecv => rw [hrecv]

/-- The loop stops as soon as it has `n` bytes, or at the end of the stream. -/
theorem recvLoop_cases (n : Nat) (got : Bytes) (arrivals : List Arrival) (hgot : got.length ≤ n) :
    (∃ front rest, recvLoop n got arrivals = (.ok (got ++ front), rest) ∧
      (got ++ front).length = n ∧
      arrivals.flatMap Arrival.bytes = front ++ rest.flatMap Arrival.bytes) ∨
    (got ++ arrivals.flatMap Arrival.bytes).length < n ∧
      recvLoop n got arrivals = (Result.fail .truncated "peer closed", []) := by
  -- what is still wanted and what may still arrive get fewer
  induction hsize : (n - got.length) + arrivals.length using Nat.strongRecOn
    generalizing got arrivals with
  | _ size ih =>
      by_cases hdone : n ≤ got.length
      · refine .inl ⟨[], arrivals, ?_, ?_, rfl⟩
        · rw [recvLoop, if_pos hdone, List.append_nil]
        · rw [List.append_nil]
          omega
      · rw [recvLoop_eq hdone]
        have hroom : 0 < n - got.length := by omega
        obtain ⟨bs, rest, h, hne, hle, hlength, hstream⟩ | ⟨rest, rfl, h⟩ | ⟨rfl, h⟩ :=
          recv_cases hroom arrivals
        · have hbs := List.length_pos_iff.mpr hne
          have hmore : (got ++ bs).length ≤ n := by
            rw [List.length_append]
            omega
          have hfewer : n - (got ++ bs).length + rest.length < size := by
            rw [List.length_append]
            omega
          rw [h, hstream]
          obtain ⟨front, rest', hloop, hfront, hrest⟩ | ⟨hshort, hloop⟩ :=
            ih _ hfewer (got ++ bs) rest hmore rfl
          · refine .inl ⟨bs ++ front, rest', ?_, ?_, ?_⟩
            · rw [← List.append_assoc]
              exact hloop
            · rw [← List.append_assoc]
              exact hfront
            · rw [hrest, List.append_assoc]
          · refine .inr ⟨?_, hloop⟩
            rw [← List.append_assoc]
            exact hshort
        · rw [h]
          have hfewer : n - got.length + rest.length < size := by
            rw [List.length_cons] at hsize
            omega
          exact ih _ hfewer got rest hgot rfl
        · rw [h]
          refine .inr ⟨?_, rfl⟩
          rw [List.flatMap_nil, List.append_nil]
          omega

def recvExact (n : Nat) (ch : TcpChannel) : Result Bytes × TcpChannel :=
  if ch.isOpen then
    let r := recvLoop n [] ch.arrivals
    (r.1, { ch with arrivals := r.2 })
  else (Result.fail .invalidState "socket not connected", ch)

theorem recvExact_cases (n : Nat) {ch : TcpChannel} (hopen : ch.isOpen = true) :
    (∃ front ch', ch.recvExact n = (.ok front, ch') ∧ front.length = n ∧ ch'.isOpen = true ∧
      ch.stream = front ++ ch'.stream) ∨
    ch.stream.length < n ∧
      ch.recvExact n = (Result.fail .truncated "peer closed", connected []) := by
  rw [recvExact, if_pos hopen]
  obtain ⟨front, rest, hloop, hlength, hstream⟩ | ⟨hshort, hloop⟩ :=
    recvLoop_cases n [] ch.arrivals (Nat.zero_le n)
  · rw [hloop]
    exact .inl ⟨front, { ch with arrivals := rest }, rfl, hlength, hopen, hstream⟩
  · rw [hloop]
    exact .inr ⟨hshort, by rw [connected, hopen]⟩

/-! ### The readers -/

/-- The payload length in the header: its bytes `8` to `11`, or-ed together. -/
def declaredLength (header : Bytes) : UInt32 :=
  (List.range 4).foldl
    (fun len i => len ||| (header.getD (8 + i) 0).toUInt32 <<< (8 * UInt32.ofNat i)) 0

/-- An empty payload is not waited for. -/
def recvPayload (length : UInt32) (ch : TcpChannel) : Result Bytes × TcpChannel :=
  if 0 < length then ch.recvExact length.toNat else (.ok [], ch)

def recvFrame (ch : TcpChannel) : Result Frame × TcpChannel :=
  match ch.recvExact kFrameHeaderSize with
  | (.error s, ch) => (.error s, ch)
  | (.ok header, ch) =>
      let length := declaredLength header
      if kMaxFramePayload < length then (Result.fail .overflow "oversized payload", ch)
      else
        match ch.recvPayload length with
        | (.error s, ch) => (.error s, ch)
        | (.ok payload, ch) => ((decodeFrame (header ++ payload)).1, ch)

/-- The reader of the tools. -/
def recvFrameLocal (ch : TcpChannel) : Result Frame × TcpChannel :=
  match ch.recvExact kFrameHeaderSize with
  | (.error s, ch) => (.error s, ch)
  | (.ok h, ch) =>
      match readFrameHeader.run h with
      | none => (Result.fail .truncated "bad frame header", ch)
      | some (header, _) =>
          if header.magic ≠ kFrameMagic then (Result.fail .protocolError "bad magic", ch)
          else if header.version ≠ kProtocolVersion then
            (Result.fail .protocolError "unsupported version", ch)
          else if kMaxFramePayload < header.length then
            (Result.fail .overflow "oversized payload", ch)
          else
            match ch.recvPayload header.length with
            | (.error s, ch) => (.error s, ch)
            | (.ok payload, ch) => ((decodeFrame (h ++ payload)).1, ch)

theorem recvPayload_cases (length : UInt32) {ch : TcpChannel} (hopen : ch.isOpen = true) :
    (∃ payload ch', ch.recvPayload length = (.ok payload, ch') ∧
      payload.length = length.toNat ∧ ch.stream = payload ++ ch'.stream) ∨
    ch.stream.length < length.toNat ∧
      ch.recvPayload length = (Result.fail .truncated "peer closed", connected []) := by
  by_cases hlength : 0 < length
  · rw [recvPayload, if_pos hlength]
    obtain ⟨front, ch', h, hfront, -, hstream⟩ | h := recvExact_cases length.toNat hopen
    · exact .inl ⟨front, ch', h, hfront, hstream⟩
    · exact .inr h
  · rw [recvPayload, if_neg hlength]
    have hzero : length.toNat = 0 := Nat.eq_zero_of_not_pos hlength
    exact .inl ⟨[], ch, rfl, hzero.symm, rfl⟩

/-! ### The header -/

theorem readWord_of_le {w : Nat} {s : Bytes} (h : w ≤ s.length) :
    (readWord w).run s = some (LittleEndian.decode (s.take w), s.drop w) := by
  have htake : (Codec.take w).run s = some (s.take w, s.drop w) :=
    run_take_eq_some.mpr ⟨List.length_take_of_le h, (List.take_append_drop w s).symm⟩
  exact run_map_eq_some.mpr ⟨_, htake, rfl⟩

theorem readFrameHeader_of_length {bs : Bytes} (h : bs.length = kFrameHeaderSize) :
    ∃ header, readFrameHeader.run bs = some (header, []) := by
  rw [kFrameHeaderSize] at h
  have hdrop : ∀ n, (bs.drop n).length = 16 - n := fun n => by rw [List.length_drop, h]
  have hword : ∀ w n, w + n ≤ 16 → (readWord w).run (bs.drop n) =
      some (LittleEndian.decode ((bs.drop n).take w), bs.drop (n + w)) := by
    intro w n hle
    rw [readWord_of_le (by rw [hdrop]; omega), List.drop_drop]
  have hend : bs.drop 16 = [] := List.drop_eq_nil_of_le (Nat.le_of_eq h)
  simp only [readFrameHeader, readU32, readU16, run_bind_eq_some, run_map_eq_some]
  exact ⟨_, _, _, ⟨_, hword 4 0 (by omega), rfl⟩, _, _, ⟨_, hword 2 4 (by omega), rfl⟩,
    _, _, ⟨_, hword 2 6 (by omega), rfl⟩, _, _, ⟨_, hword 4 8 (by omega), rfl⟩,
    _, _, ⟨_, hword 4 12 (by omega), rfl⟩, by rw [hend]; rfl⟩

theorem or_shift {k a b : Nat} (h : b < 2 ^ k) : b ||| a <<< k = a * 2 ^ k + b := by
  rw [Nat.or_comm, ← Nat.shiftLeft_add_eq_or_of_lt h, Nat.shiftLeft_eq]

theorem toNat_shift (n : Nat) {k : UInt32} (hk : k.toNat ≤ 24) :
    ((UInt8.ofNat n).toUInt32 <<< k).toNat = (n % 256) <<< k.toNat := by
  have hlt : n % 256 < 256 := Nat.mod_lt n (by decide)
  have hsmall : (n % 256) <<< k.toNat < 2 ^ 32 := by
    rw [Nat.shiftLeft_eq]
    calc n % 256 * 2 ^ k.toNat ≤ n % 256 * 2 ^ 24 := by gcongr; decide
      _ < 2 ^ 32 := by omega
  rw [UInt32.toNat_shiftLeft, UInt8.toNat_toUInt32, UInt8.toNat_ofNat', Nat.mod_eq_of_lt
    (Nat.lt_of_le_of_lt hk (by decide)), Nat.mod_eq_of_lt hsmall]

theorem or_bytes (v : UInt32) :
    ((((0 : UInt32) ||| (UInt8.ofNat v.toNat).toUInt32 <<< (8 * 0)) |||
      (UInt8.ofNat (v.toNat / 256)).toUInt32 <<< (8 * 1)) |||
      (UInt8.ofNat (v.toNat / 256 / 256)).toUInt32 <<< (8 * 2)) |||
      (UInt8.ofNat (v.toNat / 256 / 256 / 256)).toUInt32 <<< (8 * 3) = v := by
  have hv := v.toNat_lt
  apply UInt32.toNat_inj.mp
  rw [UInt32.toNat_or, UInt32.toNat_or, UInt32.toNat_or, UInt32.toNat_or,
    toNat_shift _ (by decide), toNat_shift _ (by decide), toNat_shift _ (by decide),
    toNat_shift _ (by decide)]
  generalize v.toNat = n at hv
  show (((0 ||| n % 256) ||| (n / 256 % 256) <<< 8) ||| (n / 256 / 256 % 256) <<< 16) |||
    (n / 256 / 256 / 256 % 256) <<< 24 = n
  have hone : n % 256 ||| (n / 256 % 256) <<< 8 = n % 65536 := by
    rw [or_shift (by omega)]
    omega
  have htwo : n % 65536 ||| (n / 256 / 256 % 256) <<< 16 = n % 16777216 := by
    rw [or_shift (by omega)]
    omega
  rw [Nat.zero_or, hone, htwo, or_shift (by omega)]
  omega

theorem declaredLength_eq {header t : Bytes} {h : FrameHeader}
    (hread : readFrameHeader.run header = some (h, t)) : declaredLength header = h.length := by
  rw [readFrameHeader_eq_some.mp hread]
  exact or_bytes h.length

theorem readFrameHeader_more {h : Bytes} {header : FrameHeader}
    (hread : readFrameHeader.run h = some (header, [])) (t : Bytes) :
    readFrameHeader.run (h ++ t) = some (header, t) := by
  rw [readFrameHeader_eq_some] at hread ⊢
  simp only [hread, List.append_assoc, List.append_nil]

theorem decodeFrame_append {h payload : Bytes} {header : FrameHeader}
    (hread : readFrameHeader.run h = some (header, []))
    (hpayload : payload.length = header.length.toNat) (rest : Bytes) {f : Frame} {n : Nat} :
    decodeFrame (h ++ (payload ++ rest)) = (.ok f, n) ↔ decodeFrame (h ++ payload) = (.ok f, n) := by
  have hlength : 12 ≤ h.length := by
    rw [readFrameHeader_eq_some.mp hread]
    simp
  have hcrc : ∀ t p, frameCrc (h ++ t) p = frameCrc h p := fun t p => by
    rw [frameCrc, frameCrc, List.take_append_of_le_length hlength]
  rw [decodeFrame_of_header (readFrameHeader_more hread _),
    decodeFrame_of_header (readFrameHeader_more hread _), ← hpayload, List.take_left,
    List.take_length, hcrc, hcrc, List.length_append]
  simp

/-! ### The readers agree -/

/-- What the decoder makes of the stream is received, and just the bytes that it consumes
are taken. -/
def Receives (reader : TcpChannel → Result Frame × TcpChannel) (ch : TcpChannel) : Prop :=
  ∀ f rest, (∃ ch', reader ch = (.ok f, ch') ∧ ch'.stream = rest) ↔
    ∃ consumed taken, decodeFrame ch.stream = (.ok f, consumed) ∧ taken.length = consumed ∧
      ch.stream = taken ++ rest

theorem receives_none {s : Status} {ch : TcpChannel} {data : Bytes} {f : Frame}
    (h : ∀ n, decodeFrame data ≠ (.ok f, n)) (rest : Bytes) :
    (∃ ch', ((.error s, ch) : Result Frame × TcpChannel) = (.ok f, ch') ∧ ch'.stream = rest) ↔
      ∃ consumed taken, decodeFrame data = (.ok f, consumed) ∧ taken.length = consumed ∧
        data = taken ++ rest := by
  refine iff_of_false ?_ ?_
  · rintro ⟨_, heq, -⟩
    cases heq
  · rintro ⟨n, _, hdecode, -⟩
    exact h n hdecode

theorem receives_payload {h : Bytes} {header : FrameHeader}
    (hread : readFrameHeader.run h = some (header, [])) {ch : TcpChannel}
    (hopen : ch.isOpen = true) (f : Frame) (rest : Bytes) :
    (∃ ch', (match ch.recvPayload header.length with
        | (.error s, ch) => (.error s, ch)
        | (.ok payload, ch) => ((decodeFrame (h ++ payload)).1, ch)) = (.ok f, ch') ∧
        ch'.stream = rest) ↔
      ∃ consumed taken, decodeFrame (h ++ ch.stream) = (.ok f, consumed) ∧
        taken.length = consumed ∧ h ++ ch.stream = taken ++ rest := by
  have hconsumed : ∀ {t : Bytes} {n : Nat}, decodeFrame (h ++ t) = (.ok f, n) →
      header.length.toNat ≤ t.length ∧ n = kFrameHeaderSize + header.length.toNat := by
    intro t n hdecode
    obtain ⟨-, -, -, hroom, -, -, -, hn⟩ :=
      (decodeFrame_of_header (readFrameHeader_more hread t)).mp hdecode
    exact ⟨hroom, hn⟩
  have hlength : h.length = kFrameHeaderSize := by
    rw [readFrameHeader_eq_some.mp hread]
    simp [kFrameHeaderSize]
  obtain ⟨payload, ch', hrun, hpayload, hstream⟩ | ⟨hshort, hrun⟩ :=
    recvPayload_cases header.length hopen
  · rw [hrun, hstream]
    constructor
    · rintro ⟨_, heq, rfl⟩
      obtain ⟨hok, rfl⟩ := Prod.mk.inj heq
      have hdecode : decodeFrame (h ++ payload) = (.ok f, (decodeFrame (h ++ payload)).2) :=
        Prod.ext hok rfl
      refine ⟨_, h ++ payload, (decodeFrame_append hread hpayload _).mpr hdecode, ?_,
        (List.append_assoc _ _ _).symm⟩
      rw [(hconsumed hdecode).2, List.length_append, hlength, hpayload]
    · rintro ⟨n, taken, hdecode, htaken, hsplit⟩
      rw [decodeFrame_append hread hpayload] at hdecode
      have hsame : (h ++ payload).length = taken.length := by
        rw [htaken, (hconsumed hdecode).2, List.length_append, hlength, hpayload]
      rw [← List.append_assoc] at hsplit
      exact ⟨ch', by simp only [hdecode], (List.append_inj hsplit hsame).2⟩
  · rw [hrun]
    refine receives_none (fun n hdecode => ?_) rest
    exact absurd (hconsumed hdecode).1 (Nat.not_le.mpr hshort)

theorem decodeFrame_short {data : Bytes} (h : data.length < kFrameHeaderSize) (f : Frame) (n : Nat) :
    decodeFrame data ≠ (.ok f, n) := by
  rw [decodeFrame, if_pos h]
  intro heq
  cases heq

theorem receives_recvFrame (arrivals : List Arrival) : Receives recvFrame (connected arrivals) := by
  intro f rest
  obtain ⟨h, ch, hrun, hlength, hopen, hstream⟩ | ⟨hshort, hrun⟩ :=
    @recvExact_cases kFrameHeaderSize (connected arrivals) rfl
  · obtain ⟨header, hread⟩ := readFrameHeader_of_length hlength
    have hdecode := fun n => @decodeFrame_of_header _ _ _ (readFrameHeader_more hread ch.stream) f n
    rw [recvFrame, hrun, hstream]
    simp only [declaredLength_eq hread]
    by_cases hmax : kMaxFramePayload < header.length
    · rw [if_pos hmax]
      refine receives_none (fun n heq => ?_) rest
      obtain ⟨-, -, hle, -⟩ := (hdecode n).mp heq
      exact absurd hle (UInt32.not_le.mpr hmax)
    · rw [if_neg hmax]
      exact receives_payload hread hopen f rest
  · rw [recvFrame, hrun]
    exact receives_none (decodeFrame_short hshort f) rest

theorem receives_recvFrameLocal (arrivals : List Arrival) :
    Receives recvFrameLocal (connected arrivals) := by
  intro f rest
  obtain ⟨h, ch, hrun, hlength, hopen, hstream⟩ | ⟨hshort, hrun⟩ :=
    @recvExact_cases kFrameHeaderSize (connected arrivals) rfl
  · obtain ⟨header, hread⟩ := readFrameHeader_of_length hlength
    have hdecode := fun n => @decodeFrame_of_header _ _ _ (readFrameHeader_more hread ch.stream) f n
    rw [recvFrameLocal, hrun, hstream]
    simp only [hread]
    by_cases hmagic : header.magic = kFrameMagic
    · rw [if_neg (not_not.mpr hmagic)]
      by_cases hversion : header.version = kProtocolVersion
      · rw [if_neg (not_not.mpr hversion)]
        by_cases hmax : kMaxFramePayload < header.length
        · rw [if_pos hmax]
          refine receives_none (fun n heq => ?_) rest
          obtain ⟨-, -, hle, -⟩ := (hdecode n).mp heq
          exact absurd hle (UInt32.not_le.mpr hmax)
        · rw [if_neg hmax]
          exact receives_payload hread hopen f rest
      · rw [if_pos hversion]
        exact receives_none (fun n heq => hversion ((hdecode n).mp heq).2.1) rest
    · rw [if_pos hmagic]
      exact receives_none (fun n heq => hmagic ((hdecode n).mp heq).1) rest
  · rw [recvFrameLocal, hrun]
    exact receives_none (decodeFrame_short hshort f) rest

/-- The reader of the library and the one of the tools take off a stream what the decoder
makes of it, however it arrives. -/
theorem recvFrame_iff_decodeFrame (arrivals : List Arrival) :
    Receives recvFrame (connected arrivals) ∧ Receives recvFrameLocal (connected arrivals) :=
  ⟨receives_recvFrame arrivals, receives_recvFrameLocal arrivals⟩

end TcpChannel

end StorageFabric
