import StorageFabric.Lib.Framing
import StorageFabric.Lib.Runs
import StorageFabric.Tools.Rpc

/-!
One direction of a connection.

The sender writes the bytes of a frame with as many calls of `::send` as the system
makes it need; the bytes are in flight until `::recv` hands them out to the receiver, in
pieces that have nothing to do with the frames; either call may be interrupted or fail,
either end may be closed, and a reset drops what is in flight. The receiver keeps what it
has of a frame between two calls (`Receiving`). Whatever the order, the frames that come
out are the ones that went in, in order, up to where the connection broke off.
-/

namespace StorageFabric

open ByteWriter ByteReader Codec

/-! ### The readers of a header -/

/-- What a reader makes of a header: how long the payload is that it goes on to receive. -/
abbrev HeaderCheck := Bytes → Result UInt32

/-- The check of `recv_frame`. -/
def libraryHeader (header : Bytes) : Result UInt32 :=
  let length := TcpChannel.declaredLength header
  if kMaxFramePayload < length then Result.fail .overflow "oversized payload" else .ok length

/-- The check of `recv_frame_local`. -/
def toolsHeader (h : Bytes) : Result UInt32 :=
  match readFrameHeader.run h with
  | none => Result.fail .truncated "bad frame header"
  | some (header, _) =>
      if header.magic ≠ kFrameMagic then Result.fail .protocolError "bad magic"
      else if header.version ≠ kProtocolVersion then
        Result.fail .protocolError "unsupported version"
      else if kMaxFramePayload < header.length then Result.fail .overflow "oversized payload"
      else .ok header.length

namespace TcpChannel

/-- Both readers, by the check that they make of the header. -/
def recvFrameBy (check : HeaderCheck) (ch : TcpChannel) : Result Frame × TcpChannel :=
  match ch.recvExact kFrameHeaderSize with
  | (.error s, ch) => (.error s, ch)
  | (.ok header, ch) =>
      match check header with
      | .error s => (.error s, ch)
      | .ok length =>
          match ch.recvPayload length with
          | (.error s, ch) => (.error s, ch)
          | (.ok payload, ch) => ((decodeFrame (header ++ payload)).1, ch)

theorem recvFrame_eq (ch : TcpChannel) : ch.recvFrame = ch.recvFrameBy libraryHeader := by
  rw [recvFrame, recvFrameBy]
  rcases ch.recvExact kFrameHeaderSize with ⟨_ | header, ch⟩
  · rfl
  · dsimp only [libraryHeader]
    split <;> rfl

theorem recvFrameLocal_eq (ch : TcpChannel) :
    ch.recvFrameLocal = ch.recvFrameBy toolsHeader := by
  rw [recvFrameLocal, recvFrameBy]
  rcases ch.recvExact kFrameHeaderSize with ⟨_ | h, ch⟩
  · rfl
  · dsimp only [toolsHeader]
    rcases readFrameHeader.run h with _ | ⟨header, rest⟩
    · rfl
    · dsimp only
      split
      · rfl
      split
      · rfl
      split
      · rfl
      · rfl

end TcpChannel

/-! ### A call of the reader, piece by piece -/

/-- Where a call of the reader stands: which of its two loops it is in, and what that has
received so far. -/
inductive Receiving
  | header (got : Bytes)
  | payload (header : Bytes) (length : UInt32) (got : Bytes)
  deriving DecidableEq

namespace Receiving

/-- What `::recv` is given room for. -/
def room : Receiving → Nat
  | header got => kFrameHeaderSize - got.length
  | payload _ length got => length.toNat - got.length

def bytes : Receiving → Bytes
  | header got => got
  | payload head _ got => head ++ got

def more (check : HeaderCheck) (bs : Bytes) : Receiving → Receiving ⊕ Result Frame
  | header got =>
      if (got ++ bs).length < kFrameHeaderSize then .inl (header (got ++ bs))
      else
        match check (got ++ bs) with
        | .error s => .inr (.error s)
        | .ok length =>
            if 0 < length then .inl (payload (got ++ bs) length [])
            else .inr (decodeFrame (got ++ bs ++ [])).1
  | payload head length got =>
      if (got ++ bs).length < length.toNat then .inl (payload head length (got ++ bs))
      else .inr (decodeFrame (head ++ (got ++ bs))).1

/-- What is left of a call, by the loops of `recv_exact`. -/
def finish (check : HeaderCheck) (arrivals : List Arrival) :
    Receiving → Result Frame × TcpChannel
  | header got =>
      match TcpChannel.recvLoop kFrameHeaderSize got arrivals with
      | (.error s, rest) => (.error s, .connected rest)
      | (.ok head, rest) =>
          match check head with
          | .error s => (.error s, .connected rest)
          | .ok length =>
              match (TcpChannel.connected rest).recvPayload length with
              | (.error s, ch) => (.error s, ch)
              | (.ok body, ch) => ((decodeFrame (head ++ body)).1, ch)
  | payload head length got =>
      match TcpChannel.recvLoop length.toNat got arrivals with
      | (.error s, rest) => (.error s, .connected rest)
      | (.ok body, rest) => ((decodeFrame (head ++ body)).1, .connected rest)

theorem recvFrameBy_connected (check : HeaderCheck) (arrivals : List Arrival) :
    (TcpChannel.connected arrivals).recvFrameBy check = (header []).finish check arrivals := by
  simp only [TcpChannel.recvFrameBy, TcpChannel.recvExact, TcpChannel.connected, if_true, finish]
  rcases TcpChannel.recvLoop kFrameHeaderSize [] arrivals with ⟨_ | _, _⟩ <;> rfl

theorem finish_turn (check : HeaderCheck) (r : Receiving) (hroom : 0 < r.room)
    (arrivals : List Arrival) :
    r.finish check arrivals =
      match TcpChannel.recv r.room arrivals with
      | (.closed, rest) => (Result.fail .truncated "peer closed", .connected rest)
      | (.interrupted, rest) => r.finish check rest
      | (.bytes bs, rest) =>
          match r.more check bs with
          | .inl r => r.finish check rest
          | .inr result => (result, .connected rest) := by
  have hfull : ∀ {n : Nat} {got : Bytes} (rest : List Arrival), ¬got.length < n →
      TcpChannel.recvLoop n got rest = (.ok got, rest) := fun rest h => by
    rw [TcpChannel.recvLoop, if_pos (Nat.le_of_not_lt h)]
  cases r with
  | header got =>
      have hless : ¬kFrameHeaderSize ≤ got.length := by
        simp only [room] at hroom
        omega
      rw [finish, TcpChannel.recvLoop_eq hless, room]
      rcases TcpChannel.recv (kFrameHeaderSize - got.length) arrivals with ⟨bs | _ | _, rest⟩
      · by_cases hlast : (got ++ bs).length < kFrameHeaderSize
        · simp only [more, if_pos hlast]
          rfl
        · simp only [more, if_neg hlast, hfull rest hlast]
          cases hcheck : check (got ++ bs) with
          | error s => rfl
          | ok length =>
              -- a header without payload is a whole frame already
              by_cases hlength : 0 < length
              · simp only [if_pos hlength, TcpChannel.recvPayload, TcpChannel.recvExact, finish]
                simp only [TcpChannel.connected, if_true]
                rcases TcpChannel.recvLoop length.toNat [] rest with ⟨_ | _, _⟩ <;> rfl
              · simp only [if_neg hlength, TcpChannel.recvPayload]
      · rfl
      · rfl
  | payload head length got =>
      have hless : ¬length.toNat ≤ got.length := by
        simp only [room] at hroom
        omega
      rw [finish, TcpChannel.recvLoop_eq hless, room]
      rcases TcpChannel.recv (length.toNat - got.length) arrivals with ⟨bs | _ | _, rest⟩
      · by_cases hlast : (got ++ bs).length < length.toNat
        · simp only [more, if_pos hlast]
          rfl
        · simp only [more, if_neg hlast, hfull rest hlast]
      · rfl
      · rfl

end Receiving

/-! ### The two ends and what is between them -/

structure Link where
  /-- The frames that the sender has begun to write. -/
  offered : List Frame := []
  /-- What the loop of `send` has still to write, during a call. -/
  sending : Option Bytes := none
  /-- What the calls of `send_frame` have returned. -/
  sendResults : List (Result Unit) := []
  senderOpen : Bool := true
  /-- What is written and has not been received. -/
  flight : Bytes := []
  wasReset : Bool := false
  receiverOpen : Bool := true
  receiving : Option Receiving := none
  /-- What the calls of the reader have returned. -/
  results : List (Result Frame) := []
  deriving DecidableEq

/-- The calls of the two programs, and what the system does. -/
inductive LinkEvent
  | sendFrame (f : Frame)
  /-- `::send` takes this many bytes. -/
  | sent (n : Nat)
  /-- `EINTR` or `EAGAIN`. -/
  | sendInterrupted
  | sendFailed (reason : Bytes)
  | closeSender
  /-- The connection breaks off: of what is in flight, this many bytes can still be received. -/
  | reset (n : Nat)
  | recvFrame
  /-- `::recv` returns this many bytes. -/
  | received (n : Nat)
  | recvInterrupted
  /-- `::recv` returns that the peer has closed. -/
  | recvClosed
  | recvFailed
  | closeReceiver

namespace Link

def sendReturns (c : Link) (r : Result Unit) : Link :=
  { c with sending := none, sendResults := c.sendResults ++ [r] }

def recvReturns (c : Link) (r : Result Frame) : Link :=
  { c with receiving := none, results := c.results ++ [r] }

/-- What cannot happen in a state leaves it as it is. -/
def step (check : HeaderCheck) (c : Link) : LinkEvent → Link
  | .sendFrame f =>
      if c.sending.isSome then c
      else
        match StorageFabric.sendFrame f with
        | .error s => c.sendReturns (.error s)
        | .ok raw =>
            if c.senderOpen then { c with offered := c.offered ++ [f], sending := some raw }
            else c.sendReturns (Result.fail .invalidState "socket not connected")
  | .sent n =>
      match c.sending with
      | none => c
      | some rest =>
          if n ≤ rest.length ∧ c.wasReset = false then
            let c := { c with sending := some (rest.drop n), flight := c.flight ++ rest.take n }
            if n < rest.length then c else c.sendReturns (.ok ())
          else c
  | .sendInterrupted => c
  | .sendFailed reason =>
      if c.sending.isSome then
        c.sendReturns (Result.failure .ioError (ascii "send failed: " ++ reason))
      else c
  | .closeSender => if c.sending.isSome then c else { c with senderOpen := false }
  | .reset n => { c with flight := c.flight.take n, wasReset := true }
  | .recvFrame =>
      if c.receiving.isSome then c
      else if c.receiverOpen then { c with receiving := some (.header []) }
      else c.recvReturns (Result.fail .invalidState "socket not connected")
  | .received n =>
      match c.receiving with
      | none => c
      | some r =>
          if 0 < n ∧ n ≤ r.room ∧ n ≤ c.flight.length then
            let bs := c.flight.take n
            let c := { c with flight := c.flight.drop n }
            match r.more check bs with
            | .inl r => { c with receiving := some r }
            | .inr result => c.recvReturns result
          else c
  | .recvInterrupted => c
  | .recvClosed =>
      if c.receiving.isSome ∧ c.flight = [] ∧ (c.senderOpen = false ∨ c.wasReset = true) then
        c.recvReturns (Result.fail .truncated "peer closed")
      else c
  | .recvFailed =>
      if c.receiving.isSome then c.recvReturns (Result.fail .ioError "recv failed") else c
  | .closeReceiver => if c.receiving.isSome then c else { c with receiverOpen := false }

/-- A call has failed for what the system returned. -/
def ioFailed {α : Type} (rs : List (Result α)) : Bool :=
  rs.any fun
    | .error s => s.code = .ioError
    | .ok _ => false

/-- No call begins on the connection after one of the same side has failed for what the system
returned. The connection does not see to that: a worker whose request has failed goes on with
the next command. -/
def Orderly (c : Link) : LinkEvent → Prop
  | .sendFrame _ => ioFailed c.sendResults = false
  | .recvFrame => ioFailed c.results = false
  | _ => True

instance (c : Link) : (e : LinkEvent) → Decidable (Orderly c e)
  | .sendFrame _ => inferInstanceAs (Decidable (ioFailed c.sendResults = false))
  | .recvFrame => inferInstanceAs (Decidable (ioFailed c.results = false))
  | .sent _ | .sendInterrupted | .sendFailed _ | .closeSender | .reset _ | .received _
  | .recvInterrupted | .recvClosed | .recvFailed | .closeReceiver => .isTrue trivial

def received (c : Link) : List Frame := c.results.filterMap Except.toOption

/-- Nothing has gone wrong on the way. -/
def Whole (c : Link) : Prop := c.wasReset = false ∧ ioFailed c.sendResults = false

/-- What the reader has of a frame. -/
def held (c : Link) : Bytes := (c.receiving.map Receiving.bytes).getD []

@[simp] theorem ioFailed_ok {α : Type} (rs : List (Result α)) (a : α) :
    ioFailed (rs ++ [.ok a]) = ioFailed rs := by
  simp [ioFailed]

@[simp] theorem ioFailed_error {α : Type} (rs : List (Result α)) (s : Status) :
    ioFailed (rs ++ [.error s]) = (ioFailed rs || decide (s.code = .ioError)) := by
  simp [ioFailed]

@[simp] theorem received_recvReturns_ok (c : Link) (f : Frame) :
    (c.recvReturns (.ok f)).received = c.received ++ [f] := by
  simp [received, recvReturns, Except.toOption]

@[simp] theorem received_recvReturns_error (c : Link) (s : Status) :
    (c.recvReturns (.error s)).received = c.received := by
  simp [received, recvReturns, Except.toOption]

end Link

/-! ### The readers are runs of the machine -/

/-- What happens to a call of the reader while it runs. -/
def LinkEvent.Waits : LinkEvent → Prop
  | .received _ | .recvInterrupted | .recvClosed => True
  | _ => False

theorem Receiving.room_pos_of_more {check : HeaderCheck} {bs : Bytes} {r r' : Receiving}
    (h : r.more check bs = .inl r') : 0 < r'.room := by
  cases r with
  | header got =>
      rw [Receiving.more] at h
      split at h
      · next hless =>
          obtain rfl := Sum.inl.inj h
          exact Nat.sub_pos_of_lt hless
      · split at h
        · cases h
        · split at h
          · next hlength =>
              obtain rfl := Sum.inl.inj h
              exact UInt32.lt_iff_toNat_lt.mp hlength
          · cases h
  | payload head length got =>
      rw [Receiving.more] at h
      split at h
      · next hless =>
          obtain rfl := Sum.inl.inj h
          exact Nat.sub_pos_of_lt hless
      · cases h

namespace Link

/-- What is left of a call is what the machine does with what arrives, when nothing more is
sent. -/
theorem finish_runs (check : HeaderCheck) (arrivals : List Arrival) (r : Receiving)
    (hroom : 0 < r.room) {c : Link} (hr : c.receiving = some r)
    (hflight : c.flight = arrivals.flatMap Arrival.bytes) (hclosed : c.senderOpen = false) :
    ∃ es, (∀ e ∈ es, LinkEvent.Waits e) ∧
      (Runs.run (step check) c es).results = c.results ++ [(r.finish check arrivals).1] ∧
      (Runs.run (step check) c es).flight = (r.finish check arrivals).2.stream := by
  -- by the bytes and the interruptions that are still to come
  induction hsize : (arrivals.flatMap Arrival.bytes).length + arrivals.length using
    Nat.strongRecOn generalizing arrivals r c with
  | _ size ih =>
      rw [r.finish_turn check hroom]
      obtain ⟨bs, rest, hrecv, hne, hle, hlength, hstream⟩ | ⟨rest, rfl, hrecv⟩ | ⟨rfl, hrecv⟩ :=
        TcpChannel.recv_cases hroom arrivals
      · have hpos := List.length_pos_iff.mpr hne
        have hfewer : (rest.flatMap Arrival.bytes).length + rest.length < size := by
          rw [hstream, List.length_append] at hsize
          omega
        have hcan : 0 < bs.length ∧ bs.length ≤ r.room ∧ bs.length ≤ c.flight.length := by
          rw [hflight, hstream, List.length_append]
          omega
        have htake : c.flight.take bs.length = bs := by rw [hflight, hstream, List.take_left]
        have hdrop : c.flight.drop bs.length = rest.flatMap Arrival.bytes := by
          rw [hflight, hstream, List.drop_left]
        simp only [hrecv]
        cases hmore : r.more check bs with
        | inl r' =>
            have hstep : c.step check (.received bs.length) =
                { c with receiving := some r', flight := rest.flatMap Arrival.bytes } := by
              simp only [step, hr, if_pos hcan, htake, hdrop, hmore]
            obtain ⟨es, hes, hresults, hleft⟩ := ih _ hfewer rest r'
              (Receiving.room_pos_of_more hmore) (c := { c with
                receiving := some r', flight := rest.flatMap Arrival.bytes }) rfl rfl hclosed rfl
            refine ⟨.received bs.length :: es, List.forall_mem_cons.mpr ⟨trivial, hes⟩, ?_, ?_⟩
            · rw [Runs.run_cons, hstep, hresults]
            · rw [Runs.run_cons, hstep, hleft]
        | inr result =>
            have hstep : c.step check (.received bs.length) =
                { c with flight := rest.flatMap Arrival.bytes }.recvReturns result := by
              simp only [step, hr, if_pos hcan, htake, hdrop, hmore]
            refine ⟨[.received bs.length], List.forall_mem_singleton.mpr trivial, ?_, ?_⟩
            · rw [Runs.run_cons, hstep]
              rfl
            · rw [Runs.run_cons, hstep]
              rfl
      · have hfewer : (rest.flatMap Arrival.bytes).length + rest.length < size := by
          rw [List.flatMap_cons, List.length_cons, Arrival.bytes, List.nil_append] at hsize
          omega
        simp only [hrecv]
        obtain ⟨es, hes, hresults, hleft⟩ := ih _ hfewer rest r hroom hr hflight hclosed rfl
        exact ⟨.recvInterrupted :: es, List.forall_mem_cons.mpr ⟨trivial, hes⟩, hresults, hleft⟩
      · simp only [hrecv]
        have hstep : c.step check .recvClosed =
            c.recvReturns (Result.fail .truncated "peer closed") := by
          rw [step, if_pos ⟨by rw [hr]; rfl, hflight, .inl hclosed⟩]
        refine ⟨[.recvClosed], List.forall_mem_singleton.mpr trivial, ?_, ?_⟩
        · rw [Runs.run_cons, hstep]
          rfl
        · rw [Runs.run_cons, hstep]
          exact hflight

end Link

/-! ### Frames as messages -/

def Frame.carried (f : Frame) : Frame := Frame.of f.kind f.payload

def framing : Framing Frame UInt8 where
  Valid f := f.payload.length ≤ kMaxFramePayload.toNat
  encode f := encodeFrame f.kind f.payload
  headSize := kFrameHeaderSize
  headSize_pos := by decide
  headSize_le f h := by
    rw [encodeFrame_eq h, length_frameBytes]
    exact Nat.le_add_right _ _

theorem length_encode {f : Frame} (h : framing.Valid f) :
    (framing.encode f).length = kFrameHeaderSize + f.payload.length := by
  show (encodeFrame f.kind f.payload).length = _
  rw [encodeFrame_eq h, length_frameBytes]

theorem toNat_payloadLength {f : Frame} (h : framing.Valid f) :
    (UInt32.ofNat f.payload.length).toNat = f.payload.length := by
  rw [UInt32.toNat_ofNat', Nat.mod_eq_of_lt]
  exact Nat.lt_of_le_of_lt h kMaxFramePayload.toNat_lt

theorem decodeFrame_encode {f : Frame} (h : framing.Valid f) :
    (decodeFrame (framing.encode f)).1 = .ok f.carried := by
  have hdecode := @decodeFrame_encodeFrame f.kind f.payload h []
  rw [List.append_nil] at hdecode
  exact congrArg Prod.fst hdecode

theorem readFrameHeader_head {f : Frame} (h : framing.Valid f) :
    readFrameHeader.run ((framing.encode f).take kFrameHeaderSize) =
      some ({
        magic := kFrameMagic
        version := kProtocolVersion
        kindRaw := f.kind.toWord
        length := UInt32.ofNat f.payload.length
        storedCrc := f.carried.crc }, []) := by
  have hfront : (frameHeader f.kind.toWord (UInt32.ofNat f.payload.length) ++
      putU32 f.carried.crc).length = kFrameHeaderSize := by
    simp [kFrameHeaderSize]
  have hbytes : framing.encode f = frameHeader f.kind.toWord (UInt32.ofNat f.payload.length) ++
      putU32 f.carried.crc ++ f.payload := encodeFrame_eq h
  rw [hbytes, List.take_left' hfront, readFrameHeader_eq_some]
  simp only [frameHeader, List.append_assoc, List.append_nil]

/-- The check lets the head of every frame pass and finds the length of its payload. -/
def Accepts (check : HeaderCheck) : Prop :=
  ∀ f, framing.Valid f →
    check ((framing.encode f).take kFrameHeaderSize) = .ok (UInt32.ofNat f.payload.length)

theorem not_tooLong {f : Frame} (h : framing.Valid f) :
    ¬kMaxFramePayload < UInt32.ofNat f.payload.length := by
  rw [UInt32.lt_iff_toNat_lt, toNat_payloadLength h]
  exact Nat.not_lt.mpr h

theorem accepts_libraryHeader : Accepts libraryHeader := by
  intro f h
  simp only [libraryHeader, TcpChannel.declaredLength_eq (readFrameHeader_head h),
    if_neg (not_tooLong h)]

theorem accepts_toolsHeader : Accepts toolsHeader := by
  intro f h
  simp only [toolsHeader, readFrameHeader_head h, ne_eq, not_true_eq_false, if_false,
    if_neg (not_tooLong h)]

namespace Receiving

/-- The call is where a call can be when these frames are still to come. -/
def Stands (next : List Frame) : Receiving → Prop
  | header got => got.length < kFrameHeaderSize
  | payload head length got => ∃ f more, next = f :: more ∧
      head = (framing.encode f).take kFrameHeaderSize ∧ length.toNat = f.payload.length ∧
      got.length < length.toNat

theorem Stands.short {next : List Frame} (hvalid : ∀ f ∈ next, framing.Valid f) {r : Receiving}
    (h : r.Stands next) {f : Frame} {more : List Frame} (hnext : next = f :: more) :
    r.bytes.length < (framing.encode f).length := by
  have hf := length_encode (hvalid f (hnext ▸ List.mem_cons_self))
  cases r with
  | header got =>
      rw [hf]
      exact Nat.lt_add_right _ h
  | payload head length got =>
      obtain ⟨g, _, heq, rfl, hlength, hless⟩ := h
      obtain ⟨rfl, -⟩ := List.cons.inj (hnext.symm.trans heq)
      rw [bytes, List.length_append, List.length_take, hf, ← hlength]
      omega

theorem Stands.append {next : List Frame} {r : Receiving} (h : r.Stands next)
    (more : List Frame) : r.Stands (next ++ more) := by
  cases r with
  | header got => exact h
  | payload head length got =>
      obtain ⟨f, others, rfl, hrest⟩ := h
      exact ⟨f, others ++ more, rfl, hrest⟩

theorem Stands.nothing {next : List Frame} (hvalid : ∀ f ∈ next, framing.Valid f) {r : Receiving}
    (h : r.Stands next) (hbytes : r.bytes = framing.encodeAll next) : next = [] := by
  cases hnext : next with
  | nil => rfl
  | cons f more =>
      have hless := h.short hvalid hnext
      rw [hbytes, hnext, Framing.encodeAll_cons, List.length_append] at hless
      omega

/-- With more bytes of the frames to come, a call goes on or returns the first of them. -/
theorem more_spec {check : HeaderCheck} (hcheck : Accepts check) {next : List Frame}
    (hvalid : ∀ f ∈ next, framing.Valid f) {r : Receiving} (hr : r.Stands next) {bs rest : Bytes}
    (hroom : bs.length ≤ r.room) (hstream : r.bytes ++ bs ++ rest = framing.encodeAll next) :
    (∃ r', r.more check bs = .inl r' ∧ r'.Stands next ∧ r'.bytes = r.bytes ++ bs) ∨
      ∃ f more, next = f :: more ∧ r.more check bs = .inr (.ok f.carried) ∧
        rest = framing.encodeAll more := by
  cases r with
  | header got =>
      replace hstream : got ++ bs ++ rest = framing.encodeAll next := hstream
      by_cases hmore : (got ++ bs).length < kFrameHeaderSize
      · exact .inl ⟨.header (got ++ bs), if_pos hmore, hmore, rfl⟩
      · have hfull : (got ++ bs).length = kFrameHeaderSize := by
          have hless : got.length < kFrameHeaderSize := hr
          simp only [room, List.length_append] at hroom hmore ⊢
          omega
        -- a full header tells which frame comes first
        obtain ⟨f, more, rfl, hhead⟩ := Framing.head_eq hvalid hstream hfull
        replace hhead : got ++ bs = (framing.encode f).take kFrameHeaderSize := hhead
        have hf := hvalid f List.mem_cons_self
        have hlength := toNat_payloadLength hf
        rw [Receiving.more, if_neg hmore, hhead]
        simp only [hcheck f hf]
        by_cases hpayload : 0 < UInt32.ofNat f.payload.length
        · refine .inl ⟨_, if_pos hpayload, ⟨f, more, rfl, rfl, hlength, ?_⟩, ?_⟩
          · exact UInt32.lt_iff_toNat_lt.mp hpayload
          · rw [bytes, bytes, hhead, List.append_nil]
        -- a frame without payload ends with its header
        · have hempty : f.payload.length = 0 := by
            rw [← hlength]
            exact Nat.eq_zero_of_not_pos fun h => hpayload (UInt32.lt_iff_toNat_lt.mpr h)
          have hsame : (got ++ bs).length = (framing.encode f).length := by
            rw [hfull, length_encode hf, hempty, Nat.add_zero]
          obtain ⟨hall, hrest⟩ := Framing.body_eq hstream hsame
          have hhead' : (framing.encode f).take kFrameHeaderSize = framing.encode f :=
            hhead.symm.trans hall
          simp only [if_neg hpayload, List.append_nil, hhead', decodeFrame_encode hf]
          exact .inr ⟨f, more, rfl, rfl, hrest⟩
  | payload head length got =>
      obtain ⟨f, more, rfl, rfl, hlength, hless⟩ := hr
      replace hstream : (framing.encode f).take kFrameHeaderSize ++ got ++ bs ++ rest =
        framing.encodeAll (f :: more) := hstream
      have hf := hvalid f List.mem_cons_self
      by_cases hmore : (got ++ bs).length < length.toNat
      · exact .inl ⟨_, if_pos hmore, ⟨f, more, rfl, rfl, hlength, hmore⟩,
          (List.append_assoc _ _ _).symm⟩
      · have hsame : ((framing.encode f).take kFrameHeaderSize ++ got ++ bs).length =
            (framing.encode f).length := by
          have hle := framing.headSize_le f hf
          simp only [room, List.length_append, List.length_take, length_encode hf] at hroom hmore ⊢
          omega
        obtain ⟨hall, hrest⟩ := Framing.body_eq hstream hsame
        rw [Receiving.more, if_neg hmore, ← List.append_assoc, hall, decodeFrame_encode hf]
        exact .inr ⟨f, more, rfl, rfl, hrest⟩

end Receiving

namespace Link

/-- What the two ends and the bytes between them have to do with each other. -/
structure Flows (c : Link) : Prop where
  valid : ∀ f ∈ c.offered, framing.Valid f
  /-- No call is going on after a failure, and none of the sender once it has closed. -/
  stopped : ioFailed c.sendResults = true ∨ c.senderOpen = false → c.sending = none
  dead : ioFailed c.results = true → c.receiving = none
  clean : ∀ s, .error s ∈ c.results →
    s.code = .truncated ∨ s.code = .ioError ∨ s.code = .invalidState
  /-- The frames are those that have come out and those that are to come; of the latter the
  reader has a part, a part is in flight, and a part is behind. -/
  stream : ∃ past next, c.offered = past ++ next ∧ c.received = past.map Frame.carried ∧
    (ioFailed c.results = false →
      (∃ behind, c.held ++ c.flight ++ behind = framing.encodeAll next ∧
        (c.Whole → behind = c.sending.getD [])) ∧
      ∀ r, c.receiving = some r → r.Stands next)

variable {c : Link}

theorem flows_fresh : Flows {} where
  valid := nofun
  stopped _ := rfl
  dead _ := rfl
  clean := nofun
  stream := ⟨[], [], rfl, rfl, fun _ => ⟨⟨[], rfl, fun _ => rfl⟩, nofun⟩⟩

theorem sendFrame_ok {f : Frame} {raw : Bytes} (h : StorageFabric.sendFrame f = .ok raw) :
    framing.Valid f ∧ raw = framing.encode f := by
  unfold StorageFabric.sendFrame at h
  dsimp only at h
  split at h
  · cases h
  · next hne =>
      refine ⟨Nat.le_of_not_lt fun hlong => hne ?_, (Except.ok.inj h).symm⟩
      rw [encodeFrame, if_pos hlong]
      rfl

theorem Flows.sendReturns (h : c.Flows) {s : Status}
    (hs : c.sending = none ∨ s.code = .ioError) : (c.sendReturns (.error s)).Flows := by
  obtain ⟨past, next, hoffered, hreceived, hstream⟩ := h.stream
  refine ⟨h.valid, fun _ => rfl, h.dead, h.clean, past, next, hoffered, hreceived, fun hlive => ?_⟩
  obtain ⟨⟨behind, hbytes, hwhole⟩, hstands⟩ := hstream hlive
  refine ⟨⟨behind, hbytes, fun hw => ?_⟩, hstands⟩
  obtain ⟨hreset, hfailed⟩ := hw
  simp only [Link.sendReturns, ioFailed_error, Bool.or_eq_false_iff, decide_eq_false_iff_not]
    at hfailed
  obtain hnone | hio := hs
  · rw [hwhole ⟨hreset, hfailed.1⟩, hnone]
    rfl
  · exact absurd hio hfailed.2

theorem Flows.sendFrame (h : c.Flows) (hlive : ioFailed c.sendResults = false) (f : Frame)
    (check : HeaderCheck) : (c.step check (.sendFrame f)).Flows := by
  rw [step]
  by_cases hbusy : c.sending.isSome = true
  · rwa [if_pos hbusy]
  · rw [if_neg hbusy]
    have hnone : c.sending = none := by simpa using hbusy
    cases hsend : StorageFabric.sendFrame f with
    | error s => exact h.sendReturns (.inl hnone)
    | ok raw =>
        obtain ⟨hf, rfl⟩ := sendFrame_ok hsend
        by_cases hopen : c.senderOpen = true
        · simp only [if_pos hopen]
          obtain ⟨past, next, hoffered, hreceived, hstream⟩ := h.stream
          refine ⟨?_, ?_, h.dead, h.clean, past, next ++ [f], ?_, hreceived, fun hrecv => ?_⟩
          · intro g hg
            obtain hg | hg := List.mem_append.mp hg
            · exact h.valid g hg
            · rwa [List.mem_singleton.mp hg]
          · intro hstop
            simp only [hlive, hopen, Bool.false_eq_true, Bool.true_eq_false, or_self] at hstop
          · rw [hoffered, List.append_assoc]
          · obtain ⟨⟨behind, hbytes, hwhole⟩, hstands⟩ := hstream hrecv
            refine ⟨⟨behind ++ framing.encode f, ?_, fun hw => ?_⟩,
              fun r hr => (hstands r hr).append [f]⟩
            · rw [Framing.encodeAll_append, ← hbytes, List.append_assoc _ behind]
              simp only [Framing.encodeAll_cons, Framing.encodeAll_nil, List.append_nil]
              rfl
            · rw [hwhole hw, hnone]
              rfl
        · simp only [if_neg hopen]
          exact h.sendReturns (.inl hnone)

theorem Flows.sent (h : c.Flows) (n : Nat) (check : HeaderCheck) :
    (c.step check (.sent n)).Flows := by
  rw [step]
  cases hsending : c.sending with
  | none => exact h
  | some rest =>
      dsimp only
      by_cases hn : n ≤ rest.length ∧ c.wasReset = false
      · rw [if_pos hn]
        have hlive : ioFailed c.sendResults = false := by
          by_contra hfailed
          rw [h.stopped (.inl (by simpa using hfailed))] at hsending
          cases hsending
        have hopen : c.senderOpen = true := by
          by_contra hclosed
          rw [h.stopped (.inr (by simpa using hclosed))] at hsending
          cases hsending
        obtain ⟨past, next, hoffered, hreceived, hstream⟩ := h.stream
        have hbehind : ioFailed c.results = false →
            c.held ++ (c.flight ++ rest.take n) ++ rest.drop n = framing.encodeAll next := by
          intro hrecv
          obtain ⟨⟨behind, hbytes, hwhole⟩, -⟩ := hstream hrecv
          have hrest : behind = rest := by
            rw [hwhole ⟨hn.2, hlive⟩, hsending]
            rfl
          rw [← hbytes, hrest, ← List.append_assoc, List.append_assoc _ (rest.take n),
            List.take_append_drop]
        by_cases hmore : n < rest.length
        · rw [if_pos hmore]
          refine ⟨h.valid, ?_, h.dead, h.clean, past, next, hoffered, hreceived, fun hrecv => ?_⟩
          · intro hstop
            simp only [hlive, hopen, Bool.false_eq_true, Bool.true_eq_false, or_self] at hstop
          · exact ⟨⟨rest.drop n, hbehind hrecv, fun _ => rfl⟩, (hstream hrecv).2⟩
        · rw [if_neg hmore]
          have hdone : rest.drop n = [] := List.drop_eq_nil_of_le (Nat.le_of_not_lt hmore)
          refine ⟨h.valid, fun _ => rfl, h.dead, h.clean, past, next, hoffered, hreceived,
            fun hrecv => ?_⟩
          exact ⟨⟨rest.drop n, hbehind hrecv, fun _ => hdone⟩, (hstream hrecv).2⟩
      · rwa [if_neg hn]

theorem Flows.reset (h : c.Flows) (n : Nat) (check : HeaderCheck) :
    (c.step check (.reset n)).Flows := by
  obtain ⟨past, next, hoffered, hreceived, hstream⟩ := h.stream
  refine ⟨h.valid, h.stopped, h.dead, h.clean, past, next, hoffered, hreceived, fun hrecv => ?_⟩
  obtain ⟨⟨behind, hbytes, -⟩, hstands⟩ := hstream hrecv
  -- what is lost is behind, and stays there
  refine ⟨⟨c.flight.drop n ++ behind, ?_, fun hw => absurd hw.1 (Bool.noConfusion)⟩, hstands⟩
  show c.held ++ c.flight.take n ++ (c.flight.drop n ++ behind) = _
  rw [← hbytes, ← List.append_assoc, List.append_assoc c.held, List.take_append_drop]

/-- A call of the reader fails, when it has nothing of a frame that is still to come or when it
is the last. -/
theorem Flows.recvReturns (h : c.Flows) {s : Status}
    (hcode : s.code = .truncated ∨ s.code = .ioError ∨ s.code = .invalidState)
    (hs : s.code = .ioError ∨ c.held = [] ∨ c.flight = [] ∧ ¬c.Whole) :
    (c.recvReturns (.error s)).Flows := by
  obtain ⟨past, next, hoffered, hreceived, hstream⟩ := h.stream
  refine ⟨h.valid, h.stopped, fun _ => rfl, fun t ht => ?_, past, next, hoffered, ?_,
    fun hrecv => ?_⟩
  · obtain ht | ht := List.mem_append.mp ht
    · exact h.clean t ht
    · obtain rfl : t = s := by simpa using ht
      exact hcode
  · rw [received_recvReturns_error, hreceived]
  · simp only [Link.recvReturns, ioFailed_error, Bool.or_eq_false_iff, decide_eq_false_iff_not]
      at hrecv
    obtain ⟨⟨behind, hbytes, hwhole⟩, -⟩ := hstream hrecv.1
    refine ⟨?_, fun _ hr => absurd hr (Option.some_ne_none _).symm⟩
    obtain hio | hheld | ⟨hflight, hbroken⟩ := hs
    · exact absurd hio hrecv.2
    · rw [hheld] at hbytes
      exact ⟨behind, hbytes, hwhole⟩
    · refine ⟨c.held ++ behind, ?_, fun hw => absurd hw hbroken⟩
      rw [hflight, List.append_nil] at hbytes
      rw [← hbytes]
      show [] ++ c.flight ++ _ = _
      rw [hflight]
      rfl

theorem Flows.recvFrame (h : c.Flows) (hlive : ioFailed c.results = false)
    (check : HeaderCheck) : (c.step check .recvFrame).Flows := by
  rw [step]
  by_cases hbusy : c.receiving.isSome = true
  · rwa [if_pos hbusy]
  · rw [if_neg hbusy]
    have hnone : c.receiving = none := by simpa using hbusy
    have hheld : c.held = [] := by rw [held, hnone]; rfl
    by_cases hopen : c.receiverOpen = true
    · rw [if_pos hopen]
      obtain ⟨past, next, hoffered, hreceived, hstream⟩ := h.stream
      refine ⟨h.valid, h.stopped, fun hdead => ?_, h.clean, past, next, hoffered, hreceived,
        fun hrecv => ⟨?_, fun r hr => ?_⟩⟩
      · exact absurd (hlive.symm.trans hdead) Bool.false_ne_true
      · have hsame := (hstream hrecv).1
        rw [hheld] at hsame
        exact hsame
      · obtain rfl := Option.some.inj hr
        exact Nat.zero_lt_succ 15
    · rw [if_neg hopen]
      exact h.recvReturns (.inr (.inr rfl)) (.inr (.inl hheld))

theorem Flows.received {check : HeaderCheck} (hcheck : Accepts check) (h : c.Flows) (n : Nat) :
    (c.step check (.received n)).Flows := by
  rw [step]
  cases hreceiving : c.receiving with
  | none => exact h
  | some r =>
      dsimp only
      by_cases hn : 0 < n ∧ n ≤ r.room ∧ n ≤ c.flight.length
      · rw [if_pos hn]
        -- a reader that failed is reading no more
        have hlive : ioFailed c.results = false := by
          by_contra hfailed
          rw [h.dead (by simpa using hfailed)] at hreceiving
          cases hreceiving
        obtain ⟨past, next, hoffered, hreceived, hstream⟩ := h.stream
        obtain ⟨⟨behind, hbytes, hwhole⟩, hstands⟩ := hstream hlive
        have hvalid : ∀ f ∈ next, framing.Valid f := fun f hf =>
          h.valid f (hoffered ▸ List.mem_append_right past hf)
        have hheld : c.held = r.bytes := by rw [held, hreceiving]; rfl
        have hsplit : r.bytes ++ c.flight.take n ++ (c.flight.drop n ++ behind) =
            framing.encodeAll next := by
          rw [← hbytes, hheld, ← List.append_assoc, List.append_assoc r.bytes,
            List.take_append_drop]
        have hroom : (c.flight.take n).length ≤ r.room := by
          rw [List.length_take]
          omega
        -- the frame needs more bytes, or these were its last
        obtain ⟨r', hmore, hstands', hbytes'⟩ | ⟨f, more, rfl, hmore, hrest⟩ :=
          r.more_spec hcheck hvalid (hstands r hreceiving) hroom hsplit
        · rw [hmore]
          refine ⟨h.valid, h.stopped, fun hdead => ?_, h.clean, past, next, hoffered, hreceived,
            fun _ => ⟨⟨behind, ?_, hwhole⟩, fun q hq => ?_⟩⟩
          · exact absurd (hlive.symm.trans hdead) Bool.false_ne_true
          · rw [← hsplit, ← List.append_assoc, ← hbytes']
            rfl
          · obtain rfl := Option.some.inj hq
            exact hstands'
        · rw [hmore]
          refine ⟨h.valid, h.stopped, fun _ => rfl, fun s hs => ?_, past ++ [f], more, ?_, ?_,
            fun _ => ⟨⟨behind, hrest, hwhole⟩, fun _ hr => absurd hr (Option.some_ne_none _).symm⟩⟩
          · obtain hs | hs := List.mem_append.mp hs
            · exact h.clean s hs
            · simp at hs
          · show c.offered = _
            rw [hoffered, List.append_assoc]
            rfl
          · rw [received_recvReturns_ok, List.map_append]
            exact congrArg (· ++ [f.carried]) hreceived
      · rwa [if_neg hn]

/-- A call that finds the other end closed has nothing of a frame, or the rest of it is lost. -/
theorem Flows.recvClosed (h : c.Flows) (check : HeaderCheck) :
    (c.step check .recvClosed).Flows := by
  rw [step]
  by_cases hend : c.receiving.isSome ∧ c.flight = [] ∧
      (c.senderOpen = false ∨ c.wasReset = true)
  · rw [if_pos hend]
    obtain ⟨hsome, hflight, hover⟩ := hend
    obtain ⟨r, hr⟩ := Option.isSome_iff_exists.mp hsome
    refine h.recvReturns (.inl rfl) (.inr ?_)
    by_cases hw : c.Whole
    · obtain hclosed | hreset := hover
      · obtain ⟨past, next, hoffered, -, hstream⟩ := h.stream
        have hlive : ioFailed c.results = false := by
          by_contra hfailed
          rw [h.dead (by simpa using hfailed)] at hr
          cases hr
        obtain ⟨⟨behind, hbytes, hwhole⟩, hstands⟩ := hstream hlive
        have hheld : c.held = r.bytes := by rw [held, hr]; rfl
        rw [hwhole hw, h.stopped (.inr hclosed), hflight, hheld] at hbytes
        simp only [Option.getD_none, List.append_nil] at hbytes
        have hvalid : ∀ f ∈ next, framing.Valid f := fun f hf =>
          h.valid f (hoffered ▸ List.mem_append_right past hf)
        rw [(hstands r hr).nothing hvalid hbytes, Framing.encodeAll_nil] at hbytes
        exact .inl (hheld.trans hbytes)
      · exact absurd (hw.1.symm.trans hreset) Bool.false_ne_true
    · exact .inr ⟨hflight, hw⟩
  · rwa [if_neg hend]

theorem Flows.step {check : HeaderCheck} (hcheck : Accepts check) (h : c.Flows) {e : LinkEvent}
    (he : Orderly c e) : (c.step check e).Flows := by
  cases e with
  | sendFrame f => exact h.sendFrame he f check
  | sent n => exact h.sent n check
  | sendInterrupted => exact h
  | sendFailed reason =>
      rw [Link.step]
      split
      · exact h.sendReturns (.inr rfl)
      · exact h
  | closeSender =>
      rw [Link.step]
      split
      · exact h
      · next hidle =>
          exact ⟨h.valid, fun _ => by simpa using hidle, h.dead, h.clean, h.stream⟩
  | reset n => exact h.reset n check
  | recvFrame => exact h.recvFrame he check
  | received n => exact h.received hcheck n
  | recvInterrupted => exact h
  | recvClosed => exact h.recvClosed check
  | recvFailed =>
      rw [Link.step]
      split
      · exact h.recvReturns (.inr (.inl rfl)) (.inl rfl)
      · exact h
  | closeReceiver =>
      rw [Link.step]
      split
      · exact h
      · exact ⟨h.valid, h.stopped, h.dead, h.clean, h.stream⟩

/-- What is received is the beginning of what was offered, in order, each frame with its CRC and
none twice, whatever the system does with the bytes; no call of the reader fails for the bytes
that it has; and when nothing went wrong and nothing is on the way, nothing is missing. -/
theorem frames_in_order {check : HeaderCheck} (hcheck : check = libraryHeader ∨ check = toolsHeader)
    {es : List LinkEvent} (hes : Runs.Along (Link.step check) Orderly {} es) :
    let c := Runs.run (Link.step check) {} es
    (∃ n, c.received = (c.offered.take n).map Frame.carried) ∧
      (∀ s, .error s ∈ c.results →
        s.code = .truncated ∨ s.code = .ioError ∨ s.code = .invalidState) ∧
      (c.Whole → ioFailed c.results = false → c.sending = none → c.flight = [] →
        c.received = c.offered.map Frame.carried) := by
  have haccepts : Accepts check := by
    obtain rfl | rfl := hcheck
    · exact accepts_libraryHeader
    · exact accepts_toolsHeader
  have h : (Runs.run (Link.step check) {} es).Flows :=
    Runs.invariant (fun _ _ h he => h.step haccepts he) flows_fresh hes
  generalize Runs.run (Link.step check) {} es = c at h
  obtain ⟨past, next, hoffered, hreceived, hstream⟩ := h.stream
  refine ⟨⟨past.length, ?_⟩, h.clean, fun hw hlive hidle hflight => ?_⟩
  · rw [hreceived, hoffered, List.take_left]
  · obtain ⟨⟨behind, hbytes, hwhole⟩, hstands⟩ := hstream hlive
    have hvalid : ∀ f ∈ next, framing.Valid f := fun f hf =>
      h.valid f (hoffered ▸ List.mem_append_right past hf)
    have hheld : c.held = framing.encodeAll next := by
      rw [← hbytes, hwhole hw, hidle, hflight]
      simp only [Option.getD_none, List.append_nil]
    -- nothing is on its way, and what is held begins no frame
    have hnext : next = [] := by
      cases hr : c.receiving with
      | none =>
          rw [held, hr] at hheld
          exact Framing.eq_nil_of_encodeAll hvalid hheld.symm
      | some r =>
          rw [held, hr] at hheld
          exact (hstands r hr).nothing hvalid hheld
    rw [hreceived, hoffered, hnext, List.append_nil]

/-- Two frames, each written and received in pieces; the second while the first is on its way. -/
def smallLink : List LinkEvent :=
  [.recvFrame, .sendFrame { kind := .publish, payload := [7, 8, 9] }, .sent 5, .received 3,
    .sendInterrupted, .sent 14, .sendFrame { kind := .ping }, .received 2, .recvInterrupted,
    .received 11, .sent 16, .received 1, .received 2, .recvFrame, .received 16, .closeSender,
    .recvFrame, .recvClosed]

theorem frames_in_order_small :
    let c := Runs.run (Link.step toolsHeader) {} smallLink
    (∃ n, c.received = (c.offered.take n).map Frame.carried) ∧
      c.received = [Frame.of .publish [7, 8, 9], Frame.of .ping []] := by
  have hes : Runs.Along (Link.step toolsHeader) Orderly {} smallLink := by decide +kernel
  obtain ⟨harrived, -, hall⟩ := frames_in_order (.inr rfl) hes
  have hwhole : (Runs.run (Link.step toolsHeader) {} smallLink).wasReset = false ∧
      ioFailed (Runs.run (Link.step toolsHeader) {} smallLink).sendResults = false := by
    decide +kernel
  have hrest : ioFailed (Runs.run (Link.step toolsHeader) {} smallLink).results = false ∧
      (Runs.run (Link.step toolsHeader) {} smallLink).sending = none ∧
      (Runs.run (Link.step toolsHeader) {} smallLink).flight = [] ∧
      (Runs.run (Link.step toolsHeader) {} smallLink).offered =
        [{ kind := .publish, payload := [7, 8, 9] }, { kind := .ping }] := by
    decide +kernel
  obtain ⟨hlive, hidle, hflight, hoffered⟩ := hrest
  refine ⟨harrived, (hall hwhole hlive hidle hflight).trans ?_⟩
  rw [hoffered]
  rfl

/-- A whole call of either reader is a run of the machine: whatever arrives, however it is
split and interrupted, the call returns the same and leaves the same bytes. -/
theorem reader_runs {c : Link} (hidle : c.receiving = none) (hopen : c.receiverOpen = true)
    (hclosed : c.senderOpen = false) (arrivals : List Arrival)
    (hflight : c.flight = (TcpChannel.connected arrivals).stream) :
    (∃ es, (∀ e ∈ es, LinkEvent.Waits e) ∧
      let c' := Runs.run (step libraryHeader) c (.recvFrame :: es)
      let r := (TcpChannel.connected arrivals).recvFrame
      c'.results = c.results ++ [r.1] ∧ c'.flight = r.2.stream) ∧
    ∃ es, (∀ e ∈ es, LinkEvent.Waits e) ∧
      let c' := Runs.run (step toolsHeader) c (.recvFrame :: es)
      let r := (TcpChannel.connected arrivals).recvFrameLocal
      c'.results = c.results ++ [r.1] ∧ c'.flight = r.2.stream := by
  have hcall : ∀ check, c.step check .recvFrame = { c with receiving := some (.header []) } :=
    fun check => by
      rw [step, hidle, if_neg (by simp), if_pos hopen]
  constructor
  · rw [TcpChannel.recvFrame_eq, Receiving.recvFrameBy_connected]
    simp only [Runs.run_cons, hcall]
    exact finish_runs libraryHeader arrivals (.header []) (by decide)
      (c := { c with receiving := some (.header []) }) rfl hflight hclosed
  · rw [TcpChannel.recvFrameLocal_eq, Receiving.recvFrameBy_connected]
    simp only [Runs.run_cons, hcall]
    exact finish_runs toolsHeader arrivals (.header []) (by decide)
      (c := { c with receiving := some (.header []) }) rfl hflight hclosed

/-- What is written for a frame with a payload of three bytes. -/
def smallBytes : Bytes := frameBytes .publish [7, 8, 9]

/-- The frame arrives in two pieces, the first of which ends in its header. -/
theorem reader_runs_small :
    (∃ es, (∀ e ∈ es, LinkEvent.Waits e) ∧
      (Runs.run (step libraryHeader) { senderOpen := false, flight := smallBytes }
        (.recvFrame :: es)).results = [.ok (Frame.of .publish [7, 8, 9])]) ∧
    ∃ es, (∀ e ∈ es, LinkEvent.Waits e) ∧
      (Runs.run (step toolsHeader) { senderOpen := false, flight := smallBytes }
        (.recvFrame :: es)).results = [.ok (Frame.of .publish [7, 8, 9])] := by
  obtain ⟨⟨es, hes, hresults, -⟩, es', hes', hresults', -⟩ := reader_runs
    (c := { senderOpen := false, flight := smallBytes }) rfl rfl rfl
    [.piece (smallBytes.take 5) (by decide +kernel), .interrupted,
      .piece (smallBytes.drop 5) (by decide +kernel)] (by decide +kernel)
  refine ⟨⟨es, hes, hresults.trans ?_⟩, es', hes', hresults'.trans ?_⟩
  · decide +kernel
  · decide +kernel

end Link

end StorageFabric
