import Mathlib.Data.List.GetD
import StorageFabric.Core.Digest
import StorageFabric.Lib.Runs
import StorageFabric.Lib.Sha2

/-!
The streaming SHA-256 and its specification.

The object feeds its own padding to itself, byte by byte, so a digest is the state after
the padded message, whose blocks have all been compressed. The compression itself is
compared word by word: the schedule is a window of sixteen words here and a recurrence
there.
-/

namespace StorageFabric

open BlockStream

/-! ### Words and bytes -/

def ShaWords.words (s : ShaWords) : Sha2.State where
  a := s.a.toBitVec
  b := s.b.toBitVec
  c := s.c.toBitVec
  d := s.d.toBitVec
  e := s.e.toBitVec
  f := s.f.toBitVec
  g := s.g.toBitVec
  h := s.h.toBitVec

theorem shiftLeft_or (a k : Nat) {b : Nat} (hb : b < 256) :
    a <<< (k + 8) ||| b <<< k = (256 * a + b) <<< k := by
  have hjoin : a <<< 8 ||| b = 256 * a + b := by
    rw [← Nat.shiftLeft_add_eq_or_of_lt (show b < 2 ^ 8 from hb), Nat.shiftLeft_eq, Nat.mul_comm]
  rw [Nat.add_comm k 8, Nat.shiftLeft_add, ← Nat.shiftLeft_or_distrib, hjoin]

theorem toNat_toUInt32_shiftLeft (p : UInt8) {k : UInt32} (hk : k.toNat ≤ 24) :
    (p.toUInt32 <<< k).toNat = p.toNat <<< k.toNat := by
  have hp : p.toNat < 2 ^ 8 := p.toNat_lt
  have hlt : p.toNat * 2 ^ k.toNat < 2 ^ 32 :=
    calc p.toNat * 2 ^ k.toNat < 2 ^ 8 * 2 ^ k.toNat :=
          Nat.mul_lt_mul_of_pos_right hp (Nat.two_pow_pos _)
      _ ≤ 2 ^ 8 * 2 ^ 24 := Nat.mul_le_mul_left _ (Nat.pow_le_pow_right Nat.two_pos hk)
  rw [UInt32.toNat_shiftLeft, UInt8.toNat_toUInt32, Nat.mod_eq_of_lt (by omega : k.toNat < 32),
    Nat.shiftLeft_eq, Nat.mod_eq_of_lt hlt]

theorem toBitVec_bytes (p₀ p₁ p₂ p₃ : UInt8) :
    ((p₀.toUInt32 <<< 24) ||| (p₁.toUInt32 <<< 16) ||| (p₂.toUInt32 <<< 8) |||
      p₃.toUInt32).toBitVec = Sha2.wordOf [p₀, p₁, p₂, p₃] := by
  have hjoin₁ : p₀.toNat <<< 24 ||| p₁.toNat <<< 16 = (256 * p₀.toNat + p₁.toNat) <<< 16 :=
    shiftLeft_or _ 16 p₁.toNat_lt
  have hjoin₂ : (256 * p₀.toNat + p₁.toNat) <<< 16 ||| p₂.toNat <<< 8 =
      (256 * (256 * p₀.toNat + p₁.toNat) + p₂.toNat) <<< 8 := shiftLeft_or _ 8 p₂.toNat_lt
  have hjoin₃ : (256 * (256 * p₀.toNat + p₁.toNat) + p₂.toNat) <<< 8 ||| p₃.toNat =
      256 * (256 * (256 * p₀.toNat + p₁.toNat) + p₂.toNat) + p₃.toNat :=
    shiftLeft_or _ 0 p₃.toNat_lt
  have hspelled : LittleEndian.decode [p₃, p₂, p₁, p₀] =
      256 * (256 * (256 * p₀.toNat + p₁.toNat) + p₂.toNat) + p₃.toNat := by
    simp only [LittleEndian.decode]
    omega
  have hlt : LittleEndian.decode [p₃, p₂, p₁, p₀] < 2 ^ 32 := by
    have h₀ := p₀.toNat_lt
    have h₁ := p₁.toNat_lt
    have h₂ := p₂.toNat_lt
    have h₃ := p₃.toNat_lt
    omega
  apply BitVec.eq_of_toNat_eq
  rw [UInt32.toNat_toBitVec, UInt32.toNat_or, UInt32.toNat_or, UInt32.toNat_or,
    toNat_toUInt32_shiftLeft p₀ (by decide), toNat_toUInt32_shiftLeft p₁ (by decide),
    toNat_toUInt32_shiftLeft p₂ (by decide), UInt8.toNat_toUInt32]
  show p₀.toNat <<< 24 ||| p₁.toNat <<< 16 ||| p₂.toNat <<< 8 ||| p₃.toNat =
    LittleEndian.decode [p₃, p₂, p₁, p₀] % 2 ^ 32
  rw [hjoin₁, hjoin₂, hjoin₃, Nat.mod_eq_of_lt hlt, hspelled]

theorem toUInt8_shiftRight (w k : UInt32) (hk : k.toNat < 32) :
    (w >>> k).toUInt8 = UInt8.ofNat (w.toNat / 2 ^ k.toNat) := by
  apply UInt8.toNat_inj.mp
  rw [UInt32.toNat_toUInt8, UInt32.toNat_shiftRight, Nat.mod_eq_of_lt hk,
    Nat.shiftRight_eq_div_pow, UInt8.toNat_ofNat']

theorem toUInt8_shiftRight_64 (n k : UInt64) (hk : k.toNat < 64) :
    (n >>> k).toUInt8 = UInt8.ofNat (n.toNat / 2 ^ k.toNat) := by
  apply UInt8.toNat_inj.mp
  rw [UInt64.toNat_toUInt8, UInt64.toNat_shiftRight, Nat.mod_eq_of_lt hk,
    Nat.shiftRight_eq_div_pow, UInt8.toNat_ofNat']

theorem wordBytes_eq (w : UInt32) : Sha256.wordBytes w = Sha2.bigEndian 4 w.toNat := by
  have hlist : Sha256.wordBytes w =
      (List.range 4).map fun i => (w >>> UInt32.ofNat (8 * (3 - i))).toUInt8 := by
    show _ = [(w >>> 24).toUInt8, (w >>> 16).toUInt8, (w >>> 8).toUInt8, (w >>> 0).toUInt8]
    rw [UInt32.shiftRight_zero]
    rfl
  rw [hlist, Sha2.bigEndian_eq]
  refine List.map_congr_left fun i _ => ?_
  have hk : (UInt32.ofNat (8 * (3 - i))).toNat = 8 * (3 - i) := by
    rw [UInt32.toNat_ofNat', Nat.mod_eq_of_lt (by omega)]
  rw [toUInt8_shiftRight _ _ (by omega), hk]

theorem lengthBytes_eq (n : UInt64) :
    ((List.range 8).map fun i => (n >>> UInt64.ofNat (56 - 8 * i)).toUInt8) =
      Sha2.bigEndian 8 n.toNat := by
  rw [Sha2.bigEndian_eq]
  refine List.map_congr_left fun i _ => ?_
  have hk : (UInt64.ofNat (56 - 8 * i)).toNat = 8 * (7 - i) := by
    rw [UInt64.toNat_ofNat', Nat.mod_eq_of_lt (by omega)]
    omega
  rw [toUInt8_shiftRight_64 _ _ (by omega), hk]

/-! ### Compression -/

theorem blockWords_eq {p : Bytes} {n : Nat} (h : p.length = 4 * n) :
    (blockWords p).map UInt32.toBitVec = (List.range n).map (Sha2.blockWord p) := by
  induction n generalizing p with
  | zero =>
      rw [List.eq_nil_of_length_eq_zero h]
      rfl
  | succ n ih =>
      match p, h with
      | p₀ :: p₁ :: p₂ :: p₃ :: rest, h =>
          have hrest : rest.length = 4 * n := by
            simp only [List.length_cons] at h
            omega
          have hnext : (List.range n).map (Sha2.blockWord (p₀ :: p₁ :: p₂ :: p₃ :: rest) ∘ Nat.succ) =
              (List.range n).map (Sha2.blockWord rest) := rfl
          rw [blockWords, List.map_cons, ih hrest, List.range_succ_eq_map, List.map_cons,
            List.map_map, hnext, toBitVec_bytes]
          rfl

theorem toBitVec_getD (ws : List UInt32) (i : Nat) :
    (ws.getD i 0).toBitVec = (ws.map UInt32.toBitVec).getD i 0 :=
  (List.getD_map ws 0 UInt32.toBitVec).symm

/-- The word that a window gives is the next one of the recurrence. -/
theorem toBitVec_scheduleWord {window : List UInt32} {words : Nat → Sha2.Word} {t : Nat}
    (h : window.map UInt32.toBitVec = (List.range' t 16).map (Sha2.schedule words)) :
    (scheduleWord window).toBitVec = Sha2.schedule words (t + 16) := by
  have hget : ∀ i < 16, (window.getD i 0).toBitVec = Sha2.schedule words (t + i) := by
    intro i hi
    have hi' : i < ((List.range' t 16).map (Sha2.schedule words)).length := by simpa using hi
    rw [toBitVec_getD, h, List.getD_eq_getElem _ _ hi', List.getElem_map, List.getElem_range',
      Nat.one_mul]
  have hfirst : (window.getD 0 0).toBitVec = Sha2.schedule words t := hget 0 (by decide)
  rw [Sha2.schedule_add, ← hget 14 (by decide), ← hget 9 (by decide), ← hget 1 (by decide),
    ← hfirst]
  show (window.getD 0 0).toBitVec + Sha2.smallSigma0 (window.getD 1 0).toBitVec +
    (window.getD 9 0).toBitVec + Sha2.smallSigma1 (window.getD 14 0).toBitVec = _
  ac_rfl

theorem schedule_eq {words : Nat → Sha2.Word} (n : Nat) {window : List UInt32} {t : Nat}
    (h : window.map UInt32.toBitVec = (List.range' t 16).map (Sha2.schedule words)) :
    (schedule n window).map UInt32.toBitVec = (List.range' t n).map (Sha2.schedule words) := by
  induction n generalizing window t with
  | zero => rfl
  | succ n ih =>
      have hfirst : (window.getD 0 0).toBitVec = Sha2.schedule words t := by
        rw [toBitVec_getD, h]
        rfl
      have hnext : (window.tail ++ [scheduleWord window]).map UInt32.toBitVec =
          (List.range' (t + 1) 16).map (Sha2.schedule words) := by
        have htail : window.tail.map UInt32.toBitVec =
            (List.range' (t + 1) 15).map (Sha2.schedule words) := by
          rw [List.map_tail, h]
          rfl
        have hlast : List.range' (t + 1) 16 = List.range' (t + 1) 15 ++ [t + 16] := by
          rw [List.range'_concat]
        rw [List.map_append, List.map_singleton, toBitVec_scheduleWord h, htail, hlast,
          List.map_append, List.map_singleton]
      rw [schedule, List.map_cons, hfirst, ih hnext, List.range'_succ, List.map_cons]

theorem kK_eq : kK.map UInt32.toBitVec = (List.range 64).map Sha2.roundConstant := by
  have hconstant : Sha2.roundConstant = fun t => Sha2.rootBits 3 (Sha2.primes.getD t 0) := rfl
  rw [hconstant, Sha2.primes_eq]
  decide +kernel

theorem words_kH : kH.words = Sha2.State.initial := by
  rw [Sha2.State.initial, Sha2.primes_eq]
  decide +kernel

theorem words_shaRound {w : Nat → Sha2.Word} {t : Nat} {kw : UInt32 × UInt32}
    (hk : kw.1.toBitVec = Sha2.roundConstant t) (hw : kw.2.toBitVec = w t) (s : ShaWords) :
    (shaRound s kw).words = Sha2.round w s.words t := by
  rw [Sha2.round, ← hk, ← hw]
  rfl

theorem words_foldl_shaRound {w : Nat → Sha2.Word} {ts : List Nat} {ks ws : List UInt32}
    (hks : ks.map UInt32.toBitVec = ts.map Sha2.roundConstant)
    (hws : ws.map UInt32.toBitVec = ts.map w) (s : ShaWords) :
    ((ks.zip ws).foldl shaRound s).words = ts.foldl (Sha2.round w) s.words := by
  induction ts generalizing ks ws s with
  | nil =>
      rw [List.map_eq_nil_iff.mp hks]
      rfl
  | cons t ts ih =>
      obtain ⟨k, ks, rfl, hk, hks⟩ := List.map_eq_cons_iff.mp hks
      obtain ⟨x, ws, rfl, hx, hws⟩ := List.map_eq_cons_iff.mp hws
      rw [List.zip_cons_cons, List.foldl_cons, List.foldl_cons, ih hks hws, words_shaRound hk hx]

/-- A block is compressed as specified. -/
theorem words_compress (s : ShaWords) {p : Bytes} (hp : p.length = 64) :
    (compress s p).words = Sha2.compress s.words p := by
  have hwindow : (blockWords p).map UInt32.toBitVec =
      (List.range' 0 16).map (Sha2.schedule (Sha2.blockWord p)) := by
    rw [blockWords_eq (n := 16) hp, List.range_eq_range']
    refine List.map_congr_left fun t ht => (Sha2.schedule_of_lt _ ?_).symm
    have hlt := (List.mem_range'_1.mp ht).2
    omega
  have hwords := schedule_eq 64 hwindow
  rw [← List.range_eq_range'] at hwords
  rw [Sha2.compress, ← words_foldl_shaRound kK_eq hwords]
  rfl

/-! ### The object -/

namespace Sha256

/-- The object as a stream: what a block changes, and the buffer. -/
def stream (h : Sha256) : (ShaWords × UInt64) × Bytes := ((h.state, h.bitCount), h.buffer)

def takeBlock (s : ShaWords × UInt64) (p : Bytes) : ShaWords × UInt64 :=
  (compress s.1 p, s.2 + 512)

theorem stream_updateByte (h : Sha256) (b : UInt8) :
    (h.updateByte b).stream = push 64 takeBlock h.stream b := by
  unfold updateByte push
  by_cases hfull : (h.buffer ++ [b]).length = 64
  · simp only [if_pos hfull]
    exact (if_pos hfull).symm
  · simp only [if_neg hfull]
    exact (if_neg hfull).symm

theorem stream_update (h : Sha256) (data : Bytes) :
    (h.update data).stream = data.foldl (push 64 takeBlock) h.stream :=
  (List.foldl_hom stream fun h b => (stream_updateByte h b).symm).symm

theorem update_append (h : Sha256) (data more : Bytes) :
    h.update (data ++ more) = (h.update data).update more := List.foldl_append

theorem length_buffer_update {h : Sha256} (hroom : h.buffer.length < 64) (data : Bytes) :
    (h.update data).buffer.length = (h.buffer.length + data.length) % 64 := by
  have hstream : (h.update data).buffer = (h.update data).stream.2 := rfl
  rw [hstream, stream_update, length_foldl_push hroom]
  rfl

theorem update_fresh (m : Bytes) :
    ({} : Sha256).update m =
      { state := absorb 64 compress kH m
        bitCount := UInt64.ofNat (512 * (m.length / 64))
        buffer := rest 64 m } := by
  have hstream := (stream_update {} m).trans (foldl_push (by decide) (kH, 0) m)
  have hstate : (absorb 64 takeBlock (kH, 0) m).1 = absorb 64 compress kH m :=
    absorb_map (fun _ _ _ => rfl) (kH, 0) m
  have hcount : (absorb 64 takeBlock (kH, 0) m).2 =
      absorb 64 (fun n (_ : Bytes) => n + 512) 0 m := absorb_map (fun _ _ _ => rfl) (kH, 0) m
  have hbits : ∀ k, (fun n : UInt64 => n + 512)^[k] 0 = UInt64.ofNat (512 * k) := by
    intro k
    induction k with
    | zero => rfl
    | succ k ih => rw [Function.iterate_succ_apply', ih, Nat.mul_succ, UInt64.ofNat_add]; rfl
  rw [absorb_const, hbits] at hcount
  obtain ⟨hpair, hbuffer⟩ := Prod.mk.inj hstream
  rw [← hstate, ← hcount, ← hbuffer, ← hpair]

/-! ### Padding -/

/-- `while (buffer_len_ != 56) update(zero)`, a turn at a time. -/
def padTurn : Sha256 → Sha256 ⊕ Sha256 :=
  Runs.untilTurn (fun h => h.buffer.length = 56) fun h => h.update [0]

theorem iterate_zero (k : Nat) (h : Sha256) :
    (fun h : Sha256 => h.update [0])^[k] h = h.update (List.replicate k 0) := by
  induction k generalizing h with
  | zero => rfl
  | succ k ih =>
      rw [Function.iterate_succ_apply, ih, ← update_append]
      rfl

/-- The object with the one bit and all zeros of the padding taken. -/
def padded (h : Sha256) : Sha256 :=
  (h.update [0x80]).update (List.replicate (Sha2.zeros h.buffer.length) 0)

theorem length_buffer_zeros {h : Sha256} (hroom : h.buffer.length < 64) (k : Nat) :
    ((h.update [0x80]).update (List.replicate k 0)).buffer.length =
      (h.buffer.length + 1 + k) % 64 := by
  rw [← update_append, length_buffer_update hroom, List.length_append, List.length_replicate,
    Nat.add_assoc]
  rfl

section Loop

variable {h : Sha256} (hroom : h.buffer.length < 64)

include hroom

theorem not_padded {k : Nat} (hk : k < Sha2.zeros h.buffer.length) :
    ¬((fun h : Sha256 => h.update [0])^[k] (h.update [0x80])).buffer.length = 56 := by
  rw [iterate_zero, length_buffer_zeros hroom]
  exact Sha2.zeros_min hk

theorem length_padded :
    ((fun h : Sha256 => h.update [0])^[Sha2.zeros h.buffer.length]
      (h.update [0x80])).buffer.length = 56 := by
  rw [iterate_zero, length_buffer_zeros hroom]
  exact Sha2.zeros_spec _

/-- The loop exits, with the zeros of the padding taken. -/
theorem exits_padded : Runs.Exits padTurn (h.update [0x80]) h.padded := by
  rw [padded, ← iterate_zero]
  exact Runs.exits_until (fun k hk => not_padded hroom hk) (length_padded hroom)

omit hroom in
theorem padZeros_iterate {n fuel : Nat} {g : Sha256}
    (hbefore : ∀ k < n, ¬((fun h : Sha256 => h.update [0])^[k] g).buffer.length = 56)
    (hstop : ((fun h : Sha256 => h.update [0])^[n] g).buffer.length = 56) (hfuel : n < fuel) :
    padZeros fuel g = (fun h : Sha256 => h.update [0])^[n] g := by
  induction n generalizing fuel g with
  | zero =>
      obtain ⟨fuel, rfl⟩ := Nat.exists_eq_succ_of_ne_zero (Nat.ne_zero_of_lt hfuel)
      rw [padZeros]
      exact if_pos hstop
  | succ n ih =>
      obtain ⟨fuel, rfl⟩ := Nat.exists_eq_succ_of_ne_zero (Nat.ne_zero_of_lt hfuel)
      have hfirst : ¬g.buffer.length = 56 := hbefore 0 n.succ_pos
      rw [padZeros, if_neg hfirst, Function.iterate_succ_apply]
      exact ih (fun k hk => hbefore (k + 1) (Nat.succ_lt_succ hk)) hstop
        (Nat.lt_of_succ_lt_succ hfuel)

theorem padZeros_eq : padZeros 64 (h.update [0x80]) = h.padded := by
  rw [padded, ← iterate_zero]
  exact padZeros_iterate (fun k hk => not_padded hroom hk) (length_padded hroom)
    (Sha2.zeros_lt _)

end Loop

/-! ### Finishing -/

def bitLength (h : Sha256) : UInt64 := h.bitCount + UInt64.ofNat h.buffer.length * 8

/-- What `finish` does after its loop: the length is taken, the digest is read off the
state, and the object is reset. -/
def close (h : Sha256) (bitLen : UInt64) : Bytes × Sha256 :=
  let h := h.update ((List.range 8).map fun i => (bitLen >>> UInt64.ofNat (56 - 8 * i)).toUInt8)
  let s := h.state
  (wordBytes s.a ++ wordBytes s.b ++ wordBytes s.c ++ wordBytes s.d ++
    wordBytes s.e ++ wordBytes s.f ++ wordBytes s.g ++ wordBytes s.h, {})

/-- `finish` returns: its loop exits, and the rest goes on from there. -/
def Finishes (h : Sha256) (r : Bytes × Sha256) : Prop :=
  ∃ g, Runs.Exits padTurn (h.update [0x80]) g ∧ r = g.close h.bitLength

theorem finish_eq {h : Sha256} (hroom : h.buffer.length < 64) :
    h.finish = h.padded.close h.bitLength := by
  rw [← padZeros_eq hroom, close, finish, bitLength]

theorem finishes_iff {h : Sha256} (hroom : h.buffer.length < 64) {r : Bytes × Sha256} :
    h.Finishes r ↔ r = h.finish := by
  rw [finish_eq hroom]
  constructor
  · rintro ⟨g, hg, rfl⟩
    rw [hg.unique (exits_padded hroom)]
  · exact fun hr => ⟨h.padded, exits_padded hroom, hr⟩

theorem bytes_words (s : ShaWords) :
    wordBytes s.a ++ wordBytes s.b ++ wordBytes s.c ++ wordBytes s.d ++
      wordBytes s.e ++ wordBytes s.f ++ wordBytes s.g ++ wordBytes s.h = s.words.bytes := by
  simp only [wordBytes_eq]
  rfl

theorem length_buffer_fresh (m : Bytes) : (({} : Sha256).update m).buffer.length = m.length % 64 := by
  rw [update_fresh]
  exact length_rest m

theorem bitLength_fresh (m : Bytes) :
    (({} : Sha256).update m).bitLength = UInt64.ofNat (8 * m.length) := by
  have hlength : 512 * (m.length / 64) + m.length % 64 * 8 = 8 * m.length := by omega
  rw [update_fresh, bitLength, length_rest, ← hlength, UInt64.ofNat_add, UInt64.ofNat_mul _ 8]
  rfl

theorem close_fresh (m : Bytes) :
    (({} : Sha256).update m).padded.close (({} : Sha256).update m).bitLength =
      ((({} : Sha256).update (Sha2.pad m)).state.words.bytes, {}) := by
  have hlength : Sha2.bigEndian 8 (UInt64.ofNat (8 * m.length)).toNat =
      Sha2.bigEndian 8 (8 * m.length) := by
    rw [UInt64.toNat_ofNat']
    exact Sha2.bigEndian_mod 8 (8 * m.length)
  have htaken : (({} : Sha256).update m).padded.update (Sha2.bigEndian 8 (8 * m.length)) =
      ({} : Sha256).update (Sha2.pad m) := by
    rw [padded, length_buffer_fresh, Sha2.zeros_mod, Sha2.pad, update_append, update_append,
      update_append]
  rw [close, bitLength_fresh, lengthBytes_eq, hlength, htaken, ← bytes_words]

/-- A fresh object that has taken a message finishes with its digest, fresh again. -/
theorem finish_fresh (m : Bytes) :
    (({} : Sha256).update m).finish = (Sha2.sha256 m, {}) := by
  have hroom : (({} : Sha256).update m).buffer.length < 64 := by
    rw [length_buffer_fresh]
    exact Nat.mod_lt _ (by decide)
  have hwords : (absorb 64 compress kH (Sha2.pad m)).words =
      absorb 64 Sha2.compress Sha2.State.initial (Sha2.pad m) := by
    rw [← words_kH]
    exact absorb_map (fun s _ hp => words_compress s hp) kH (Sha2.pad m)
  rw [finish_eq hroom, close_fresh, update_fresh, hwords, Sha2.sha256]

/-! ### Programs -/

inductive Call
  | update (data : Bytes)
  | digest
  | finish
  deriving DecidableEq

/-- The digests that a program gets from its calls, if all of them return. `digest`
finishes a copy of the object. -/
inductive Answers : Sha256 → List Call → List Bytes → Prop
  | done (h : Sha256) : Answers h [] []
  | update {h : Sha256} {data : Bytes} {calls : List Call} {out : List Bytes}
      (hrest : Answers (h.update data) calls out) : Answers h (.update data :: calls) out
  | digest {h g : Sha256} {d : Bytes} {calls : List Call} {out : List Bytes}
      (hfinish : h.Finishes (d, g)) (hrest : Answers h calls out) :
      Answers h (.digest :: calls) (d :: out)
  | finish {h g : Sha256} {d : Bytes} {calls : List Call} {out : List Bytes}
      (hfinish : h.Finishes (d, g)) (hrest : Answers g calls out) :
      Answers h (.finish :: calls) (d :: out)

/-- The digests of what was taken since the last finish. -/
def digests : Bytes → List Call → List Bytes
  | _, [] => []
  | m, .update data :: calls => digests (m ++ data) calls
  | m, .digest :: calls => Sha2.sha256 m :: digests m calls
  | m, .finish :: calls => Sha2.sha256 m :: digests [] calls

theorem finishes_fresh_iff (m d : Bytes) (g : Sha256) :
    (({} : Sha256).update m).Finishes (d, g) ↔ d = Sha2.sha256 m ∧ g = {} := by
  have hroom : (({} : Sha256).update m).buffer.length < 64 := by
    rw [length_buffer_fresh]
    exact Nat.mod_lt _ (by decide)
  rw [finishes_iff hroom, finish_fresh, Prod.mk.injEq]

theorem answers_fresh_iff (m : Bytes) (calls : List Call) (out : List Bytes) :
    Answers (({} : Sha256).update m) calls out ↔ out = digests m calls := by
  induction calls generalizing m out with
  | nil =>
      constructor
      · rintro ⟨⟩
        rfl
      · rintro rfl
        exact .done _
  | cons call calls ih =>
      cases call with
      | update data =>
          rw [digests, ← ih, update_append]
          exact ⟨fun h => by cases h; assumption, .update⟩
      | digest =>
          constructor
          · intro h
            cases h with
            | digest hfinish hrest =>
                rw [((finishes_fresh_iff m _ _).mp hfinish).1, (ih m _).mp hrest, digests]
          · rintro rfl
            exact .digest ((finishes_fresh_iff m _ _).mpr ⟨rfl, rfl⟩) ((ih m _).mpr rfl)
      | finish =>
          constructor
          · intro h
            cases h with
            | finish hfinish hrest =>
                obtain ⟨rfl, rfl⟩ := (finishes_fresh_iff m _ _).mp hfinish
                rw [(ih [] _).mp hrest, digests]
          · rintro rfl
            exact .finish ((finishes_fresh_iff m _ _).mpr ⟨rfl, rfl⟩) ((ih [] _).mpr rfl)

/-- However a message is split, one digest comes of it. -/
theorem digests_pieces (m : Bytes) (pieces : List Bytes) :
    digests m (pieces.map .update ++ [.finish]) = [Sha2.sha256 (m ++ pieces.flatten)] := by
  induction pieces generalizing m with
  | nil => rw [List.flatten_nil, List.append_nil]; rfl
  | cons piece pieces ih =>
      rw [List.map_cons, List.cons_append, digests, ih, List.flatten_cons, List.append_assoc]

/-- Every program on a fresh object gets its digests: each of its calls returns, however
the message arrives and whether or not digests are asked for in between, and after a
finish the object starts anew. -/
theorem answers_iff_digests (calls : List Call) (out : List Bytes) :
    Answers {} calls out ↔ out = digests [] calls :=
  answers_fresh_iff [] calls out

end Sha256

theorem sha256_eq (data : Bytes) : sha256 data = Sha2.sha256 data :=
  congrArg Prod.fst (Sha256.finish_fresh data)

/-- The identity of a content is its specified digest. -/
theorem ContentDigest.bytes_of (data : Bytes) : (ContentDigest.of data).bytes = Sha2.sha256 data :=
  sha256_eq data

end StorageFabric
