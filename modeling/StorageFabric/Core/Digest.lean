import Mathlib.Logic.Function.Iterate
import StorageFabric.Core.Base

/-!
Content integrity: the table driven CRC-32 and the streaming SHA-256, and the
32-byte content digest.

Words are 32-bit machine words throughout. The message schedule is produced
from a window of the last sixteen words, which is the recurrence of the source
read forwards; the table entry of the CRC is computed where it is looked up.
-/

namespace StorageFabric

/-! ### CRC-32 (IEEE 802.3), reflected -/

/-- One of the eight steps that build a table entry. -/
def crcTableStep (c : UInt32) : UInt32 :=
  if c &&& 1 ≠ 0 then (0xEDB88320 : UInt32) ^^^ (c >>> 1) else c >>> 1

/-- `Crc32Table::t[i]`. -/
def crcTable (i : UInt32) : UInt32 := crcTableStep^[8] i

def crc32Update (c : UInt32) (b : UInt8) : UInt32 :=
  crcTable ((c ^^^ b.toUInt32) &&& 0xFF) ^^^ (c >>> 8)

def crc32 (data : Bytes) : UInt32 := data.foldl crc32Update 0xFFFFFFFF ^^^ 0xFFFFFFFF

/-- The loop of `gf2_matrix_times` over the columns that are left; a matrix has 32
of them, as many as `vec` has bits. -/
def gf2MatrixTimesFrom (sum : UInt32) : List UInt32 → UInt32 → UInt32
  | [], _ => sum
  | column :: mat, vec =>
      if vec = 0 then sum
      else gf2MatrixTimesFrom (if vec &&& 1 ≠ 0 then sum ^^^ column else sum) mat (vec >>> 1)

def gf2MatrixTimes (mat : List UInt32) (vec : UInt32) : UInt32 := gf2MatrixTimesFrom 0 mat vec

def gf2MatrixSquare (mat : List UInt32) : List UInt32 := mat.map (gf2MatrixTimes mat)

/-- The matrix of one zero bit, which `odd` holds at first. -/
def crcOddMatrix : List UInt32 :=
  0xEDB88320 :: (List.range 31).map fun n => (1 : UInt32) <<< UInt32.ofNat n

/-- The loop of `crc32_combine`. A turn takes two bits off the length, so 32 turns
are enough. -/
def crc32CombineLoop : Nat → List UInt32 → UInt32 → UInt64 → UInt32
  | 0, _, crc1, _ => crc1
  | turns + 1, odd, crc1, len =>
      let even := gf2MatrixSquare odd
      let crc1 := if len &&& 1 ≠ 0 then gf2MatrixTimes even crc1 else crc1
      let len := len >>> 1
      if len = 0 then crc1
      else
        let odd := gf2MatrixSquare even
        let crc1 := if len &&& 1 ≠ 0 then gf2MatrixTimes odd crc1 else crc1
        let len := len >>> 1
        if len = 0 then crc1 else crc32CombineLoop turns odd crc1 len

def crc32Combine (crc1 crc2 : UInt32) (len2 : UInt64) : UInt32 :=
  if len2 = 0 then crc1
  else
    let even := gf2MatrixSquare crcOddMatrix
    crc32CombineLoop 32 (gf2MatrixSquare even) crc1 len2 ^^^ crc2

/-! ### SHA-256 -/

def kK : List UInt32 := [
  0x428a2f98, 0x71374491, 0xb5c0fbcf, 0xe9b5dba5, 0x3956c25b, 0x59f111f1, 0x923f82a4, 0xab1c5ed5,
  0xd807aa98, 0x12835b01, 0x243185be, 0x550c7dc3, 0x72be5d74, 0x80deb1fe, 0x9bdc06a7, 0xc19bf174,
  0xe49b69c1, 0xefbe4786, 0x0fc19dc6, 0x240ca1cc, 0x2de92c6f, 0x4a7484aa, 0x5cb0a9dc, 0x76f988da,
  0x983e5152, 0xa831c66d, 0xb00327c8, 0xbf597fc7, 0xc6e00bf3, 0xd5a79147, 0x06ca6351, 0x14292967,
  0x27b70a85, 0x2e1b2138, 0x4d2c6dfc, 0x53380d13, 0x650a7354, 0x766a0abb, 0x81c2c92e, 0x92722c85,
  0xa2bfe8a1, 0xa81a664b, 0xc24b8b70, 0xc76c51a3, 0xd192e819, 0xd6990624, 0xf40e3585, 0x106aa070,
  0x19a4c116, 0x1e376c08, 0x2748774c, 0x34b0bcb5, 0x391c0cb3, 0x4ed8aa4a, 0x5b9cca4f, 0x682e6ff3,
  0x748f82ee, 0x78a5636f, 0x84c87814, 0x8cc70208, 0x90befffa, 0xa4506ceb, 0xbef9a3f7, 0xc67178f2]

structure ShaWords where
  a : UInt32
  b : UInt32
  c : UInt32
  d : UInt32
  e : UInt32
  f : UInt32
  g : UInt32
  h : UInt32
  deriving DecidableEq

def kH : ShaWords where
  a := 0x6a09e667
  b := 0xbb67ae85
  c := 0x3c6ef372
  d := 0xa54ff53a
  e := 0x510e527f
  f := 0x9b05688c
  g := 0x1f83d9ab
  h := 0x5be0cd19

def rotr (x n : UInt32) : UInt32 := (x >>> n) ||| (x <<< (32 - n))

def blockWords : Bytes → List UInt32
  | p₀ :: p₁ :: p₂ :: p₃ :: rest =>
      ((p₀.toUInt32 <<< 24) ||| (p₁.toUInt32 <<< 16) ||| (p₂.toUInt32 <<< 8) ||| p₃.toUInt32) ::
        blockWords rest
  | _ => []

/-- `w[i]` from `w[i - 16]` up to `w[i - 1]`, given in this order. -/
def scheduleWord (window : List UInt32) : UInt32 :=
  let w15 := window.getD 1 0
  let w2 := window.getD 14 0
  let s0 := rotr w15 7 ^^^ rotr w15 18 ^^^ (w15 >>> 3)
  let s1 := rotr w2 17 ^^^ rotr w2 19 ^^^ (w2 >>> 10)
  window.getD 0 0 + s0 + window.getD 9 0 + s1

/-- The first `n` words of the schedule that starts with `window`. -/
def schedule : Nat → List UInt32 → List UInt32
  | 0, _ => []
  | n + 1, window =>
      window.getD 0 0 :: schedule n (window.tail ++ [scheduleWord window])

/-- One of the sixty-four rounds, on a round constant and a schedule word. -/
def shaRound (s : ShaWords) (kw : UInt32 × UInt32) : ShaWords :=
  let s1 := rotr s.e 6 ^^^ rotr s.e 11 ^^^ rotr s.e 25
  let ch := (s.e &&& s.f) ^^^ (~~~s.e &&& s.g)
  let t1 := s.h + s1 + ch + kw.1 + kw.2
  let s0 := rotr s.a 2 ^^^ rotr s.a 13 ^^^ rotr s.a 22
  let maj := (s.a &&& s.b) ^^^ (s.a &&& s.c) ^^^ (s.b &&& s.c)
  let t2 := s0 + maj
  { a := t1 + t2, b := s.a, c := s.b, d := s.c, e := s.d + t1, f := s.e, g := s.f, h := s.g }

def compress (state : ShaWords) (p : Bytes) : ShaWords :=
  let r := (kK.zip (schedule 64 (blockWords p))).foldl shaRound state
  { a := state.a + r.a, b := state.b + r.b, c := state.c + r.c, d := state.d + r.d,
    e := state.e + r.e, f := state.f + r.f, g := state.g + r.g, h := state.h + r.h }

/-- The streaming object. `buffer` holds the bytes of the unfinished block. -/
structure Sha256 where
  state : ShaWords := kH
  bitCount : UInt64 := 0
  buffer : Bytes := []
  deriving DecidableEq

namespace Sha256

def processBlock (h : Sha256) (p : Bytes) : Sha256 :=
  { h with state := compress h.state p, bitCount := h.bitCount + 512 }

def updateByte (h : Sha256) (b : UInt8) : Sha256 :=
  let buffer := h.buffer ++ [b]
  if buffer.length = 64 then { h.processBlock buffer with buffer := [] }
  else { h with buffer := buffer }

def update (h : Sha256) (data : Bytes) : Sha256 := data.foldl updateByte h

/-- `while (buffer_len_ != 56) update(zero)`, for at most `fuel` turns. -/
def padZeros : Nat → Sha256 → Sha256
  | 0, h => h
  | fuel + 1, h => if h.buffer.length = 56 then h else padZeros fuel (h.update [0])

def wordBytes (w : UInt32) : Bytes :=
  [(w >>> 24).toUInt8, (w >>> 16).toUInt8, (w >>> 8).toUInt8, w.toUInt8]

def finish (h : Sha256) : Bytes × Sha256 :=
  let bitLen := h.bitCount + UInt64.ofNat h.buffer.length * 8
  let h := padZeros 64 (h.update [0x80])
  let h := h.update ((List.range 8).map fun i => (bitLen >>> UInt64.ofNat (56 - 8 * i)).toUInt8)
  let s := h.state
  (wordBytes s.a ++ wordBytes s.b ++ wordBytes s.c ++ wordBytes s.d ++
    wordBytes s.e ++ wordBytes s.f ++ wordBytes s.g ++ wordBytes s.h, {})

theorem finish_length (h : Sha256) : h.finish.1.length = 32 := rfl

end Sha256

def sha256 (data : Bytes) : Bytes := (({} : Sha256).update data).finish.1

theorem sha256_length (data : Bytes) : (sha256 data).length = 32 := Sha256.finish_length _

structure ContentDigest where
  bytes : Bytes
  size : bytes.length = 32
  deriving DecidableEq

namespace ContentDigest

def zero : ContentDigest := ⟨List.replicate 32 0, rfl⟩

instance : Inhabited ContentDigest := ⟨zero⟩

def isZero (d : ContentDigest) : Bool := d.bytes.all (· = 0)

def of (data : Bytes) : ContentDigest := ⟨sha256 data, sha256_length data⟩

end ContentDigest

example : (sha256 (ascii "abc")).take 4 = [0xba, 0x78, 0x16, 0xbf] := by decide +kernel

end StorageFabric
