import Mathlib.Data.Nat.Find
import Mathlib.Data.Nat.NthRoot.Defs
import Mathlib.Data.Nat.Prime.Defs
import StorageFabric.Lib.BlockStream
import StorageFabric.Lib.LittleEndian

/-!
SHA-256 as it is specified, for messages of whole bytes.

A message is padded to blocks of sixty-four bytes. A block gives sixteen words, from
which a schedule of sixty-four is made, and a round for each of them is applied to the
chaining state. The constants are not listed: they are leading bits of the fractional
parts of roots of the first primes.
-/

namespace Sha2

abbrev Word := BitVec 32

def bigEndian (width n : Nat) : List UInt8 := (LittleEndian.encode width n).reverse

def wordOf (bs : List UInt8) : Word := BitVec.ofNat 32 (LittleEndian.decode bs.reverse)

/-! ### Constants -/

def primes : List Nat := (List.range 312).filter fun p => p.Prime

/-- A number below `18 ^ 2` is prime if nothing below eighteen divides it. -/
theorem prime_iff {p : Nat} (hp : p < 18 * 18) :
    p.Prime ↔ 2 ≤ p ∧ ∀ m < 18, 2 ≤ m → m * m ≤ p → ¬m ∣ p := by
  rw [Nat.prime_def_le_sqrt]
  refine and_congr_right fun _ => ⟨fun h m _ hm hle => h m hm (Nat.le_sqrt.mpr hle),
    fun h m hm hle => ?_⟩
  have hsquare : m * m ≤ p := Nat.le_sqrt.mp hle
  have hlt : m < 18 := Nat.mul_self_lt_mul_self_iff.mp (Nat.lt_of_le_of_lt hsquare hp)
  exact h m hlt hm hsquare

theorem primes_eq : primes = [
    2, 3, 5, 7, 11, 13, 17, 19, 23, 29, 31, 37, 41, 43, 47, 53, 59, 61, 67, 71, 73, 79, 83, 89,
    97, 101, 103, 107, 109, 113, 127, 131, 137, 139, 149, 151, 157, 163, 167, 173, 179, 181, 191,
    193, 197, 199, 211, 223, 227, 229, 233, 239, 241, 251, 257, 263, 269, 271, 277, 281, 283, 293,
    307, 311] := by
  have hsieve : primes = (List.range 312).filter fun p =>
      2 ≤ p ∧ ∀ m < 18, 2 ≤ m → m * m ≤ p → ¬m ∣ p := by
    refine List.filter_congr fun p hp => decide_eq_decide.mpr (prime_iff ?_)
    exact Nat.lt_of_lt_of_le (List.mem_range.mp hp) (by decide)
  rw [hsieve]
  decide +kernel

/-- The first 32 bits of the fractional part of the `k`-th root of a number. -/
def rootBits (k n : Nat) : Word := BitVec.ofNat 32 (Nat.nthRoot k (n * 2 ^ (32 * k)))

def roundConstant (t : Nat) : Word := rootBits 3 (primes.getD t 0)

/-! ### Functions of words -/

def ch (x y z : Word) : Word := (x &&& y) ^^^ (~~~x &&& z)

def maj (x y z : Word) : Word := (x &&& y) ^^^ (x &&& z) ^^^ (y &&& z)

def bigSigma0 (x : Word) : Word := x.rotateRight 2 ^^^ x.rotateRight 13 ^^^ x.rotateRight 22

def bigSigma1 (x : Word) : Word := x.rotateRight 6 ^^^ x.rotateRight 11 ^^^ x.rotateRight 25

def smallSigma0 (x : Word) : Word := x.rotateRight 7 ^^^ x.rotateRight 18 ^^^ x >>> 3

def smallSigma1 (x : Word) : Word := x.rotateRight 17 ^^^ x.rotateRight 19 ^^^ x >>> 10

/-! ### Compression -/

structure State where
  a : Word
  b : Word
  c : Word
  d : Word
  e : Word
  f : Word
  g : Word
  h : Word
  deriving DecidableEq

namespace State

def initial : State where
  a := rootBits 2 (primes.getD 0 0)
  b := rootBits 2 (primes.getD 1 0)
  c := rootBits 2 (primes.getD 2 0)
  d := rootBits 2 (primes.getD 3 0)
  e := rootBits 2 (primes.getD 4 0)
  f := rootBits 2 (primes.getD 5 0)
  g := rootBits 2 (primes.getD 6 0)
  h := rootBits 2 (primes.getD 7 0)

def add (s v : State) : State where
  a := s.a + v.a
  b := s.b + v.b
  c := s.c + v.c
  d := s.d + v.d
  e := s.e + v.e
  f := s.f + v.f
  g := s.g + v.g
  h := s.h + v.h

def bytes (s : State) : List UInt8 :=
  [s.a, s.b, s.c, s.d, s.e, s.f, s.g, s.h].flatMap fun w => bigEndian 4 w.toNat

end State

def schedule (words : Nat → Word) (t : Nat) : Word :=
  if t < 16 then words t
  else smallSigma1 (schedule words (t - 2)) + schedule words (t - 7) +
    smallSigma0 (schedule words (t - 15)) + schedule words (t - 16)
termination_by t

def round (w : Nat → Word) (v : State) (t : Nat) : State :=
  let t1 := v.h + bigSigma1 v.e + ch v.e v.f v.g + roundConstant t + w t
  let t2 := bigSigma0 v.a + maj v.a v.b v.c
  { a := t1 + t2, b := v.a, c := v.b, d := v.c, e := v.d + t1, f := v.e, g := v.f, h := v.g }

def blockWord (block : List UInt8) (t : Nat) : Word := wordOf (BlockStream.block 4 block t)

def compress (s : State) (block : List UInt8) : State :=
  s.add ((List.range 64).foldl (round (schedule (blockWord block))) s)

/-! ### Padding -/

theorem exists_zeros (length : Nat) : ∃ k, (length + 1 + k) % 64 = 56 :=
  ⟨119 - length % 64, by omega⟩

def zeros (length : Nat) : Nat := Nat.find (exists_zeros length)

/-- The message with a one bit, zeros and its length in bits after it. -/
def pad (m : List UInt8) : List UInt8 :=
  m ++ [0x80] ++ List.replicate (zeros m.length) 0 ++ bigEndian 8 (8 * m.length)

def sha256 (m : List UInt8) : List UInt8 :=
  (BlockStream.absorb 64 compress State.initial (pad m)).bytes

theorem zeros_spec (length : Nat) : (length + 1 + zeros length) % 64 = 56 :=
  Nat.find_spec (exists_zeros length)

theorem zeros_min {length k : Nat} (hk : k < zeros length) : (length + 1 + k) % 64 ≠ 56 :=
  Nat.find_min (exists_zeros length) hk

theorem zeros_lt (length : Nat) : zeros length < 64 := by
  have hle : zeros length ≤ (119 - length % 64) % 64 :=
    Nat.find_min' (exists_zeros length) (by omega)
  omega

theorem zeros_mod (length : Nat) : zeros (length % 64) = zeros length := by
  have hspec := zeros_spec length
  have hspec' := zeros_spec (length % 64)
  have hlt := zeros_lt length
  have hlt' := zeros_lt (length % 64)
  omega

@[simp] theorem length_bigEndian (width n : Nat) : (bigEndian width n).length = width := by
  rw [bigEndian, List.length_reverse, LittleEndian.length_encode]

theorem bigEndian_eq (width n : Nat) :
    bigEndian width n =
      (List.range width).map fun i => UInt8.ofNat (n / 2 ^ (8 * (width - 1 - i))) := by
  rw [bigEndian, LittleEndian.encode_eq_map, ← List.map_reverse, List.range_eq_range',
    List.reverse_range', ← List.range_eq_range', List.map_map]
  refine List.map_congr_left fun i _ => ?_
  rw [Function.comp_apply, Nat.zero_add, Nat.pow_mul]

theorem bigEndian_mod (width n : Nat) : bigEndian width (n % 256 ^ width) = bigEndian width n := by
  rw [bigEndian, LittleEndian.encode_mod, bigEndian]

theorem schedule_of_lt (words : Nat → Word) {t : Nat} (ht : t < 16) :
    schedule words t = words t := by
  rw [schedule, if_pos ht]

theorem schedule_add (words : Nat → Word) (t : Nat) :
    schedule words (t + 16) = smallSigma1 (schedule words (t + 14)) + schedule words (t + 9) +
      smallSigma0 (schedule words (t + 1)) + schedule words t := by
  rw [schedule, if_neg (by omega)]
  rfl

end Sha2
