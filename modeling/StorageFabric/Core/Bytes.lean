import StorageFabric.Core.Base
import StorageFabric.Lib.Codec
import StorageFabric.Lib.LittleEndian

/-!
The bounded byte writer and reader: fixed-width little-endian words and byte
blobs with their length in front.
-/

namespace StorageFabric

/-! ### Writing -/

namespace ByteWriter

def putU8 (v : UInt8) : Bytes := [v]

def putU16 (v : UInt16) : Bytes := LittleEndian.encode 2 v.toNat

def putU32 (v : UInt32) : Bytes := LittleEndian.encode 4 v.toNat

def putU64 (v : UInt64) : Bytes := LittleEndian.encode 8 v.toNat

/-- The length is cast to 32 bits. -/
def putBlob (b : Bytes) : Bytes := putU32 (UInt32.ofNat b.length) ++ b

@[simp] theorem length_putU8 (v : UInt8) : (putU8 v).length = 1 := rfl

@[simp] theorem length_putU16 (v : UInt16) : (putU16 v).length = 2 :=
  LittleEndian.length_encode 2 _

@[simp] theorem length_putU32 (v : UInt32) : (putU32 v).length = 4 :=
  LittleEndian.length_encode 4 _

@[simp] theorem length_putU64 (v : UInt64) : (putU64 v).length = 8 :=
  LittleEndian.length_encode 8 _

end ByteWriter

/-! ### Reading -/

abbrev ByteReader (α : Type) := Codec.Reader UInt8 α

namespace ByteReader

open ByteWriter Codec

def readU8 : ByteReader UInt8 := fun s =>
  match s with
  | [] => none
  | b :: rest => some (b, rest)

def readWord (w : Nat) : ByteReader Nat := LittleEndian.decode <$> take w

def readU16 : ByteReader UInt16 := UInt16.ofNat <$> readWord 2

def readU32 : ByteReader UInt32 := UInt32.ofNat <$> readWord 4

def readU64 : ByteReader UInt64 := UInt64.ofNat <$> readWord 8

def readBytes (n : Nat) : ByteReader Bytes := take n

def readBlob : ByteReader Bytes := do
  let len ← readU32
  readBytes len.toNat

variable {s t : Bytes}

theorem readU8_eq_some {v : UInt8} : readU8.run s = some (v, t) ↔ s = putU8 v ++ t := by
  cases s with
  | nil =>
      constructor
      · exact fun h => nomatch h
      · exact fun h => nomatch h
  | cons b rest =>
      show some (b, rest) = some (v, t) ↔ b :: rest = v :: t
      simp

theorem readWord_eq_some {w n : Nat} :
    (readWord w).run s = some (n, t) ↔ n < 256 ^ w ∧ s = LittleEndian.encode w n ++ t := by
  rw [readWord, run_map_eq_some]
  constructor
  · rintro ⟨bs, htake, rfl⟩
    obtain ⟨rfl, rfl⟩ := run_take_eq_some.mp htake
    exact ⟨LittleEndian.decode_lt bs, by rw [LittleEndian.encode_decode]⟩
  · rintro ⟨hlt, rfl⟩
    exact ⟨_, run_take_eq_some.mpr ⟨LittleEndian.length_encode w n, rfl⟩,
      LittleEndian.decode_encode_of_lt hlt⟩

theorem readU16_eq_some {v : UInt16} : readU16.run s = some (v, t) ↔ s = putU16 v ++ t := by
  rw [readU16, run_map_eq_some]
  constructor
  · rintro ⟨n, hread, rfl⟩
    obtain ⟨hlt, rfl⟩ := readWord_eq_some.mp hread
    rw [putU16, UInt16.toNat_ofNat', Nat.mod_eq_of_lt (show n < 2 ^ 16 from hlt)]
  · rintro rfl
    exact ⟨v.toNat, readWord_eq_some.mpr ⟨v.toNat_lt, rfl⟩, UInt16.ofNat_toNat⟩

theorem readU32_eq_some {v : UInt32} : readU32.run s = some (v, t) ↔ s = putU32 v ++ t := by
  rw [readU32, run_map_eq_some]
  constructor
  · rintro ⟨n, hread, rfl⟩
    obtain ⟨hlt, rfl⟩ := readWord_eq_some.mp hread
    rw [putU32, UInt32.toNat_ofNat', Nat.mod_eq_of_lt (show n < 2 ^ 32 from hlt)]
  · rintro rfl
    exact ⟨v.toNat, readWord_eq_some.mpr ⟨v.toNat_lt, rfl⟩, UInt32.ofNat_toNat⟩

theorem readU64_eq_some {v : UInt64} : readU64.run s = some (v, t) ↔ s = putU64 v ++ t := by
  rw [readU64, run_map_eq_some]
  constructor
  · rintro ⟨n, hread, rfl⟩
    obtain ⟨hlt, rfl⟩ := readWord_eq_some.mp hread
    rw [putU64, UInt64.toNat_ofNat', Nat.mod_eq_of_lt (show n < 2 ^ 64 from hlt)]
  · rintro rfl
    exact ⟨v.toNat, readWord_eq_some.mpr ⟨v.toNat_lt, rfl⟩, UInt64.ofNat_toNat⟩

theorem readBytes_eq_some {n : Nat} {u : Bytes} :
    (readBytes n).run s = some (u, t) ↔ u.length = n ∧ s = u ++ t :=
  run_take_eq_some

theorem readBlob_eq_some {u : Bytes} :
    readBlob.run s = some (u, t) ↔ u.length < 2 ^ 32 ∧ s = putBlob u ++ t := by
  rw [readBlob, run_bind_eq_some]
  constructor
  · rintro ⟨len, v, hlen, hbytes⟩
    obtain rfl := readU32_eq_some.mp hlen
    obtain ⟨hu, rfl⟩ := readBytes_eq_some.mp hbytes
    refine ⟨hu ▸ len.toNat_lt, ?_⟩
    rw [putBlob, hu, UInt32.ofNat_toNat, List.append_assoc]
  · rintro ⟨hlt, rfl⟩
    refine ⟨_, _, readU32_eq_some.mpr (List.append_assoc _ _ _), readBytes_eq_some.mpr ⟨?_, rfl⟩⟩
    rw [UInt32.toNat_ofNat', Nat.mod_eq_of_lt hlt]

end ByteReader

end StorageFabric
