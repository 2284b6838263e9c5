import StorageFabric.Core.Digest
import StorageFabric.Lib.BitSerialCrc
import StorageFabric.Lib.LittleEndian

/-!
The CRC as a register.

A step of a table entry is linear over xor and loses nothing. The table driven update
applies eight of them to the state xored with the byte. `crc32_combine` keeps the
columns of powers of the step, and squares them along the bits of the length.
-/

namespace StorageFabric

open XorRegister

/-! ### Words -/

theorem ofNat_split (n k : Nat) :
    UInt32.ofNat n = UInt32.ofNat (n % 2 ^ k) ^^^ UInt32.ofNat (2 ^ k * (n / 2 ^ k)) := by
  rw [← UInt32.ofNat_xor, BitSerialCrc.low_xor_high]

theorem toNat_and_one (a : UInt32) : (a &&& 1).toNat = a.toNat % 2 := by
  rw [UInt32.toNat_and]
  exact Nat.and_one_is_mod a.toNat

theorem and_one_cases (a : UInt32) : a &&& 1 = 0 ∨ a &&& 1 = 1 := by
  obtain h | h := Nat.mod_two_eq_zero_or_one a.toNat
  · exact .inl (UInt32.toNat_inj.mp ((toNat_and_one a).trans h))
  · exact .inr (UInt32.toNat_inj.mp ((toNat_and_one a).trans h))

theorem toNat_shiftRight_one (a : UInt32) : (a >>> 1).toNat = a.toNat / 2 := by
  rw [UInt32.toNat_shiftRight]
  exact Nat.shiftRight_eq_div_pow a.toNat 1

/-! ### The step -/

theorem toBitVec_crcTableStep (c : UInt32) :
    (crcTableStep c).toBitVec = BitSerialCrc.shift 0xEDB88320#32 c.toBitVec := by
  have hlow : c.toBitVec.getLsbD 0 = decide ((c &&& 1).toNat = 1) := by
    rw [toNat_and_one]
    exact Nat.testBit_zero c.toNat
  rw [crcTableStep, BitSerialCrc.shift, BitSerialCrc.step, hlow]
  obtain h | h := and_one_cases c
  · rw [h, if_neg (not_not.mpr rfl)]
    rfl
  · rw [h, if_pos (by decide)]
    exact BitVec.xor_comm _ _

theorem crcTableStep_xor : Linear crcTableStep := by
  intro a b
  apply UInt32.toBitVec_inj.mp
  rw [UInt32.toBitVec_xor, toBitVec_crcTableStep, toBitVec_crcTableStep, toBitVec_crcTableStep,
    UInt32.toBitVec_xor, BitSerialCrc.shift_xor]

/-- Only zero is taken to zero: the top bit of a step is the low bit that it took off. -/
theorem crcTableStep_eq_zero {a : UInt32} (h : crcTableStep a = 0) : a = 0 := by
  have hhalf := toNat_shiftRight_one a
  have hsmall := a.toNat_lt
  rw [crcTableStep] at h
  obtain hbit | hbit := and_one_cases a
  · have hlow := toNat_and_one a
    rw [if_neg (not_not.mpr hbit)] at h
    rw [hbit] at hlow
    rw [h] at hhalf
    apply UInt32.toNat_inj.mp
    simp at hlow hhalf ⊢
    omega
  · rw [if_pos (by rw [hbit]; decide), UInt32.xor_eq_zero_iff] at h
    rw [← h] at hhalf
    simp at hhalf
    omega

theorem crcTableStep_injective : Function.Injective crcTableStep := by
  intro a b hab
  apply UInt32.xor_eq_zero_iff.mp
  apply crcTableStep_eq_zero
  rw [crcTableStep_xor, hab, UInt32.xor_self]

theorem crcTableStep_double {n : Nat} (hn : 2 * n < 2 ^ 32) :
    crcTableStep (UInt32.ofNat (2 * n)) = UInt32.ofNat n := by
  have hvalue : (UInt32.ofNat (2 * n)).toNat = 2 * n := by
    rw [UInt32.toNat_ofNat', Nat.mod_eq_of_lt hn]
  have heven : UInt32.ofNat (2 * n) &&& 1 = 0 := by
    apply UInt32.toNat_inj.mp
    rw [toNat_and_one, hvalue, Nat.mul_mod_right]
    rfl
  rw [crcTableStep, if_neg (not_not.mpr heven)]
  apply UInt32.toNat_inj.mp
  rw [toNat_shiftRight_one, hvalue, UInt32.toNat_ofNat', Nat.mod_eq_of_lt (by omega)]
  omega

theorem iterate_crcTableStep_shift (k : Nat) {n : Nat} (hn : 2 ^ k * n < 2 ^ 32) :
    crcTableStep^[k] (UInt32.ofNat (2 ^ k * n)) = UInt32.ofNat n := by
  induction k with
  | zero => rw [Function.iterate_zero_apply, Nat.pow_zero, Nat.one_mul]
  | succ k ih =>
      have hpow : 2 ^ (k + 1) * n = 2 * (2 ^ k * n) := by
        rw [Nat.pow_succ']
        ring
      rw [hpow] at hn ⊢
      rw [Function.iterate_succ_apply, crcTableStep_double hn]
      exact ih (by omega)

/-! ### The update -/

/-- The map that the register applies for a byte. -/
def crcByteStep : UInt32 → UInt32 := crcTableStep^[8]

theorem crcByteStep_xor : Linear crcByteStep := crcTableStep_xor.iterate 8

theorem crcByteStep_injective : Function.Injective crcByteStep := crcTableStep_injective.iterate 8

theorem crcByteStep_shift {n : Nat} (hn : 256 * n < 2 ^ 32) :
    crcByteStep (UInt32.ofNat (256 * n)) = UInt32.ofNat n := iterate_crcTableStep_shift 8 hn

/-- The low byte of a word is looked up, the others move down. -/
theorem crcTable_low (x : UInt32) : crcTable (x &&& 0xFF) ^^^ (x >>> 8) = crcByteStep x := by
  have hx := x.toNat_lt
  have hlow : x &&& 0xFF = UInt32.ofNat (x.toNat % 256) := by
    apply UInt32.toNat_inj.mp
    rw [UInt32.toNat_and, UInt32.toNat_ofNat', Nat.mod_eq_of_lt (by omega)]
    exact Nat.and_two_pow_sub_one_eq_mod x.toNat 8
  have hhigh : x >>> 8 = UInt32.ofNat (x.toNat / 256) := by
    apply UInt32.toNat_inj.mp
    rw [UInt32.toNat_shiftRight, UInt32.toNat_ofNat',
      Nat.mod_eq_of_lt (Nat.lt_of_le_of_lt (Nat.div_le_self _ _) hx)]
    exact Nat.shiftRight_eq_div_pow x.toNat 8
  have hsplit : x = UInt32.ofNat (x.toNat % 256) ^^^ UInt32.ofNat (256 * (x.toNat / 256)) := by
    have h := ofNat_split x.toNat 8
    rwa [UInt32.ofNat_toNat] at h
  calc crcTable (x &&& 0xFF) ^^^ (x >>> 8)
      = crcByteStep (UInt32.ofNat (x.toNat % 256)) ^^^ UInt32.ofNat (x.toNat / 256) := by
        rw [hlow, hhigh]
        rfl
    _ = crcByteStep (UInt32.ofNat (x.toNat % 256)) ^^^
          crcByteStep (UInt32.ofNat (256 * (x.toNat / 256))) := by
        rw [crcByteStep_shift (by omega)]
    _ = crcByteStep x := by rw [← crcByteStep_xor, ← hsplit]

theorem crc32Update_eq (c : UInt32) (b : UInt8) :
    crc32Update c b = crcByteStep (c ^^^ b.toUInt32) := by
  have hb : b.toUInt32 >>> 8 = 0 := by
    apply UInt32.toNat_inj.mp
    rw [UInt32.toNat_shiftRight, UInt8.toNat_toUInt32]
    exact Nat.shiftRight_eq_zero b.toNat 8 b.toNat_lt
  rw [← crcTable_low, UInt32.shiftRight_xor, hb, UInt32.xor_zero, crc32Update]

/-- The register of the CRC. -/
def crcRun (c : UInt32) (data : Bytes) : UInt32 := run crcByteStep UInt8.toUInt32 c data

theorem crcRun_append (c : UInt32) (a b : Bytes) : crcRun c (a ++ b) = crcRun (crcRun c a) b :=
  run_append c a b

theorem crcRun_xor (a c : UInt32) (data : Bytes) :
    crcRun (a ^^^ c) data = crcByteStep^[data.length] a ^^^ crcRun c data :=
  run_xor crcByteStep_xor a c data

theorem crc32_eq (data : Bytes) : crc32 data = crcRun 0xFFFFFFFF data ^^^ 0xFFFFFFFF := by
  have hupdate : crc32Update = fun c b => crcByteStep (c ^^^ UInt8.toUInt32 b) :=
    funext fun c => funext fun b => crc32Update_eq c b
  rw [crc32, hupdate]
  rfl

theorem toBitVec_crcByteStep (c : UInt32) :
    (crcByteStep c).toBitVec = (BitSerialCrc.shift 0xEDB88320#32)^[8] c.toBitVec :=
  Function.Semiconj.iterate_right toBitVec_crcTableStep 8 c

/-- The table driven CRC is the bit-serial one with the reflected polynomial, a register
of ones at the start and all bits flipped at the end. -/
theorem crc32_bit_serial (data : Bytes) :
    (crc32 data).toBitVec =
      BitSerialCrc.checksum 0xEDB88320#32 0xFFFFFFFF#32 0xFFFFFFFF#32 data := by
  have hword : ∀ b : UInt8, b.toUInt32.toBitVec = BitVec.ofNat 32 b.toNat := fun b => by
    rw [← UInt32.ofNat_uInt8ToNat]
    rfl
  have hrun : (crcRun 0xFFFFFFFF data).toBitVec = run (BitSerialCrc.shift 0xEDB88320#32)^[8]
      (fun b : UInt8 => BitVec.ofNat 32 b.toNat) 0xFFFFFFFF#32 data :=
    run_map UInt32.toBitVec_xor toBitVec_crcByteStep hword 0xFFFFFFFF data
  rw [crc32_eq, UInt32.toBitVec_xor, hrun, BitSerialCrc.checksum_eq _ (by decide)]
  rfl

example : crc32 (ascii "123456789") = 0xCBF43926 := by decide +kernel

/-- The CRC of the first part goes on through as many steps as the second has bytes. -/
theorem crc32_append (a b : Bytes) :
    crc32 (a ++ b) = crcByteStep^[b.length] (crc32 a) ^^^ crc32 b := by
  have hstart : crcRun 0xFFFFFFFF a = crc32 a ^^^ 0xFFFFFFFF := by
    rw [crc32_eq, UInt32.xor_assoc, UInt32.xor_self, UInt32.xor_zero]
  rw [crc32_eq (a ++ b), crcRun_append, hstart, crcRun_xor, UInt32.xor_assoc, ← crc32_eq]

/-! ### Matrices -/

/-- The columns of a map: what it makes of the single bits. -/
def columns (f : UInt32 → UInt32) : List UInt32 :=
  (List.range 32).map fun n => f (UInt32.ofNat (2 ^ n))

theorem crcOddMatrix_eq : crcOddMatrix = columns crcTableStep := by decide

theorem linear_zero {f : UInt32 → UInt32} (hf : Linear f) : f 0 = 0 :=
  hf.map_zero fun _ => UInt32.xor_self

/-- The columns that are left, from the `k`-th on, are xored for the bits that are left. -/
theorem gf2MatrixTimesFrom_columns {f : UInt32 → UInt32} (hf : Linear f) {m : Nat} :
    ∀ {k : Nat} (sum : UInt32) {vec : UInt32}, vec.toNat < 2 ^ m →
      gf2MatrixTimesFrom sum ((List.range' k m).map fun n => f (UInt32.ofNat (2 ^ n))) vec =
        sum ^^^ f (UInt32.ofNat (2 ^ k * vec.toNat)) := by
  induction m with
  | zero =>
      intro k sum vec hvec
      have hzero : vec.toNat = 0 := by omega
      rw [hzero, Nat.mul_zero]
      show sum = sum ^^^ f 0
      rw [linear_zero hf, UInt32.xor_zero]
  | succ m ih =>
      intro k sum vec hvec
      have hsplit : f (UInt32.ofNat (2 ^ k * vec.toNat)) =
          f (UInt32.ofNat (2 ^ k * (vec.toNat % 2))) ^^^
            f (UInt32.ofNat (2 ^ (k + 1) * (vec.toNat / 2))) := by
        have h := ofNat_split (2 ^ k * vec.toNat) (k + 1)
        rw [Nat.pow_succ, Nat.mul_mod_mul_left, Nat.mul_div_mul_left _ _ (Nat.two_pow_pos k)] at h
        rw [h, hf, Nat.pow_succ]
      rw [List.range'_succ, List.map_cons, gf2MatrixTimesFrom]
      by_cases hzero : vec = 0
      · rw [if_pos hzero, hzero]
        show sum = sum ^^^ f (UInt32.ofNat (2 ^ k * 0))
        rw [Nat.mul_zero]
        show sum = sum ^^^ f 0
        rw [linear_zero hf, UInt32.xor_zero]
      · rw [if_neg hzero, ih _ (by rw [toNat_shiftRight_one]; omega), toNat_shiftRight_one, hsplit,
          ← UInt32.xor_assoc]
        obtain hbit | hbit := and_one_cases vec
        · have hmod : vec.toNat % 2 = 0 := by rw [← toNat_and_one, hbit]; rfl
          rw [if_neg (not_not.mpr hbit), hmod, Nat.mul_zero]
          show sum ^^^ _ = sum ^^^ f 0 ^^^ _
          rw [linear_zero hf, UInt32.xor_zero]
        · have hmod : vec.toNat % 2 = 1 := by rw [← toNat_and_one, hbit]; rfl
          rw [if_pos (by rw [hbit]; decide), hmod, Nat.mul_one]

theorem gf2MatrixTimes_columns {f : UInt32 → UInt32} (hf : Linear f) (vec : UInt32) :
    gf2MatrixTimes (columns f) vec = f vec := by
  have h := @gf2MatrixTimesFrom_columns f hf 32 0 0 vec vec.toNat_lt
  rw [Nat.pow_zero, Nat.one_mul, UInt32.ofNat_toNat, UInt32.zero_xor] at h
  rw [gf2MatrixTimes, columns, List.range_eq_range', h]

theorem gf2MatrixSquare_columns {f : UInt32 → UInt32} (hf : Linear f) :
    gf2MatrixSquare (columns f) = columns f^[2] := by
  have htimes : gf2MatrixTimes (columns f) = f := funext (gf2MatrixTimes_columns hf)
  rw [gf2MatrixSquare, htimes, columns, List.map_map]
  rfl

/-! ### Combining -/

theorem toNat_and_one_64 (len : UInt64) : (len &&& 1).toNat = len.toNat % 2 := by
  rw [UInt64.toNat_and]
  exact Nat.and_one_is_mod len.toNat

theorem toNat_shiftRight_one_64 (len : UInt64) : (len >>> 1).toNat = len.toNat / 2 := by
  rw [UInt64.toNat_shiftRight]
  exact Nat.shiftRight_eq_div_pow len.toNat 1

theorem times_lowest {g : UInt32 → UInt32} (hg : Linear g) (crc1 : UInt32) (len : UInt64) :
    (if len &&& 1 ≠ 0 then gf2MatrixTimes (columns g) crc1 else crc1) =
      g^[len.toNat % 2] crc1 := by
  have hbit : len &&& 1 ≠ 0 ↔ len.toNat % 2 = 1 := by
    rw [ne_eq, ← UInt64.toNat_inj, toNat_and_one_64]
    show ¬len.toNat % 2 = 0 ↔ len.toNat % 2 = 1
    omega
  by_cases hodd : len.toNat % 2 = 1
  · rw [if_pos (hbit.mpr hodd), hodd, gf2MatrixTimes_columns hg, Function.iterate_one]
  · have heven : len.toNat % 2 = 0 := by omega
    rw [if_neg (fun h => hodd (hbit.mp h)), heven, Function.iterate_zero_apply]

theorem iterate_halve {α : Type} (g : α → α) (n : Nat) (x : α) :
    (g^[2])^[n / 2] (g^[n % 2] x) = g^[n] x := by
  rw [← Function.iterate_mul, ← Function.iterate_add_apply, Nat.div_add_mod]

/-- A turn takes the two lowest bits off the length; `odd` goes over to its fourth power,
and the square in between is what is iterated. -/
theorem crc32CombineLoop_columns {turns : Nat} :
    ∀ {f : UInt32 → UInt32}, Linear f → ∀ (crc1 : UInt32) {len : UInt64},
      len.toNat < 4 ^ turns →
        crc32CombineLoop turns (columns f) crc1 len = (f^[2])^[len.toNat] crc1 := by
  induction turns with
  | zero =>
      intro f hf crc1 len hlen
      have hzero : len.toNat = 0 := by omega
      rw [hzero]
      rfl
  | succ turns ih =>
      intro f hf crc1 len hlen
      have hzero : ∀ v : UInt64, v = 0 ↔ v.toNat = 0 := fun v => UInt64.toNat_inj.symm
      rw [crc32CombineLoop, gf2MatrixSquare_columns hf]
      simp only [gf2MatrixSquare_columns (hf.iterate 2), times_lowest (hf.iterate 2),
        times_lowest ((hf.iterate 2).iterate 2), hzero, toNat_shiftRight_one_64]
      have hsecond := iterate_halve (f^[2])^[2] (len.toNat / 2) ((f^[2])^[len.toNat % 2] crc1)
      rw [iterate_halve f^[2]] at hsecond
      split
      · next hend =>
          have hfirst := iterate_halve f^[2] len.toNat crc1
          rwa [hend] at hfirst
      · split
        · next hend => rwa [hend] at hsecond
        · have hlen' : (len >>> 1 >>> 1).toNat < 4 ^ turns := by
            rw [toNat_shiftRight_one_64, toNat_shiftRight_one_64]
            omega
          rw [ih ((hf.iterate 2).iterate 2) _ hlen', toNat_shiftRight_one_64,
            toNat_shiftRight_one_64, hsecond]

theorem crc32Combine_eq (crc1 crc2 : UInt32) {len : UInt64} (hlen : len ≠ 0) :
    crc32Combine crc1 crc2 len = crcByteStep^[len.toNat] crc1 ^^^ crc2 := by
  have hlt : len.toNat < 4 ^ 32 := len.toNat_lt
  rw [crc32Combine, if_neg hlen]
  simp only [crcOddMatrix_eq, gf2MatrixSquare_columns crcTableStep_xor,
    gf2MatrixSquare_columns (crcTableStep_xor.iterate 2),
    crc32CombineLoop_columns ((crcTableStep_xor.iterate 2).iterate 2) crc1 hlt]
  rfl

/-- The CRC of two strings, combined, is the one of their concatenation. -/
theorem crc32Combine_append (a b : Bytes) (hb : b.length < 2 ^ 64) :
    crc32Combine (crc32 a) (crc32 b) (UInt64.ofNat b.length) = crc32 (a ++ b) := by
  have hlen : (UInt64.ofNat b.length).toNat = b.length := by
    rw [UInt64.toNat_ofNat', Nat.mod_eq_of_lt hb]
  by_cases hnil : b = []
  · subst hnil
    rw [List.append_nil]
    rfl
  · have hne : UInt64.ofNat b.length ≠ 0 := fun h => by
      have hlength := congrArg UInt64.toNat h
      rw [hlen] at hlength
      exact hnil (List.eq_nil_of_length_eq_zero hlength)
    rw [crc32Combine_eq _ _ hne, hlen, crc32_append]

theorem crc32Combine_append_abc :
    crc32Combine (crc32 [97]) (crc32 [98, 99]) 2 = crc32 [97, 98, 99] :=
  crc32Combine_append [97] [98, 99] (by decide)

/-! ### Short differences -/

/-- Up to four bytes act as the word that they spell. -/
theorem crcRun_short (c : UInt32) {bs : Bytes} (hbs : bs.length ≤ 4) :
    crcRun c bs = crcByteStep^[bs.length] (c ^^^ UInt32.ofNat (LittleEndian.decode bs)) := by
  refine @run_eq_iterate _ _ _ crcByteStep UInt8.toUInt32 _ crcByteStep_xor 0
    (fun _ => UInt32.xor_zero) (fun bs => UInt32.ofNat (LittleEndian.decode bs)) rfl 4
    (fun b bs hlt => ?_) c bs hbs
  have hdecode : 256 * LittleEndian.decode bs < 2 ^ 32 := by
    have hlt' : LittleEndian.decode bs < 256 ^ 3 :=
      Nat.lt_of_lt_of_le (LittleEndian.decode_lt bs) (Nat.pow_le_pow_right (by decide) (by omega))
    omega
  refine ⟨UInt32.ofNat (256 * LittleEndian.decode bs), crcByteStep_shift hdecode, ?_⟩
  have hb : b.toNat < 256 := b.toNat_lt
  have hlow : (b.toNat + 256 * LittleEndian.decode bs) % 2 ^ 8 = b.toNat := by omega
  have hhigh : (b.toNat + 256 * LittleEndian.decode bs) / 2 ^ 8 = LittleEndian.decode bs := by omega
  have hsplit := ofNat_split (b.toNat + 256 * LittleEndian.decode bs) 8
  rw [hlow, hhigh, UInt32.ofNat_uInt8ToNat] at hsplit
  exact hsplit

theorem crcRun_injective (data : Bytes) : Function.Injective fun c => crcRun c data := by
  refine run_injective (fun b c c' h => ?_) data
  exact (UInt32.xor_left_inj _).mp (crcByteStep_injective h)

/-- Two strings that differ in up to four bytes in a row have different CRCs. -/
theorem crc32_ne_of_window (p q : Bytes) {u v : Bytes} (hlength : u.length = v.length)
    (hshort : u.length ≤ 4) (hne : u ≠ v) : crc32 (p ++ (u ++ q)) ≠ crc32 (p ++ (v ++ q)) := by
  intro heq
  have hv : v.length ≤ 4 := hlength ▸ hshort
  rw [crc32_eq, crc32_eq, UInt32.xor_left_inj, crcRun_append, crcRun_append, crcRun_append,
    crcRun_append] at heq
  have hword := crcRun_injective q heq
  rw [crcRun_short _ hshort, crcRun_short _ hv, hlength] at hword
  have hdecode := (UInt32.xor_right_inj _).mp (crcByteStep_injective.iterate v.length hword)
  have hbound : ∀ {bs : Bytes}, bs.length ≤ 4 →
      (UInt32.ofNat (LittleEndian.decode bs)).toNat = LittleEndian.decode bs := by
    intro bs hbs
    rw [UInt32.toNat_ofNat', Nat.mod_eq_of_lt]
    exact Nat.lt_of_lt_of_le (LittleEndian.decode_lt bs) (Nat.pow_le_pow_right (by decide) hbs)
  have hvalue := congrArg UInt32.toNat hdecode
  rw [hbound hshort, hbound hv] at hvalue
  apply hne
  rw [← LittleEndian.encode_decode u, hvalue, hlength, LittleEndian.encode_decode]

end StorageFabric
