import Mathlib.Data.Nat.Digits.Defs
import StorageFabric.Lib.XorRegister

/-!
Reflected cyclic redundancy checks, a bit at a time.

The register takes the bits of a message in their order, and those of a byte from the
lowest on. For up to as many bits as it is wide this is the same as to xor the word that
they spell into the register and then to shift it by as many places, which is what an
implementation that goes byte by byte does.
-/

namespace BitSerialCrc

open XorRegister

theorem low_xor_high (n k : Nat) : n % 2 ^ k ^^^ 2 ^ k * (n / 2 ^ k) = n := by
  apply Nat.eq_of_testBit_eq
  intro i
  rw [Nat.testBit_xor, Nat.testBit_mod_two_pow, Nat.testBit_two_pow_mul]
  by_cases hi : i < k
  · simp [hi, Nat.not_le.mpr hi]
  · simp [hi, Nat.le_of_not_lt hi, Nat.testBit_div_two_pow]

/-- The number that bits spell, the lowest first. -/
def value (bs : List Bool) : Nat := Nat.ofDigits 2 (bs.map Bool.toNat)

def byteBits (b : UInt8) : List Bool := (List.range 8).map b.toNat.testBit

theorem value_cons (b : Bool) (bs : List Bool) : value (b :: bs) = b.toNat + 2 * value bs :=
  Nat.ofDigits_cons

theorem value_lt (bs : List Bool) : value bs < 2 ^ bs.length := by
  induction bs with
  | nil => exact Nat.one_pos
  | cons b bs ih =>
      have hb : b.toNat < 2 := Bool.toNat_lt b
      rw [value_cons, List.length_cons, Nat.pow_succ']
      omega

theorem value_testBit (k n : Nat) : value ((List.range k).map n.testBit) = n % 2 ^ k := by
  induction k generalizing n with
  | zero => exact (Nat.mod_one n).symm
  | succ k ih =>
      have hhigh : (List.range k).map (n.testBit ∘ Nat.succ) = (List.range k).map (n / 2).testBit :=
        List.map_congr_left fun i _ => Nat.testBit_succ n i
      rw [List.range_succ_eq_map, List.map_cons, List.map_map, hhigh, value_cons, ih,
        Nat.testBit_zero, Nat.pow_succ', Nat.mod_mul]
      obtain h | h := Nat.mod_two_eq_zero_or_one n
      · simp [h]
      · simp [h]

theorem value_byteBits (b : UInt8) : value (byteBits b) = b.toNat := by
  rw [byteBits, value_testBit]
  exact Nat.mod_eq_of_lt b.toNat_lt

section

variable {w : Nat} (poly : BitVec w)

/-- The register takes a bit: its own bits move down, and where the one that leaves is
not the one that comes, the polynomial is xored in. -/
def step (c : BitVec w) (bit : Bool) : BitVec w :=
  if c.getLsbD 0 = bit then c >>> 1 else (c >>> 1) ^^^ poly

/-- The checksum of a string. -/
def checksum (init final : BitVec w) (data : List UInt8) : BitVec w :=
  (data.flatMap byteBits).foldl (step poly) init ^^^ final

/-! ### Bytes instead of bits -/

def shift (c : BitVec w) : BitVec w := step poly c false

theorem shift_xor : Linear (shift poly) := by
  intro a b
  have hcancel : ∀ p x y : BitVec w, (x ^^^ p) ^^^ (y ^^^ p) = x ^^^ y := fun p x y => by
    calc (x ^^^ p) ^^^ (y ^^^ p) = (x ^^^ y) ^^^ (p ^^^ p) := by ac_rfl
      _ = x ^^^ y := by rw [BitVec.xor_self, BitVec.xor_zero]
  simp only [shift, step, BitVec.getLsbD_xor, BitVec.ushiftRight_xor_distrib]
  cases a.getLsbD 0
  · cases b.getLsbD 0
    · rfl
    · exact BitVec.xor_assoc _ _ _
  · cases b.getLsbD 0
    · simp only [Bool.true_xor, Bool.not_false, Bool.true_eq_false, if_false, if_true]
      ac_rfl
    · exact (hcancel poly _ _).symm

theorem step_eq (hw : 0 < w) (c : BitVec w) (bit : Bool) :
    step poly c bit = shift poly (c ^^^ BitVec.ofNat w bit.toNat) := by
  have hlow : (BitVec.ofNat w bit.toNat).getLsbD 0 = bit := by
    cases bit <;> simp [hw]
  have hhigh : BitVec.ofNat w bit.toNat >>> 1 = 0#w := by
    apply BitVec.eq_of_toNat_eq
    rw [BitVec.toNat_ushiftRight, BitVec.toNat_ofNat, Nat.shiftRight_one]
    have hbit : bit.toNat % 2 ^ w ≤ 1 :=
      (Nat.mod_le _ _).trans (Nat.le_of_lt_succ (Bool.toNat_lt bit))
    simp
    omega
  rw [shift, step, step, BitVec.getLsbD_xor, hlow, BitVec.ushiftRight_xor_distrib, hhigh,
    BitVec.xor_zero]
  cases c.getLsbD 0 <;> cases bit <;> rfl

theorem shift_double {n : Nat} (hn : 2 * n < 2 ^ w) :
    shift poly (BitVec.ofNat w (2 * n)) = BitVec.ofNat w n := by
  have hlow : (BitVec.ofNat w (2 * n)).getLsbD 0 = false := by
    simp [BitVec.getLsbD_ofNat]
  rw [shift, step, if_pos hlow]
  apply BitVec.eq_of_toNat_eq
  rw [BitVec.toNat_ushiftRight, BitVec.toNat_ofNat, BitVec.toNat_ofNat, Nat.mod_eq_of_lt hn,
    Nat.mod_eq_of_lt (by omega), Nat.shiftRight_one]
  omega

/-- No more bits than the register has act as the number that they spell. -/
theorem foldl_step (c : BitVec w) {bs : List Bool} (hbs : bs.length ≤ w) :
    bs.foldl (step poly) c = (shift poly)^[bs.length] (c ^^^ BitVec.ofNat w (value bs)) := by
  cases bs with
  | nil => exact (BitVec.xor_zero).symm
  | cons b bs =>
      have hw : 0 < w := Nat.lt_of_lt_of_le (Nat.succ_pos _) hbs
      have hstep : step poly = fun c bit => shift poly (c ^^^ BitVec.ofNat w (Bool.toNat bit)) :=
        funext fun c => funext fun bit => step_eq poly hw c bit
      rw [hstep]
      refine @run_eq_iterate _ _ _ (shift poly) (fun bit => BitVec.ofNat w (Bool.toNat bit)) _
        (shift_xor poly) 0 (fun _ => BitVec.xor_zero) (fun bs => BitVec.ofNat w (value bs)) rfl w
        (fun b bs hlt => ?_) c (b :: bs) hbs
      have hdouble : 2 * value bs < 2 ^ w :=
        calc 2 * value bs < 2 * 2 ^ bs.length :=
              Nat.mul_lt_mul_of_pos_left (value_lt bs) Nat.two_pos
          _ = 2 ^ (bs.length + 1) := Nat.pow_succ'.symm
          _ ≤ 2 ^ w := Nat.pow_le_pow_right Nat.two_pos hlt
      refine ⟨BitVec.ofNat w (2 * value bs), shift_double poly hdouble, ?_⟩
      have hlow : (b.toNat + 2 * value bs) % 2 ^ 1 = b.toNat := by
        have hb : b.toNat < 2 := Bool.toNat_lt b
        omega
      have hhigh : (b.toNat + 2 * value bs) / 2 ^ 1 = value bs := by
        have hb : b.toNat < 2 := Bool.toNat_lt b
        omega
      have hsplit := low_xor_high (b.toNat + 2 * value bs) 1
      rw [hlow, hhigh, Nat.pow_one] at hsplit
      rw [value_cons, ← hsplit, BitVec.ofNat_xor]

/-- So the checksum goes byte by byte. -/
theorem checksum_eq (hw : 8 ≤ w) (init final : BitVec w) (data : List UInt8) :
    checksum poly init final data =
      run (shift poly)^[8] (fun b : UInt8 => BitVec.ofNat w b.toNat) init data ^^^ final := by
  have hbyte : ∀ (c : BitVec w) (b : UInt8), (byteBits b).foldl (step poly) c =
      (shift poly)^[8] (c ^^^ BitVec.ofNat w b.toNat) := by
    intro c b
    rw [foldl_step poly c (by exact hw), value_byteBits]
    rfl
  have hfold : (data.flatMap byteBits).foldl (step poly) init =
      data.foldl (fun c b => (byteBits b).foldl (step poly) c) init := List.foldl_flatMap
  rw [checksum, hfold]
  simp only [hbyte]
  rfl

end

end BitSerialCrc
