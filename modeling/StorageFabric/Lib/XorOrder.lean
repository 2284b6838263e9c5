import Mathlib.Data.Nat.Bitwise

/-!
Numbers xored with a counter.

Xoring two numbers with the same one keeps or turns their order by the bit of it at
the highest place where they differ. Between a value of a counter and the next, the
places up to the one that is carried into change as well; `KeepsOrder` says when two
numbers are in order after they are xored with the two values.
-/

namespace XorOrder

theorem xor_eq_iff {a b c : Nat} : a ^^^ b = c ↔ a = b ^^^ c := by
  constructor
  · rintro rfl
    rw [Nat.xor_comm a, ← Nat.xor_assoc, Nat.xor_self, Nat.zero_xor]
  · rintro rfl
    rw [Nat.xor_comm b, Nat.xor_assoc, Nat.xor_self, Nat.xor_zero]

theorem lt_iff_testBit {a b : Nat} (h : a ≠ b) : a < b ↔ b.testBit (a ^^^ b).log2 = true := by
  have hne : a ^^^ b ≠ 0 := fun hzero => h (Nat.xor_eq_zero_iff.mp hzero)
  have htop : (a.testBit (a ^^^ b).log2 ^^ b.testBit (a ^^^ b).log2) = true := by
    rw [← Nat.testBit_xor]
    exact Nat.testBit_log2 hne
  have habove : ∀ i, (a ^^^ b).log2 < i → a.testBit i = b.testBit i := fun i hi => by
    have hbit := Nat.testBit_lt_two_pow ((Nat.log2_lt hne).mp hi)
    rw [Nat.testBit_xor] at hbit
    simpa using hbit
  cases hb : b.testBit (a ^^^ b).log2 with
  | true =>
      rw [hb, Bool.xor_true, Bool.not_eq_true'] at htop
      exact iff_of_true (Nat.lt_of_testBit _ htop hb habove) rfl
  | false =>
      rw [hb, Bool.xor_false] at htop
      have hlt := Nat.lt_of_testBit _ hb htop fun i hi => (habove i hi).symm
      exact iff_of_false (Nat.lt_asymm hlt) Bool.false_ne_true

/-- Xoring with one number keeps the order of two exactly if it leaves the highest place
where they differ. -/
theorem xor_lt_xor_iff {a b : Nat} (h : a < b) (c : Nat) :
    a ^^^ c < b ^^^ c ↔ c.testBit (a ^^^ b).log2 = false := by
  have hne : a ^^^ c ≠ b ^^^ c := fun heq => Nat.ne_of_lt h (Nat.xor_left_injective heq)
  have hsame : a ^^^ c ^^^ (b ^^^ c) = a ^^^ b := by
    calc a ^^^ c ^^^ (b ^^^ c) = a ^^^ b ^^^ (c ^^^ c) := by ac_rfl
      _ = a ^^^ b := by rw [Nat.xor_self, Nat.xor_zero]
  have hb := (lt_iff_testBit (Nat.ne_of_lt h)).mp h
  rw [lt_iff_testBit hne, hsame, Nat.testBit_xor, hb]
  simp

theorem xor_two_pow_sub_one {k x : Nat} (h : x < 2 ^ k) : x ^^^ (2 ^ k - 1) = 2 ^ k - 1 - x := by
  have hsub : 2 ^ k - 1 - x = 2 ^ k - (x + 1) := by omega
  rw [hsub]
  apply Nat.eq_of_testBit_eq
  intro i
  rw [Nat.testBit_xor, Nat.testBit_two_pow_sub_one, Nat.testBit_two_pow_sub_succ h]
  by_cases hi : i < k
  · simp [hi]
  · have hx := Nat.testBit_lt_two_pow (Nat.lt_of_lt_of_le h
      (Nat.pow_le_pow_right (by decide) (Nat.le_of_not_lt hi)))
    simp [hi, hx]

/-! ### The counter -/

def carryBit (n : Nat) : Nat := (n ^^^ (n + 1)).log2

theorem exists_ones (n : Nat) : ∃ k q, n = 2 ^ (k + 1) * q + (2 ^ k - 1) := by
  induction n using Nat.strongRecOn with
  | _ n ih =>
      obtain heven | hodd := Nat.mod_two_eq_zero_or_one n
      · exact ⟨0, n / 2, by omega⟩
      · obtain ⟨k, q, hhalf⟩ := ih (n / 2) (by omega)
        refine ⟨k + 1, q, ?_⟩
        have hpos := Nat.two_pow_pos k
        have hpow : 2 ^ (k + 1 + 1) * q = 2 * (2 ^ (k + 1) * q) := by
          rw [Nat.pow_succ', Nat.mul_assoc]
        have hdouble : 2 ^ (k + 1) = 2 * 2 ^ k := Nat.pow_succ'
        rw [hpow]
        generalize 2 ^ (k + 1) * q = m at *
        omega

section Blocks

variable {k a b r s : Nat}

theorem block_div (hr : r < 2 ^ k) : (2 ^ k * a + r) / 2 ^ k = a := by
  rw [Nat.mul_add_div (Nat.two_pow_pos k), Nat.div_eq_of_lt hr, Nat.add_zero]

theorem block_mod (hr : r < 2 ^ k) : (2 ^ k * a + r) % 2 ^ k = r := by
  rw [Nat.mul_add_mod, Nat.mod_eq_of_lt hr]

theorem xor_block (hr : r < 2 ^ k) (hs : s < 2 ^ k) :
    (2 ^ k * a + r) ^^^ (2 ^ k * b + s) = 2 ^ k * (a ^^^ b) + (r ^^^ s) := by
  have hdiv : ((2 ^ k * a + r) ^^^ (2 ^ k * b + s)) / 2 ^ k = a ^^^ b := by
    rw [Nat.xor_div_two_pow, block_div hr, block_div hs]
  have hmod : ((2 ^ k * a + r) ^^^ (2 ^ k * b + s)) % 2 ^ k = r ^^^ s := by
    rw [Nat.xor_mod_two_pow, block_mod hr, block_mod hs]
  rw [← hdiv, ← hmod, Nat.div_add_mod]

/-- The high parts decide the order, and the low parts if the high ones are the same. -/
theorem block_lt_iff (hr : r < 2 ^ k) (hs : s < 2 ^ k) :
    2 ^ k * a + r < 2 ^ k * b + s ↔ a < b ∨ a = b ∧ r < s := by
  obtain hlt | rfl | hlt := Nat.lt_trichotomy a b
  · have hmul := Nat.mul_le_mul_left (2 ^ k) hlt
    rw [Nat.mul_succ] at hmul
    exact iff_of_true (by omega) (.inl hlt)
  · simp
  · have hmul := Nat.mul_le_mul_left (2 ^ k) hlt
    rw [Nat.mul_succ] at hmul
    exact iff_of_false (by omega) (by omega)

end Blocks

theorem log2_eq_add {x m : Nat} (h : x / 2 ^ m ≠ 0) : x.log2 = (x / 2 ^ m).log2 + m := by
  have hx : x ≠ 0 := fun hzero => h (by rw [hzero, Nat.zero_div])
  obtain ⟨hle, hlt⟩ := (Nat.log2_eq_iff h).mp rfl
  rw [Nat.log2_eq_iff hx]
  constructor
  · rw [Nat.pow_add]
    exact (Nat.le_div_iff_mul_le (Nat.two_pow_pos m)).mp hle
  · rw [Nat.add_right_comm, Nat.pow_add]
    exact (Nat.div_lt_iff_lt_mul (Nat.two_pow_pos m)).mp hlt

/-- The two halves of a block of `2 ^ (k + 1)`, when the carry goes through it. -/
theorem xor_lt_xor_low {k l l' : Nat} (hl' : l' < 2 ^ (k + 1)) (h : l ≤ l') :
    l ^^^ (2 ^ k - 1) < l' ^^^ 2 ^ k ↔
      l < 2 ^ k ∧ (l' < 2 ^ k ∨ 2 ^ (k + 1) ≤ l + l') := by
  have hpos := Nat.two_pow_pos k
  have hones : 2 ^ k - 1 < 2 ^ k := by omega
  have hpow : 2 ^ (k + 1) = 2 * 2 ^ k := Nat.pow_succ'
  have hflip : l' ^^^ 2 ^ k = if l' < 2 ^ k then 2 ^ k + l' else l' - 2 ^ k := by
    split
    · next hlow =>
        have hblock := @xor_block k 0 1 l' 0 hlow hpos
        simpa using hblock
    · next hhigh =>
        have hblock := @xor_block k 1 1 (l' - 2 ^ k) 0 (by omega) hpos
        rw [Nat.mul_one, Nat.add_zero, Nat.add_sub_cancel' (Nat.le_of_not_lt hhigh)] at hblock
        simpa using hblock
  by_cases hlow : l < 2 ^ k
  · rw [xor_two_pow_sub_one hlow, hflip]
    split <;> omega
  · have hblock := @xor_block k 1 0 (l - 2 ^ k) (2 ^ k - 1) (by omega) hones
    rw [Nat.mul_one, Nat.mul_zero, Nat.zero_add,
      Nat.add_sub_cancel' (Nat.le_of_not_lt hlow), Nat.xor_zero, Nat.mul_one] at hblock
    rw [hblock, hflip, if_neg (by omega)]
    omega

/-- The number that is not the lesser one stays behind the other when it is xored with
the next value of the counter and the other with the present one. -/
def KeepsOrder (n t t' : Nat) : Prop :=
  let half := 2 ^ carryBit n
  let block := 2 ^ (carryBit n + 1)
  if t / block = t' / block then
    t % block < half ∧ (t' % block < half ∨ block ≤ t % block + t' % block)
  else n.testBit (t ^^^ t').log2 = false

instance (n t t' : Nat) : Decidable (KeepsOrder n t t') := by
  unfold KeepsOrder
  infer_instance

theorem carryBit_eq (k q : Nat) : carryBit (2 ^ (k + 1) * q + (2 ^ k - 1)) = k := by
  have hpos := Nat.two_pow_pos k
  have hpow : 2 ^ (k + 1) = 2 * 2 ^ k := Nat.pow_succ'
  have hnext : 2 ^ (k + 1) * q + (2 ^ k - 1) + 1 = 2 ^ (k + 1) * q + 2 ^ k := by omega
  have hlow : (2 ^ k - 1) ^^^ 2 ^ k = 2 ^ k + (2 ^ k - 1) := by
    have hblock := @xor_block k 0 1 (2 ^ k - 1) 0 (by omega) hpos
    simpa using hblock
  rw [carryBit, hnext, xor_block (by omega) (by omega), hlow, Nat.xor_self, Nat.mul_zero,
    Nat.zero_add, Nat.log2_eq_iff (by omega)]
  omega

theorem xor_lt_xor_succ_iff {n t t' : Nat} (h : t ≤ t') :
    t ^^^ n < t' ^^^ (n + 1) ↔ KeepsOrder n t t' := by
  obtain ⟨k, q, rfl⟩ := exists_ones n
  have hpos := Nat.two_pow_pos k
  have hpow : 2 ^ (k + 1) = 2 * 2 ^ k := Nat.pow_succ'
  -- adding one flips the `k` low ones and the zero above them, and nothing else
  have hnext : 2 ^ (k + 1) * q + (2 ^ k - 1) + 1 = 2 ^ (k + 1) * q + 2 ^ k := by omega
  have hlow : ∀ x, x % 2 ^ (k + 1) < 2 ^ (k + 1) := fun x => Nat.mod_lt x (Nat.two_pow_pos _)
  have hleft : t ^^^ (2 ^ (k + 1) * q + (2 ^ k - 1)) =
      2 ^ (k + 1) * (t / 2 ^ (k + 1) ^^^ q) + (t % 2 ^ (k + 1) ^^^ (2 ^ k - 1)) := by
    rw [← xor_block (hlow t) (by omega), Nat.div_add_mod]
  have hright : t' ^^^ (2 ^ (k + 1) * q + 2 ^ k) =
      2 ^ (k + 1) * (t' / 2 ^ (k + 1) ^^^ q) + (t' % 2 ^ (k + 1) ^^^ 2 ^ k) := by
    rw [← xor_block (hlow t') (by omega), Nat.div_add_mod]
  have hdivs := Nat.div_le_div_right (c := 2 ^ (k + 1)) h
  rw [KeepsOrder, carryBit_eq, hnext, hleft, hright,
    block_lt_iff (Nat.xor_lt_two_pow (hlow t) (by omega)) (Nat.xor_lt_two_pow (hlow t') (by omega))]
  by_cases hsame : t / 2 ^ (k + 1) = t' / 2 ^ (k + 1)
  · have hmods : t % 2 ^ (k + 1) ≤ t' % 2 ^ (k + 1) := by
      have ht := Nat.div_add_mod t (2 ^ (k + 1))
      have ht' := Nat.div_add_mod t' (2 ^ (k + 1))
      rw [← hsame] at ht'
      omega
    simp only [hsame, if_true, Nat.lt_irrefl, false_or, true_and]
    exact xor_lt_xor_low (hlow t') hmods
  · have hlt := Nat.lt_of_le_of_ne hdivs hsame
    -- the highest bit in which they differ is above the carry
    have htop : (t ^^^ t').log2 = (t / 2 ^ (k + 1) ^^^ t' / 2 ^ (k + 1)).log2 + (k + 1) := by
      have hne : (t ^^^ t') / 2 ^ (k + 1) ≠ 0 := by
        rw [Nat.xor_div_two_pow]
        exact fun hzero => hsame (Nat.xor_eq_zero_iff.mp hzero)
      rw [log2_eq_add hne, Nat.xor_div_two_pow]
    have hbit : (2 ^ (k + 1) * q + (2 ^ k - 1)).testBit (t ^^^ t').log2 =
        q.testBit (t / 2 ^ (k + 1) ^^^ t' / 2 ^ (k + 1)).log2 := by
      rw [htop, ← Nat.testBit_div_two_pow, block_div (by omega)]
    have happart : t / 2 ^ (k + 1) ^^^ q ≠ t' / 2 ^ (k + 1) ^^^ q :=
      fun heq => hsame (Nat.xor_left_injective heq)
    simp only [hsame, if_false, happart, false_and, or_false]
    rw [hbit, xor_lt_xor_iff hlt]

end XorOrder
