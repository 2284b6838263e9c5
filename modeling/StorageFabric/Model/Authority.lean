import Mathlib.Data.Prod.Lex
import StorageFabric.Model.Records

/-!
The order of authority.

Envelopes are compared over epoch, boot and generation. Epoch and boot come from
the coordinator and make up the incarnation; the generation is counted by the
worker. The comparison of the source is the lexicographic order of the triples,
which is linear.
-/

namespace StorageFabric

namespace AuthorityEnvelope

def incarnation (a : AuthorityEnvelope) : Nat ×ₗ Nat := toLex (a.epoch.value.toNat, a.boot.value)

def triple (a : AuthorityEnvelope) : (Nat ×ₗ Nat) ×ₗ Nat :=
  toLex (a.incarnation, a.generation.value.toNat)

theorem incarnation_lt_iff {a b : AuthorityEnvelope} :
    a.incarnation < b.incarnation ↔
      a.epoch.value.toNat < b.epoch.value.toNat ∨
      a.epoch.value.toNat = b.epoch.value.toNat ∧ a.boot.value < b.boot.value :=
  Prod.Lex.toLex_lt_toLex

theorem incarnation_eq_iff {a b : AuthorityEnvelope} :
    a.incarnation = b.incarnation ↔ a.epoch = b.epoch ∧ a.boot = b.boot := by
  rw [incarnation, incarnation, toLex_inj, Prod.mk.injEq, UInt64.toNat_inj, Generation.ext_iff,
    StrongId.ext_iff]

theorem triple_lt_iff {a b : AuthorityEnvelope} :
    a.triple < b.triple ↔
      a.incarnation < b.incarnation ∨
      a.incarnation = b.incarnation ∧ a.generation.value.toNat < b.generation.value.toNat :=
  Prod.Lex.toLex_lt_toLex

theorem triple_le_iff {a b : AuthorityEnvelope} :
    a.triple ≤ b.triple ↔
      a.epoch.value.toNat < b.epoch.value.toNat ∨
      a.epoch.value.toNat = b.epoch.value.toNat ∧
        (a.boot.value < b.boot.value ∨
          a.boot.value = b.boot.value ∧ a.generation.value.toNat ≤ b.generation.value.toNat) := by
  rw [← not_lt, triple_lt_iff, incarnation_lt_iff, incarnation_eq_iff, Generation.ext_iff,
    StrongId.ext_iff, ← UInt64.toNat_inj]
  omega

theorem epoch_le_of_triple_le {a b : AuthorityEnvelope} (h : a.triple ≤ b.triple) :
    a.epoch.value ≤ b.epoch.value := by
  rw [UInt64.le_iff_toNat_le]
  obtain hlt | ⟨heq, -⟩ := triple_le_iff.mp h
  · omega
  · omega

/-- The gate lets through what is above the stored triple. -/
theorem isStrictlyNewerThan_iff {a b : AuthorityEnvelope} :
    a.isStrictlyNewerThan b = true ↔ b.triple < a.triple := by
  rw [isStrictlyNewerThan, decide_eq_true_iff, triple_lt_iff, incarnation_lt_iff,
    incarnation_eq_iff, Generation.ext_iff, StrongId.ext_iff, compare]
  simp only [ne_eq, UInt64.lt_iff_toNat_lt, ← UInt64.toNat_inj]
  split
  · split <;> omega
  · split
    · split <;> omega
    · split
      · split <;> omega
      · omega

end AuthorityEnvelope

end StorageFabric
