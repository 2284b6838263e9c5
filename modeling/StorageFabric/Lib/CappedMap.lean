import Mathlib.Algebra.BigOperators.Finprod
import StorageFabric.Lib.Table

/-!
Maps whose values have sizes, with a cap on the sum of them.

A capped map cannot be built over its cap: `put` gives one only where the value
fits after it has replaced what was there.
-/

variable {K V : Type}

/-! ### The weight of a map -/

def sizeAt (size : V → ℕ) (o : Option V) : ℕ := (o.map size).getD 0

noncomputable def weight (size : V → ℕ) (g : K → Option V) : ℕ := ∑ᶠ k, sizeAt size (g k)

theorem weight_eq_sum {size : V → ℕ} {g : K → Option V} {s : Finset K}
    (h : ∀ k, g k ≠ none → k ∈ s) : weight size g = ∑ k ∈ s, sizeAt size (g k) := by
  refine finsum_eq_sum_of_support_subset _ fun k hk => h k fun hnone => ?_
  rw [Function.mem_support, hnone] at hk
  exact hk rfl

theorem weight_update [DecidableEq K] (size : V → ℕ) {g : K → Option V}
    (hfinite : {k | g k ≠ none}.Finite) (k : K) (o : Option V) :
    weight size (Function.update g k o) + sizeAt size (g k) = weight size g + sizeAt size o := by
  have hmem : ∀ k', g k' ≠ none → k' ∈ insert k hfinite.toFinset := fun k' hk' =>
    Finset.mem_insert_of_mem (hfinite.mem_toFinset.mpr hk')
  have hmem' : ∀ k', Function.update g k o k' ≠ none → k' ∈ insert k hfinite.toFinset := by
    intro k' hk'
    by_cases heq : k' = k
    · rw [heq]
      exact Finset.mem_insert_self _ _
    · rw [Function.update_of_ne heq] at hk'
      exact hmem k' hk'
  have hk : k ∈ insert k hfinite.toFinset := Finset.mem_insert_self _ _
  have hothers : ∑ k' ∈ (insert k hfinite.toFinset).erase k, sizeAt size (Function.update g k o k') =
      ∑ k' ∈ (insert k hfinite.toFinset).erase k, sizeAt size (g k') := by
    refine Finset.sum_congr rfl fun k' hk' => ?_
    rw [Function.update_of_ne (Finset.ne_of_mem_erase hk')]
  have hafter := Finset.add_sum_erase _ (fun k' => sizeAt size (Function.update g k o k')) hk
  have hbefore := Finset.add_sum_erase _ (fun k' => sizeAt size (g k')) hk
  simp only [Function.update_self] at hafter
  rw [weight_eq_sum hmem, weight_eq_sum hmem']
  omega

theorem finite_update [DecidableEq K] {g : K → Option V} (hfinite : {k | g k ≠ none}.Finite)
    (k : K) (o : Option V) : {k' | Function.update g k o k' ≠ none}.Finite := by
  refine (hfinite.insert k).subset fun k' hk' => ?_
  by_cases heq : k' = k
  · exact .inl heq
  · exact .inr fun hnone => hk' (by rw [Function.update_of_ne heq, hnone])

/-! ### Capped maps -/

/-- A finite map whose values weigh no more than the cap. -/
structure CappedMap (K V : Type) (size : V → ℕ) (cap : ℕ) where
  get : K → Option V
  finite : {k | get k ≠ none}.Finite
  fits : weight size get ≤ cap

namespace CappedMap

variable {size : V → ℕ} {cap : ℕ}

def empty (size : V → ℕ) (cap : ℕ) : CappedMap K V size cap where
  get _ := none
  finite := Set.finite_empty.subset fun _ hk => absurd rfl hk
  fits := by
    rw [weight_eq_sum (s := ∅) fun _ hk => absurd rfl hk]
    exact Nat.zero_le cap

noncomputable def used (m : CappedMap K V size cap) : ℕ := weight size m.get

theorem used_empty : (empty size cap : CappedMap K V size cap).used = 0 :=
  weight_eq_sum (s := ∅) fun _ hk => absurd rfl hk

variable [DecidableEq K]

/-- The value goes under the key if it fits there in place of what it replaces. -/
noncomputable def put (m : CappedMap K V size cap) (k : K) (v : V) :
    Option (CappedMap K V size cap) :=
  if h : weight size (Function.update m.get k (some v)) ≤ cap then
    some ⟨Function.update m.get k (some v), finite_update m.finite k _, h⟩
  else none

theorem sizeAt_le_used (m : CappedMap K V size cap) (k : K) :
    sizeAt size (m.get k) ≤ m.used := by
  have hupdate := weight_update size m.finite k none
  have hnone : sizeAt size (none : Option V) = 0 := rfl
  rw [used]
  omega

theorem used_update (m : CappedMap K V size cap) (k : K) (v : V) :
    weight size (Function.update m.get k (some v)) =
      m.used - sizeAt size (m.get k) + size v := by
  have hupdate := weight_update size m.finite k (some v)
  have hle := m.sizeAt_le_used k
  rw [used] at hle ⊢
  have hsome : sizeAt size (some v) = size v := rfl
  omega

theorem put_eq_some {m m' : CappedMap K V size cap} {k : K} {v : V} (h : m.put k v = some m') :
    m'.get = Function.update m.get k (some v) ∧
      m'.used = m.used - sizeAt size (m.get k) + size v := by
  unfold put at h
  split at h
  · cases h
    exact ⟨rfl, m.used_update k v⟩
  · cases h

theorem put_isSome_iff {m : CappedMap K V size cap} {k : K} {v : V} :
    (m.put k v).isSome = true ↔ m.used - sizeAt size (m.get k) + size v ≤ cap := by
  rw [← used_update, put]
  by_cases h : weight size (Function.update m.get k (some v)) ≤ cap <;> simp [h]

def remove (m : CappedMap K V size cap) (k : K) : CappedMap K V size cap where
  get := Function.update m.get k none
  finite := finite_update m.finite k none
  fits := by
    have hupdate := weight_update size m.finite k none
    have hnone : sizeAt size (none : Option V) = 0 := rfl
    have hfits := m.fits
    omega

theorem used_remove (m : CappedMap K V size cap) (k : K) :
    (m.remove k).used = m.used - sizeAt size (m.get k) := by
  have hupdate := weight_update size m.finite k none
  have hnone : sizeAt size (none : Option V) = 0 := rfl
  show weight size (Function.update m.get k none) = m.used - _
  rw [used]
  omega

end CappedMap

/-- The sum over the values of a table is the weight of its lookups. -/
theorem AList.weight_lookup [DecidableEq K] (size : V → ℕ) (t : Table K V) :
    weight size t.lookup = t.sumBy size := by
  have hkeys : ∀ k, t.lookup k ≠ none → k ∈ t.keys.toFinset := by
    intro k hk
    obtain ⟨v, hv⟩ := Option.ne_none_iff_exists'.mp hk
    exact List.mem_toFinset.mpr (AList.mem_keys.mp (AList.mem_iff_lookup.mpr ⟨v, hv⟩))
  have hnone : t.keys.filter (· ∉ t.keys) = [] :=
    List.filter_eq_nil_iff.mpr fun k hk => by simpa using hk
  rw [weight_eq_sum hkeys, List.sum_toFinset _ t.keys_nodup,
    AList.sumBy_split t.keys_nodup (fun k hk => AList.mem_keys.mpr hk) size, hnone]
  rfl
