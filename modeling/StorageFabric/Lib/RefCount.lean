import StorageFabric.Lib.Table

/-!
Reference counts: a table of counts in which an absent key counts zero.

A reference is taken one at a time and given back in batches. The batch
reports the keys whose entry went away, in order, so that what they stand for
can be reclaimed; the last section says that a key is only reported when the
batch held every reference there was to it.
-/

namespace RefCount

variable {K : Type} [DecidableEq K]

def count (t : Table K Nat) (k : K) : Nat := (t.lookup k).getD 0

def retain (k : K) (t : Table K Nat) : Table K Nat := t.insert k (count t k + 1)

/-- Give back one reference to `k`: the table left, and whether `k` left it. -/
def drop (k : K) (t : Table K Nat) : Table K Nat × Bool :=
  match t.lookup k with
  | none => (t, false)
  | some n => if n - 1 = 0 then (t.erase k, true) else (t.insert k (n - 1), false)

/-- Give back one reference for each element of a list: the table left, and
the elements at which a key left it. -/
def dropAll : List K → Table K Nat → Table K Nat × List K
  | [], t => (t, [])
  | k :: ks, t =>
      let (t, gone) := drop k t
      let (t, reclaimed) := dropAll ks t
      (t, if gone then k :: reclaimed else reclaimed)

theorem count_of_lookup {t : Table K Nat} {k : K} {n : Nat} (h : t.lookup k = some n) :
    count t k = n := by
  simp [count, h]

theorem count_pos_iff {t : Table K Nat} {k : K} :
    0 < count t k ↔ ∃ n, t.lookup k = some n ∧ 0 < n := by
  cases h : t.lookup k <;> simp [count, h]

theorem count_insert (t : Table K Nat) (k k' : K) (n : Nat) :
    count (t.insert k n) k' = if k' = k then n else count t k' := by
  by_cases h : k' = k <;> simp [count, AList.lookup_insert_eq, h]

theorem count_erase (t : Table K Nat) (k k' : K) :
    count (t.erase k) k' = if k' = k then 0 else count t k' := by
  by_cases h : k' = k <;> simp [count, AList.lookup_erase_eq, h]

theorem count_retain (t : Table K Nat) (k k' : K) :
    count (retain k t) k' = count t k' + if k' = k then 1 else 0 := by
  rw [retain, count_insert]
  by_cases h : k' = k
  · subst h; simp
  · simp [h]

theorem perm_keys_retain {t : Table K Nat} {k : K} (h : k ∈ t) :
    (retain k t).keys.Perm t.keys := by
  rw [retain, AList.keys_insert]
  exact (List.perm_cons_erase (AList.mem_keys.mp h)).symm

theorem count_foldl_retain {A : Type} (key : A → K) (as : List A) (t : Table K Nat) (k : K) :
    count (as.foldl (fun t a => retain (key a) t) t) k = count t k + (as.map key).count k := by
  induction as generalizing t with
  | nil => simp
  | cons a as ih =>
      rw [List.foldl_cons, ih, count_retain, List.map_cons, List.count_cons]
      by_cases h : key a = k
      · subst h
        simp
        omega
      · simp [h, Ne.symm h]

theorem mem_of_count_pos {t : Table K Nat} {k : K} (h : 0 < count t k) : k ∈ t := by
  obtain ⟨n, hn, -⟩ := count_pos_iff.mp h
  exact AList.mem_iff_lookup.mpr ⟨n, hn⟩

theorem count_drop (t : Table K Nat) (k k' : K) :
    count (drop k t).1 k' = count t k' - if k' = k then 1 else 0 := by
  unfold drop
  cases hk : t.lookup k with
  | none =>
      have hzero : count t k = 0 := by simp [count, hk]
      by_cases h : k' = k
      · subst h; simp [hzero]
      · simp [h]
  | some n =>
      have hn : count t k = n := count_of_lookup hk
      by_cases hlast : n - 1 = 0
      · by_cases h : k' = k
        · subst h; simp [hlast, count_erase, hn]
        · simp [hlast, count_erase, h]
      · by_cases h : k' = k
        · subst h; simp [hlast, count_insert, hn]
        · simp [hlast, count_insert, h]

theorem count_dropAll (ks : List K) (t : Table K Nat) (k : K) :
    count (dropAll ks t).1 k = count t k - ks.count k := by
  induction ks generalizing t with
  | nil => simp [dropAll]
  | cons a ks ih =>
      have hstep := count_drop t a k
      simp only [dropAll, ih, hstep, List.count_cons]
      by_cases h : a = k
      · subst h; simp; omega
      · simp [h, Ne.symm h]

theorem count_le_one_of_drop {t : Table K Nat} {k : K} (h : (drop k t).2 = true) :
    count t k ≤ 1 := by
  unfold drop at h
  cases hk : t.lookup k with
  | none => simp [hk] at h
  | some n =>
      rw [count_of_lookup hk]
      by_cases hlast : n - 1 = 0
      · omega
      · simp [hk, hlast] at h

theorem count_le_of_mem_dropAll {ks : List K} {t : Table K Nat} {k : K}
    (h : k ∈ (dropAll ks t).2) : count t k ≤ ks.count k := by
  induction ks generalizing t with
  | nil => simp [dropAll] at h
  | cons a ks ih =>
      have hrest : k ∈ (dropAll ks (drop a t).1).2 →
          count t k ≤ (a :: ks).count k := by
        intro hmem
        have hle := ih hmem
        rw [count_drop] at hle
        rw [List.count_cons]
        by_cases h : a = k
        · subst h; simp at hle ⊢; omega
        · simp [h, Ne.symm h] at hle ⊢; omega
      simp only [dropAll] at h
      by_cases hgone : (drop a t).2 = true
      · rw [if_pos hgone] at h
        rcases List.mem_cons.mp h with rfl | hmem
        · have := count_le_one_of_drop hgone
          rw [List.count_cons_self]
          omega
        · exact hrest hmem
      · rw [if_neg hgone] at h
        exact hrest h

end RefCount
