import Mathlib.Data.List.Dedup
import Mathlib.Data.List.Perm.Basic

/-!
The first element of each class of a list: a scan that keeps an element if its
key was not seen before.

What such a scan keeps is one element for each key. Which one it is depends on
the order of the list, and the last rule says when it does not.
-/

namespace List

variable {α κ : Type} [DecidableEq κ]

/-- The elements of a list with a key that is neither in `seen` nor the key of an
element before. -/
def firsts (g : α → κ) : List κ → List α → List α
  | _, [] => []
  | seen, a :: l => if g a ∈ seen then firsts g seen l else a :: firsts g (g a :: seen) l

variable {g : α → κ} {seen : List κ} {l : List α}

theorem firsts_sublist : (firsts g seen l).Sublist l := by
  induction l generalizing seen with
  | nil => exact .slnil
  | cons a l ih =>
      rw [firsts]
      split
      · exact ih.cons a
      · exact ih.cons_cons a

theorem mem_map_firsts {k : κ} : k ∈ (firsts g seen l).map g ↔ k ∉ seen ∧ k ∈ l.map g := by
  induction l generalizing seen with
  | nil => simp [firsts]
  | cons a l ih =>
      rw [firsts]
      split
      · next hseen =>
          rw [ih, map_cons, mem_cons]
          refine and_congr_right fun hk => ?_
          exact ⟨.inr, fun h => h.resolve_left fun heq => hk (heq ▸ hseen)⟩
      · next hseen =>
          rw [map_cons, mem_cons, ih, map_cons, mem_cons, mem_cons]
          by_cases hk : k = g a
          · simp [hk, hseen]
          · simp [hk]

theorem nodup_map_firsts : ((firsts g seen l).map g).Nodup := by
  induction l generalizing seen with
  | nil => exact .nil
  | cons a l ih =>
      rw [firsts]
      split
      · exact ih
      · rw [map_cons, nodup_cons, mem_map_firsts]
        exact ⟨fun h => h.1 mem_cons_self, ih⟩

theorem length_firsts : (firsts g [] l).length = (l.map g).dedup.length := by
  have hperm : ((firsts g [] l).map g).Perm (l.map g).dedup := by
    rw [perm_ext_iff_of_nodup nodup_map_firsts (nodup_dedup _)]
    intro k
    rw [mem_map_firsts, mem_dedup]
    exact and_iff_right not_mem_nil
  rw [← hperm.length_eq, length_map]

theorem firsts_eq_self (hl : (l.map g).Nodup) (hseen : ∀ a ∈ l, g a ∉ seen) :
    firsts g seen l = l := by
  induction l generalizing seen with
  | nil => rfl
  | cons a l ih =>
      obtain ⟨ha, hl⟩ := nodup_cons.mp hl
      rw [firsts, if_neg (hseen a mem_cons_self), ih hl]
      intro b hb hmem
      rcases mem_cons.mp hmem with heq | hmem
      · exact ha (heq ▸ mem_map_of_mem hb)
      · exact hseen b (mem_cons_of_mem a hb) hmem

/-- An element is among the first `n` that are kept if it is the first of its key and
fewer than `n` were kept before. -/
theorem mem_take_firsts {n : Nat} {a : α} :
    a ∈ (firsts g seen l).take n ↔ ∃ pre post, l = pre ++ a :: post ∧ g a ∉ seen ∧
      g a ∉ pre.map g ∧ (firsts g seen pre).length < n := by
  induction l generalizing seen n with
  | nil => simp [firsts]
  | cons b l ih =>
      constructor
      · intro h
        rw [firsts] at h
        split at h
        · next hb =>
            obtain ⟨pre, post, rfl, ha, hpre, hlt⟩ := ih.mp h
            refine ⟨b :: pre, post, rfl, ha, ?_, ?_⟩
            · rw [map_cons, mem_cons, not_or]
              exact ⟨fun heq => ha (heq ▸ hb), hpre⟩
            · rwa [firsts, if_pos hb]
        · next hb =>
            cases n with
            | zero => cases h
            | succ n =>
                rw [take_succ_cons] at h
                rcases mem_cons.mp h with rfl | h
                · exact ⟨[], l, rfl, hb, not_mem_nil, Nat.succ_pos n⟩
                · obtain ⟨pre, post, rfl, ha, hpre, hlt⟩ := ih.mp h
                  rw [mem_cons, not_or] at ha
                  refine ⟨b :: pre, post, rfl, ha.2, ?_, ?_⟩
                  · rw [map_cons, mem_cons, not_or]
                    exact ⟨ha.1, hpre⟩
                  · rw [firsts, if_neg hb]
                    exact Nat.succ_lt_succ hlt
      · rintro ⟨pre, post, heq, ha, hpre, hlt⟩
        cases pre with
        | nil =>
            obtain ⟨rfl, rfl⟩ := cons.inj heq
            rw [firsts, if_neg ha]
            cases n with
            | zero => cases hlt
            | succ n => exact mem_cons_self
        | cons c pre =>
            obtain ⟨rfl, rfl⟩ := cons.inj heq
            rw [map_cons, mem_cons, not_or] at hpre
            rw [firsts] at hlt ⊢
            split at hlt
            · next hb =>
                rw [if_pos hb]
                exact ih.mpr ⟨pre, post, rfl, ha, hpre.2, hlt⟩
            · next hb =>
                rw [if_neg hb]
                cases n with
                | zero => cases hlt
                | succ n =>
                    refine mem_cons_of_mem _ (ih.mpr ⟨pre, post, rfl, ?_, hpre.2, ?_⟩)
                    · rw [mem_cons, not_or]
                      exact ⟨hpre.1, ha⟩
                    · exact Nat.lt_of_succ_lt_succ hlt

/-- The first `n` elements that are kept are the same in every order exactly if all
elements are kept and are no more than `n`. -/
theorem take_firsts_perm_iff [DecidableEq α] {n : Nat} (hn : 0 < n) (hl : l.Nodup) :
    (∀ l', l'.Perm l → ∀ a, a ∈ (firsts g [] l').take n ↔ a ∈ (firsts g [] l).take n) ↔
      (l.map g).Nodup ∧ l.length ≤ n := by
  constructor
  · intro h
    -- an element moved to the front is kept
    have hall : l ⊆ (firsts g [] l).take n := by
      intro a ha
      refine (h (a :: l.erase a) (perm_cons_erase ha).symm a).mp (mem_take_firsts.mpr ?_)
      exact ⟨[], l.erase a, rfl, not_mem_nil, not_mem_nil, hn⟩
    have hle : l.length ≤ ((firsts g [] l).take n).length := (subperm_of_subset hl hall).length_le
    rw [length_take] at hle
    have hkeep : firsts g [] l = l := firsts_sublist.eq_of_length_le (by omega)
    refine ⟨?_, by omega⟩
    have hnodup : ((firsts g [] l).map g).Nodup := nodup_map_firsts
    rwa [hkeep] at hnodup
  · rintro ⟨hkeys, hlength⟩ l' hperm a
    have hkeys' : (l'.map g).Nodup := (hperm.map g).nodup_iff.mpr hkeys
    rw [firsts_eq_self hkeys fun _ _ => not_mem_nil, firsts_eq_self hkeys' fun _ _ => not_mem_nil,
      take_of_length_le hlength, take_of_length_le (hperm.length_eq ▸ hlength)]
    exact hperm.mem_iff

end List
