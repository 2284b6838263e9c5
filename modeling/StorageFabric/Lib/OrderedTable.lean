import Mathlib.Data.List.Pairwise
import Mathlib.Order.Defs.Unbundled

/-!
Ordered tables: maps kept as a list of entries in strictly ascending order of
the keys, the way a search tree iterates. The order is a parameter; two keys
neither of which precedes the other count as the same key.
-/

variable {K V : Type} {r : K → K → Prop}

/-- A map from `K` to `V`, listed in the order `r` of its keys. -/
structure OrderedTable (K V : Type) (r : K → K → Prop) where
  entries : List (K × V)
  ordered : entries.Pairwise fun a b => r a.1 b.1

namespace OrderedTable

@[ext] theorem ext {s t : OrderedTable K V r} (h : s.entries = t.entries) : s = t := by
  cases s; cases t; simpa using h

instance [DecidableEq K] [DecidableEq V] : DecidableEq (OrderedTable K V r) := fun s t =>
  decidable_of_iff (s.entries = t.entries) ⟨ext, congrArg entries⟩

def empty : OrderedTable K V r := ⟨[], List.Pairwise.nil⟩

instance : Inhabited (OrderedTable K V r) := ⟨empty⟩

theorem eq_of_incomparable {t : OrderedTable K V r} {a b : K × V} (ha : a ∈ t.entries)
    (hb : b ∈ t.entries) (hab : ¬r a.1 b.1) (hba : ¬r b.1 a.1) : a = b := by
  let R : K × V → K × V → Prop := fun a b => ¬r a.1 b.1 → ¬r b.1 a.1 → a = b
  have hsymm : Std.Symm R := ⟨fun _ _ h hab hba => (h hba hab).symm⟩
  have hpairwise : t.entries.Pairwise R := t.ordered.imp fun hlt hnot => absurd hlt hnot
  exact hpairwise.forall_of_forall (fun _ _ _ _ => rfl) ha hb hab hba

/-- Entries that are nowhere out of order are in the order of the table. -/
theorem entries_eq_of_perm [Std.Asymm r] {t : OrderedTable K V r} {es : List (K × V)}
    (hperm : es.Perm t.entries) (h : es.Pairwise fun a b => ¬r b.1 a.1) : es = t.entries := by
  refine hperm.eq_of_pairwise (fun a b ha hb hab hba => ?_) h
    (t.ordered.imp fun hlt => Std.Asymm.asymm _ _ hlt)
  exact eq_of_incomparable (hperm.subset ha) hb hba hab

section Insert

variable [DecidableRel r]

def contains (k : K) (t : OrderedTable K V r) : Bool :=
  t.entries.any fun e => !decide (r k e.1) && !decide (r e.1 k)

/-- Insert an entry at its place, unless an equivalent key is there. -/
def insertEntry (k : K) (v : V) : List (K × V) → List (K × V)
  | [] => [(k, v)]
  | e :: es =>
      if r k e.1 then (k, v) :: e :: es
      else if r e.1 k then e :: insertEntry k v es
      else e :: es

theorem mem_insertEntry {k : K} {v : V} {es : List (K × V)} {e : K × V}
    (h : e ∈ insertEntry (r := r) k v es) : e = (k, v) ∨ e ∈ es := by
  induction es with
  | nil => simpa [insertEntry] using h
  | cons d es ih =>
      simp only [insertEntry] at h
      split at h
      · simpa using h
      · split at h
        · rcases List.mem_cons.mp h with rfl | h
          · simp
          · rcases ih h with rfl | h <;> simp [*]
        · exact .inr h

theorem pairwise_insertEntry [IsTrans K r] (k : K) (v : V) {es : List (K × V)}
    (h : es.Pairwise fun a b => r a.1 b.1) :
    (insertEntry (r := r) k v es).Pairwise fun a b => r a.1 b.1 := by
  induction es with
  | nil => simp [insertEntry]
  | cons d es ih =>
      rw [List.pairwise_cons] at h
      simp only [insertEntry]
      split
      · next hk =>
          refine List.pairwise_cons.mpr ⟨?_, List.pairwise_cons.mpr h⟩
          intro e he
          rcases List.mem_cons.mp he with rfl | he
          · exact hk
          · exact IsTrans.trans _ _ _ hk (h.1 e he)
      · split
        · next hk =>
            refine List.pairwise_cons.mpr ⟨?_, ih h.2⟩
            intro e he
            rcases mem_insertEntry he with rfl | he
            · exact hk
            · exact h.1 e he
        · exact List.pairwise_cons.mpr h

def emplace [IsTrans K r] (k : K) (v : V) (t : OrderedTable K V r) : OrderedTable K V r :=
  ⟨insertEntry (r := r) k v t.entries, pairwise_insertEntry k v t.ordered⟩

theorem insertEntry_of_last [Std.Asymm r] {k : K} {v : V} {es : List (K × V)}
    (h : ∀ e ∈ es, r e.1 k) : insertEntry (r := r) k v es = es ++ [(k, v)] := by
  induction es with
  | nil => rfl
  | cons d es ih =>
      have hd : r d.1 k := h d (by simp)
      have hnot : ¬ r k d.1 := Std.Asymm.asymm _ _ hd
      simp only [insertEntry, if_neg hnot, if_pos hd, List.cons_append, List.cons.injEq, true_and]
      exact ih fun e he => h e (List.mem_cons_of_mem _ he)

theorem contains_of_last {k : K} {t : OrderedTable K V r} (h : ∀ e ∈ t.entries, r e.1 k) :
    t.contains k = false := by
  simp only [contains, List.any_eq_false, Bool.and_eq_true, Bool.not_eq_true',
    decide_eq_false_iff_not, not_and, not_not]
  exact fun e he _ => h e he

theorem perm_insertEntry {k : K} (v : V) {es : List (K × V)}
    (h : ∀ e ∈ es, r k e.1 ∨ r e.1 k) : (insertEntry (r := r) k v es).Perm ((k, v) :: es) := by
  induction es with
  | nil => exact .refl _
  | cons d es ih =>
      simp only [insertEntry]
      split
      · exact .refl _
      · next hk =>
          rw [if_pos ((h d List.mem_cons_self).resolve_left hk)]
          have htail := ih fun e he => h e (List.mem_cons_of_mem d he)
          exact (htail.cons d).trans (.swap _ _ _)

theorem perm_emplace [IsTrans K r] {k : K} {t : OrderedTable K V r} (h : ¬t.contains k = true)
    (v : V) : (t.emplace k v).entries.Perm ((k, v) :: t.entries) := by
  refine perm_insertEntry v fun e he => ?_
  by_contra hneither
  rw [not_or] at hneither
  exact h (List.any_eq_true.mpr ⟨e, he, by simp [hneither.1, hneither.2]⟩)

end Insert

end OrderedTable
