import Mathlib.Data.List.AList
import Mathlib.Algebra.Order.BigOperators.Group.List
import Mathlib.Algebra.Order.Ring.Nat

/-!
Finite tables: association lists with one entry per key, together with the
operations of a hash map that Mathlib's `AList` does not have (update in
place, insert only when absent) and sums over the values held.

An update in place keeps the position of the entry, so a table is never
reordered by a change of one of its values. That is what makes two updates
of different keys commute on the nose and not only up to permutation.
-/

/-- A finite map from `K` to `V`, kept as a list with one entry per key. -/
abbrev Table (K V : Type) := AList fun _ : K => V

namespace AList

variable {K V : Type}

def values (t : Table K V) : List V := t.entries.map Sigma.snd

section Modify

variable [DecidableEq K]

def modify (k : K) (f : V → V) (t : Table K V) : Table K V where
  entries := t.entries.map fun e => if e.1 = k then ⟨e.1, f e.2⟩ else e
  nodupKeys := by
    have hkeys : (t.entries.map fun e => if e.1 = k then (⟨e.1, f e.2⟩ : Σ _ : K, V) else e).keys =
        t.entries.keys := by
      simp only [List.keys, List.map_map]
      refine List.map_congr_left fun e _ => ?_
      simp only [Function.comp]
      split <;> rfl
    simpa only [List.NodupKeys, hkeys] using t.nodupKeys

def emplace (k : K) (v : V) (t : Table K V) : Table K V :=
  if k ∈ t then t else t.insert k v

theorem keys_modify (k : K) (f : V → V) (t : Table K V) : (modify k f t).keys = t.keys := by
  simp only [AList.keys, modify, List.keys, List.map_map]
  refine List.map_congr_left fun e _ => ?_
  simp only [Function.comp]
  split <;> rfl

@[simp] theorem mem_modify {k k' : K} {f : V → V} {t : Table K V} :
    k' ∈ modify k f t ↔ k' ∈ t := by
  rw [AList.mem_keys, AList.mem_keys, keys_modify]

theorem dlookup_map_update (k k' : K) (f : V → V) (l : List (Σ _ : K, V)) :
    (l.map fun e => if e.1 = k then (⟨e.1, f e.2⟩ : Σ _ : K, V) else e).dlookup k' =
      if k' = k then (l.dlookup k').map f else l.dlookup k' := by
  induction l with
  | nil => simp
  | cons e l ih =>
      obtain ⟨a, v⟩ := e
      by_cases hk' : k' = a
      · subst hk'
        by_cases hk : k' = k
        · subst hk; simp
        · simp [hk]
      · have hhead : k' ≠ (if a = k then (⟨a, f v⟩ : Σ _ : K, V) else ⟨a, v⟩).1 := by
          split <;> exact hk'
        rw [List.map_cons, List.dlookup_cons_ne _ _ hhead, ih, List.dlookup_cons_ne _ _ hk']

@[simp] theorem lookup_modify_self (k : K) (f : V → V) (t : Table K V) :
    (modify k f t).lookup k = (t.lookup k).map f := by
  simpa [AList.lookup, modify] using dlookup_map_update k k f t.entries

theorem lookup_modify_ne {k k' : K} (h : k' ≠ k) (f : V → V) (t : Table K V) :
    (modify k f t).lookup k' = t.lookup k' := by
  simpa [AList.lookup, modify, h] using dlookup_map_update k k' f t.entries

theorem lookup_modify (k k' : K) (f : V → V) (t : Table K V) :
    (modify k f t).lookup k' = if k' = k then (t.lookup k').map f else t.lookup k' :=
  dlookup_map_update k k' f t.entries

theorem lookup_modify_eq_some {k k' : K} {f : V → V} {t : Table K V} {v : V} :
    (modify k f t).lookup k' = some v ↔
      ∃ w, t.lookup k' = some w ∧ v = if k' = k then f w else w := by
  rw [lookup_modify]
  by_cases h : k' = k
  · subst h
    simp [eq_comm]
  · simp [h]

theorem lookup_insert_eq_some {k k' : K} {v w : V} {t : Table K V} :
    (t.insert k v).lookup k' = some w ↔
      k' = k ∧ w = v ∨ k' ≠ k ∧ t.lookup k' = some w := by
  by_cases h : k' = k
  · subst h
    simp [eq_comm]
  · simp [h, AList.lookup_insert_ne h]

theorem lookup_insert_eq (k k' : K) (v : V) (t : Table K V) :
    (t.insert k v).lookup k' = if k' = k then some v else t.lookup k' := by
  by_cases h : k' = k
  · subst h; simp
  · simp [h, AList.lookup_insert_ne h]

theorem lookup_erase_eq (k k' : K) (t : Table K V) :
    (t.erase k).lookup k' = if k' = k then none else t.lookup k' := by
  by_cases h : k' = k
  · subst h; simp
  · simp [h, AList.lookup_erase_ne h]

theorem lookup_emplace_of_notMem {k : K} {v : V} {t : Table K V} (h : k ∉ t) (k' : K) :
    (emplace k v t).lookup k' = if k' = k then some v else t.lookup k' := by
  rw [emplace, if_neg h, lookup_insert_eq]

theorem lookup_emplace_of_mem {k k' : K} {v : V} {t : Table K V} (h : k' ∈ t) :
    (emplace k v t).lookup k' = t.lookup k' := by
  by_cases hk : k ∈ t
  · rw [emplace, if_pos hk]
  · have hne : k' ≠ k := fun heq => hk (heq ▸ h)
    rw [emplace, if_neg hk, lookup_insert_ne hne]

theorem modify_of_notMem {k : K} {t : Table K V} (h : k ∉ t) (f : V → V) : modify k f t = t := by
  apply AList.ext
  conv_rhs => rw [← List.map_id t.entries]
  refine List.map_congr_left fun e he => ?_
  have hne : e.1 ≠ k := fun heq => h (heq ▸ List.mem_keys_of_mem he)
  simp [hne]

theorem modify_modify (k : K) (f g : V → V) (t : Table K V) :
    modify k g (modify k f t) = modify k (g ∘ f) t := by
  apply AList.ext
  simp only [modify, List.map_map]
  refine List.map_congr_left fun e _ => ?_
  by_cases h : e.1 = k <;> simp [h]

end Modify

/-! ### Values -/

def sumBy (f : V → Nat) (t : Table K V) : Nat := (t.values.map f).sum

@[simp] theorem sumBy_empty (f : V → Nat) : sumBy f (∅ : Table K V) = 0 := rfl

variable [DecidableEq K]

theorem mem_values {v : V} {t : Table K V} : v ∈ t.values ↔ ∃ k, t.lookup k = some v := by
  simp only [values, List.mem_map]
  constructor
  · rintro ⟨⟨k, w⟩, he, rfl⟩
    exact ⟨k, AList.mem_lookup_iff.mpr he⟩
  · rintro ⟨k, hk⟩
    exact ⟨⟨k, v⟩, AList.mem_lookup_iff.mp hk, rfl⟩

theorem mem_values_of_lookup {k : K} {v : V} {t : Table K V} (h : t.lookup k = some v) :
    v ∈ t.values :=
  mem_values.mpr ⟨k, h⟩

theorem nodup_map_values {α : Type} {f : V → α} {t : Table K V}
    (h : ∀ k k' v v', t.lookup k = some v → t.lookup k' = some v' → f v = f v' → k = k') :
    (t.values.map f).Nodup := by
  rw [values, List.map_map]
  refine List.Nodup.map_on ?_ t.nodupKeys.nodup
  rintro ⟨k, v⟩ he ⟨k', v'⟩ he' hf
  have hk := h k k' v v' (AList.mem_lookup_iff.mpr he) (AList.mem_lookup_iff.mpr he') hf
  subst hk
  have := t.nodupKeys.eq_of_mk_mem he he'
  subst this
  rfl

theorem values_insert_of_notMem {k : K} {v : V} {t : Table K V} (h : k ∉ t) :
    (t.insert k v).values = v :: t.values := by
  rw [values, AList.entries_insert_of_notMem h, List.map_cons, values]

theorem mem_iff_lookup {k : K} {t : Table K V} : k ∈ t ↔ ∃ v, t.lookup k = some v := by
  rw [← AList.lookup_isSome, Option.isSome_iff_exists]

theorem notMem_iff_lookup {k : K} {t : Table K V} : k ∉ t ↔ t.lookup k = none :=
  AList.lookup_eq_none.symm

/-- A table is split by a key it holds into the entries before, the entry and
those after, none of which carries that key. -/
theorem exists_split {k : K} {v : V} {t : Table K V} (h : t.lookup k = some v) :
    ∃ l₁ l₂, t.entries = l₁ ++ ⟨k, v⟩ :: l₂ ∧
      (∀ e ∈ l₁, e.1 ≠ k) ∧ (∀ e ∈ l₂, e.1 ≠ k) := by
  obtain ⟨l₁, l₂, hsplit⟩ := List.append_of_mem (AList.mem_lookup_iff.mp h)
  have hnodup : (l₁ ++ ⟨k, v⟩ :: l₂).NodupKeys := hsplit ▸ t.nodupKeys
  refine ⟨l₁, l₂, hsplit, ?_, ?_⟩
  · intro e he hk
    have hmem := (List.nodupKeys_middle.mp hnodup)
    rw [List.nodupKeys_cons] at hmem
    exact hmem.1 (hk ▸ List.mem_keys_of_mem (s := e) (List.mem_append_left l₂ he))
  · intro e he hk
    have hmem := (List.nodupKeys_middle.mp hnodup)
    rw [List.nodupKeys_cons] at hmem
    exact hmem.1 (hk ▸ List.mem_keys_of_mem (s := e) (List.mem_append_right l₁ he))

theorem map_update_of_ne {k : K} {f : V → V} {l : List (Σ _ : K, V)} (h : ∀ e ∈ l, e.1 ≠ k) :
    (l.map fun e => if e.1 = k then (⟨e.1, f e.2⟩ : Σ _ : K, V) else e) = l := by
  conv_rhs => rw [← List.map_id l]
  exact List.map_congr_left fun e he => by simp [h e he]

theorem values_modify {k : K} {v : V} {t : Table K V} (h : t.lookup k = some v) (f : V → V) :
    ∃ l₁ l₂, t.values = l₁ ++ v :: l₂ ∧ (modify k f t).values = l₁ ++ f v :: l₂ := by
  obtain ⟨l₁, l₂, hsplit, h₁, h₂⟩ := exists_split h
  refine ⟨l₁.map Sigma.snd, l₂.map Sigma.snd, by simp [values, hsplit], ?_⟩
  simp only [values, modify, hsplit, List.map_append, List.map_cons, if_true]
  rw [map_update_of_ne h₁, map_update_of_ne h₂]

/-! ### Sums over the values -/

theorem sumBy_insert_of_notMem {k : K} {v : V} {t : Table K V} (h : k ∉ t) (f : V → Nat) :
    sumBy f (t.insert k v) = f v + sumBy f t := by
  simp [sumBy, values_insert_of_notMem h]

theorem sumBy_modify {k : K} {v : V} {t : Table K V} (h : t.lookup k = some v)
    (f : V → Nat) (g : V → V) :
    sumBy f (modify k g t) + f v = sumBy f t + f (g v) := by
  obtain ⟨l₁, l₂, hv, hg⟩ := values_modify h g
  simp only [sumBy, hv, hg, List.map_append, List.map_cons, List.sum_append, List.sum_cons]
  omega

theorem sumBy_congr {f g : V → Nat} {t : Table K V}
    (h : ∀ k v, t.lookup k = some v → f v = g v) : sumBy f t = sumBy g t := by
  refine congrArg List.sum (List.map_congr_left fun v hv => ?_)
  obtain ⟨k, hk⟩ := mem_values.mp hv
  exact h k v hk

theorem le_sumBy {k : K} {v : V} {t : Table K V} (h : t.lookup k = some v) (f : V → Nat) :
    f v ≤ sumBy f t :=
  List.single_le_sum (by simp) _ (List.mem_map_of_mem (mem_values_of_lookup h))

theorem add_le_sumBy {k k' : K} {v v' : V} {t : Table K V} (hne : k ≠ k')
    (h : t.lookup k = some v) (h' : t.lookup k' = some v') (f : V → Nat) :
    f v + f v' ≤ sumBy f t := by
  obtain ⟨l₁, l₂, hsplit, -, -⟩ := exists_split h
  have hmem' : (⟨k', v'⟩ : Σ _ : K, V) ∈ l₁ ++ l₂ := by
    have := AList.mem_lookup_iff.mp h'
    rw [hsplit] at this
    simp only [List.mem_append, List.mem_cons, Sigma.mk.injEq, hne.symm, false_and,
      false_or] at this
    simpa using this
  have hle : f v' ≤ ((l₁ ++ l₂).map fun e => f e.2).sum :=
    List.single_le_sum (by simp) _ (List.mem_map.mpr ⟨_, hmem', rfl⟩)
  have hsum : sumBy f t = f v + ((l₁ ++ l₂).map fun e => f e.2).sum := by
    simp only [sumBy, values, hsplit, List.map_append, List.map_cons, List.map_map,
      List.sum_append, List.sum_cons, Function.comp_def]
    omega
  omega

/-! ### The values by their keys -/

theorem values_eq_filterMap (t : Table K V) : t.values = t.keys.filterMap t.lookup := by
  have hlookup : ∀ e ∈ t.entries, (t.lookup ∘ Sigma.fst) e = some e.2 :=
    fun e he => AList.mem_lookup_iff.mpr he
  show t.entries.map Sigma.snd = (t.entries.map Sigma.fst).filterMap t.lookup
  rw [List.filterMap_map, List.filterMap_congr hlookup, ← List.filterMap_eq_map']

/-- Two tables that agree on a part of what they hold under each key hold the same
parts, up to the order. -/
theorem perm_values_map {W A : Type} {g : V → A} {g' : W → A} {t : Table K V} {t' : Table K W}
    (h : ∀ k, (t.lookup k).map g = (t'.lookup k).map g') :
    (t.values.map g).Perm (t'.values.map g') := by
  have hmem : ∀ k, k ∈ t.keys ↔ k ∈ t'.keys := by
    intro k
    rw [← AList.mem_keys, ← AList.mem_keys, ← AList.lookup_isSome, ← AList.lookup_isSome,
      ← Option.isSome_map (f := g), h, Option.isSome_map]
  have hkeys : t.keys.Perm t'.keys :=
    (List.perm_ext_iff_of_nodup t.keys_nodup t'.keys_nodup).mpr hmem
  rw [values_eq_filterMap, values_eq_filterMap, List.map_filterMap, List.map_filterMap]
  simp only [h]
  exact hkeys.filterMap _

theorem sumBy_eq_of_lookup {t t' : Table K V} (h : ∀ k, t'.lookup k = t.lookup k) (f : V → Nat) :
    sumBy f t' = sumBy f t :=
  (perm_values_map fun k => congrArg (Option.map f) (h k)).sum_eq

theorem sumBy_split {t : Table K V} {l : List K} (hl : l.Nodup) (hmem : ∀ k ∈ l, k ∈ t)
    (f : V → Nat) :
    sumBy f t = (l.map fun k => ((t.lookup k).map f).getD 0).sum +
      ((t.keys.filter (· ∉ l)).map fun k => ((t.lookup k).map f).getD 0).sum := by
  have hvalues : t.values.map f = t.keys.map fun k => ((t.lookup k).map f).getD 0 := by
    show (t.entries.map Sigma.snd).map f = (t.entries.map Sigma.fst).map _
    rw [List.map_map, List.map_map]
    refine List.map_congr_left fun e he => ?_
    have hlookup : t.lookup e.1 = some e.2 := AList.mem_lookup_iff.mpr he
    simp [hlookup]
  have hperm : t.keys.Perm (l ++ t.keys.filter (· ∉ l)) := by
    have hapart : (l ++ t.keys.filter (· ∉ l)).Nodup := by
      refine hl.append (t.keys_nodup.filter _) fun k hk hk' => ?_
      exact of_decide_eq_true (List.mem_filter.mp hk').2 hk
    refine (List.perm_ext_iff_of_nodup t.keys_nodup hapart).mpr fun k => ?_
    rw [List.mem_append, List.mem_filter, decide_eq_true_eq, ← AList.mem_keys]
    constructor
    · intro hk
      by_cases hin : k ∈ l
      · exact .inl hin
      · exact .inr ⟨hk, hin⟩
    · rintro (hk | ⟨hk, -⟩)
      · exact hmem k hk
      · exact hk
  rw [sumBy, hvalues, (hperm.map _).sum_eq, List.map_append, List.sum_append]

section Keyed

variable {key : V → K} {t : Table K V} (hkey : ∀ k v, t.lookup k = some v → key v = k)
include hkey

/-- Among the values that know their key, those with a given key are what is held
under it. -/
theorem filter_values (k : K) : (t.values.filter fun v => key v = k) = (t.lookup k).toList := by
  have hnone : ∀ l : List (Σ _ : K, V), (∀ e ∈ l, e ∈ t.entries) → (∀ e ∈ l, e.1 ≠ k) →
      ((l.map Sigma.snd).filter fun v => key v = k) = [] := by
    intro l hl hne
    rw [List.filter_eq_nil_iff]
    intro v hv hk
    obtain ⟨e, he, rfl⟩ := List.mem_map.mp hv
    exact hne e he ((hkey e.1 e.2 (AList.mem_lookup_iff.mpr (hl e he))).symm.trans (of_decide_eq_true hk))
  cases hv : t.lookup k with
  | none =>
      refine hnone t.entries (fun e he => he) ?_
      rintro ⟨k', v⟩ he rfl
      rw [AList.mem_lookup_iff.mpr he] at hv
      cases hv
  | some v =>
      obtain ⟨l₁, l₂, hsplit, h₁, h₂⟩ := exists_split hv
      have hself : decide (key v = k) = true := decide_eq_true (hkey k v hv)
      have hsub₁ : ∀ e ∈ l₁, e ∈ t.entries := fun e he => hsplit ▸ List.mem_append_left _ he
      have hsub₂ : ∀ e ∈ l₂, e ∈ t.entries := fun e he =>
        hsplit ▸ List.mem_append_right _ (List.mem_cons_of_mem _ he)
      rw [values, hsplit, List.map_append, List.filter_append, List.map_cons, hnone l₁ hsub₁ h₁,
        List.filter_cons, if_pos hself, hnone l₂ hsub₂ h₂]
      rfl

theorem find?_values (k : K) : (t.values.find? fun v => key v = k) = t.lookup k := by
  rw [← List.head?_filter, filter_values hkey]
  cases t.lookup k <;> rfl

end Keyed

/-! ### Loops that fill a table -/

section Loops

variable {A : Type}

def emplaceAll (key : A → K) (val : A → V) (t : Table K V) (as : List A) : Table K V :=
  as.foldl (fun t a => t.emplace (key a) (val a)) t

def modifyAll (key : A → K) (upd : A → V → V) (t : Table K V) (as : List A) : Table K V :=
  as.foldl (fun t a => t.modify (key a) (upd a)) t

theorem lookup_emplaceAll (key : A → K) (val : A → V) (t : Table K V) (as : List A) (k : K) :
    (emplaceAll key val t as).lookup k =
      (t.lookup k).or ((as.find? fun a => key a = k).map val) := by
  induction as generalizing t with
  | nil => simp [emplaceAll]
  | cons a as ih =>
      show (emplaceAll key val (t.emplace (key a) (val a)) as).lookup k = _
      rw [ih]
      by_cases hk : key a = k
      · subst hk
        rw [List.find?_cons_of_pos (by simp), Option.map_some]
        cases ht : t.lookup (key a) with
        | none =>
            rw [lookup_emplace_of_notMem (AList.lookup_eq_none.mp ht), if_pos rfl]
            rfl
        | some v =>
            rw [lookup_emplace_of_mem (mem_iff_lookup.mpr ⟨v, ht⟩), ht]
            rfl
      · have hemplace : (t.emplace (key a) (val a)).lookup k = t.lookup k := by
          by_cases hmem : key a ∈ t
          · rw [emplace, if_pos hmem]
          · rw [lookup_emplace_of_notMem hmem, if_neg (Ne.symm hk)]
        rw [List.find?_cons_of_neg (by simpa using hk), hemplace]

theorem sumBy_emplaceAll {key : A → K} {val : A → V} {f : V → Nat} {as : List A} {t : Table K V}
    (h : ∀ a ∈ as, key a ∉ t → f (val a) = 0) :
    sumBy f (emplaceAll key val t as) = sumBy f t := by
  induction as generalizing t with
  | nil => rfl
  | cons a as ih =>
      show sumBy f (emplaceAll key val (t.emplace (key a) (val a)) as) = _
      by_cases hmem : key a ∈ t
      · rw [emplace, if_pos hmem]
        exact ih fun b hb => h b (List.mem_cons_of_mem a hb)
      · rw [emplace, if_neg hmem, ih, sumBy_insert_of_notMem hmem, h a List.mem_cons_self hmem,
          Nat.zero_add]
        intro b hb hnew
        exact h b (List.mem_cons_of_mem a hb) fun hold =>
          hnew ((AList.mem_insert _).mpr (.inr hold))

theorem lookup_modifyAll (key : A → K) (upd : A → V → V) (t : Table K V) (as : List A) (k : K) :
    (modifyAll key upd t as).lookup k =
      (t.lookup k).map fun v => (as.filter fun a => key a = k).foldl (fun v a => upd a v) v := by
  induction as generalizing t with
  | nil => simp [modifyAll]
  | cons a as ih =>
      show (modifyAll key upd (t.modify (key a) (upd a)) as).lookup k = _
      rw [ih, lookup_modify]
      by_cases hk : key a = k
      · have hself : decide (key a = k) = true := decide_eq_true hk
        rw [if_pos hk.symm, List.filter_cons, if_pos hself, Option.map_map]
        rfl
      · rw [if_neg (Ne.symm hk), List.filter_cons_of_neg (by simpa using hk)]

end Loops

/-! ### Properties of all entries -/

section All

variable {P : K → V → Prop} {t : Table K V}

def All (P : K → V → Prop) (t : Table K V) : Prop := ∀ k v, t.lookup k = some v → P k v

theorem all_empty : (∅ : Table K V).All P := fun _ _ h => nomatch h

theorem All.insert (h : t.All P) {k : K} {v : V} (hv : P k v) : (t.insert k v).All P := by
  intro k' w hw
  obtain ⟨rfl, rfl⟩ | ⟨-, hold⟩ := lookup_insert_eq_some.mp hw
  · exact hv
  · exact h k' w hold

theorem All.emplace (h : t.All P) {k : K} {v : V} (hv : P k v) : (t.emplace k v).All P := by
  rw [AList.emplace]
  split
  · exact h
  · exact h.insert hv

theorem All.modify (h : t.All P) {k : K} {f : V → V} (hf : ∀ v, P k v → P k (f v)) :
    (t.modify k f).All P := by
  intro k' w hw
  obtain ⟨v, hv, rfl⟩ := lookup_modify_eq_some.mp hw
  by_cases hk : k' = k
  · subst hk
    rw [if_pos rfl]
    exact hf v (h k' v hv)
  · rw [if_neg hk]
    exact h k' v hv

theorem All.foldl {A : Type} {step : Table K V → A → Table K V} {as : List A}
    (hstep : ∀ t, ∀ a ∈ as, t.All P → (step t a).All P) (h : t.All P) :
    (as.foldl step t).All P := by
  induction as generalizing t with
  | nil => exact h
  | cons a as ih =>
      refine ih (fun t b hb => hstep t b (List.mem_cons_of_mem a hb)) ?_
      exact hstep t a List.mem_cons_self h

theorem All.emplaceAll {A : Type} {key : A → K} {val : A → V} {as : List A} (h : t.All P)
    (has : ∀ a ∈ as, P (key a) (val a)) : (AList.emplaceAll key val t as).All P :=
  All.foldl (fun _ a ha ht => ht.emplace (has a ha)) h

theorem All.modifyAll {A : Type} {key : A → K} {upd : A → V → V} {as : List A} (h : t.All P)
    (has : ∀ a ∈ as, ∀ v, P (key a) v → P (key a) (upd a v)) :
    (AList.modifyAll key upd t as).All P :=
  All.foldl (fun _ a ha ht => ht.modify (has a ha)) h

end All

end AList
