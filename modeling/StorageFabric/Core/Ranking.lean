import Mathlib.Data.Prod.Lex
import StorageFabric.Core.Planner

/-!
The ranking of the planner.

The comparison of the sort is a lexicographic order on a key of the candidate,
and the key tells candidates of different backends apart. So a ranking is
determined by its candidates, in whatever order they come.
-/

namespace StorageFabric

namespace Planner

variable {S : Type} [LinearOrder S]

/-! ### The order of the ranking -/

/-- Where a candidate is ranked: the viable ones first, then by descending score,
then by ascending backend id. -/
def rankKey (p : PlacementCandidate S) : Bool ×ₗ Sᵒᵈ ×ₗ Nat :=
  toLex (!p.viable, toLex (OrderDual.toDual p.score, p.backend.value))

theorem rankLe_iff {a b : PlacementCandidate S} : rankLe a b ↔ rankKey a ≤ rankKey b := by
  rw [rankKey, rankKey, Prod.Lex.toLex_le_toLex, Prod.Lex.toLex_le_toLex]
  unfold rankLe
  by_cases hviable : a.viable = b.viable
  · by_cases hscore : a.score = b.score
    · simp [hviable, hscore]
    · have hlt : b.score < a.score ↔ OrderDual.toDual a.score < OrderDual.toDual b.score :=
        OrderDual.toDual_lt_toDual.symm
      simp [hviable, hscore]
  · cases ha : a.viable <;> cases hb : b.viable <;> simp_all

instance : Std.Total (rankLe (S := S)) where
  total a b := by
    rw [rankLe_iff, rankLe_iff]
    exact le_total _ _

instance : IsTrans (PlacementCandidate S) rankLe where
  trans a b c hab hbc := by
    rw [rankLe_iff] at hab hbc ⊢
    exact hab.trans hbc

omit [LinearOrder S] in
theorem backend_eq_of_rankKey {a b : PlacementCandidate S} (h : rankKey a = rankKey b) :
    a.backend = b.backend := by
  have hinner := (Prod.mk.inj (toLex.injective h)).2
  exact StrongId.ext (Prod.mk.inj (toLex.injective hinner)).2

/-! ### Hard constraints -/

theorem violated_none_iff {req : PlanRequest} {c : TierCandidate} :
    violated req c = .none ↔
      (c.health = .known .healthy ∨ c.health = .known .degraded) ∧
      (req.maxObjectBytes ≠ 0 → req.logicalSize ≤ req.maxObjectBytes) ∧
      (c.capacityUnknown = true ∨ req.logicalSize ≤ c.freeBytes) ∧
      (1 < req.requiredReplicas → c.persistent = true) := by
  have havailable : isAvailable c = true ↔
      c.health = .known .healthy ∨ c.health = .known .degraded := by
    simp [isAvailable]
  have hcapacity : capacityOk c req.logicalSize = true ↔
      c.capacityUnknown = true ∨ req.logicalSize ≤ c.freeBytes := by
    simp [capacityOk]
  have hsize : ¬(req.maxObjectBytes ≠ 0 ∧ req.maxObjectBytes < req.logicalSize) ↔
      (req.maxObjectBytes ≠ 0 → req.logicalSize ≤ req.maxObjectBytes) := by
    rw [not_and, UInt64.not_lt]
  have hdurable : ¬(1 < req.requiredReplicas ∧ (!c.persistent) = true) ↔
      (1 < req.requiredReplicas → c.persistent = true) := by
    simp
  rw [← havailable, ← hcapacity, ← hsize, ← hdurable, violated]
  by_cases ha : isAvailable c = true
  · by_cases hlarge : req.maxObjectBytes ≠ 0 ∧ req.maxObjectBytes < req.logicalSize
    · simp [ha, hlarge]
    · by_cases hc : capacityOk c req.logicalSize = true
      · by_cases hp : 1 < req.requiredReplicas ∧ (!c.persistent) = true
        · simp only [ha, hlarge, hc, hp]
          simp
        · simp only [ha, hlarge, hc, hp]
          simp
      · simp [ha, hlarge, hc]
  · simp [ha]

/-- A candidate is viable exactly if no violation is noted for it. -/
theorem hardViolations_eq_nil_iff {req : PlanRequest} {c : TierCandidate} :
    hardViolations req c = [] ↔ violated req c = .none := by
  unfold hardViolations violated
  by_cases ha : isAvailable c = true
  · by_cases hlarge : req.maxObjectBytes ≠ 0 ∧ req.maxObjectBytes < req.logicalSize
    · simp [ha, hlarge]
    · by_cases hc : capacityOk c req.logicalSize = true
      · by_cases hp : 1 < req.requiredReplicas ∧ (!c.persistent) = true
        · simp only [ha, hlarge, hc, hp]
          simp
        · simp only [ha, hlarge, hc, hp]
          simp
      · simp [ha, hlarge, hc]
  · simp [ha]

/-! ### The ranking -/

variable (score : TierCandidate → S) (req : PlanRequest)

theorem ranked_perm : (plan score req).ranked.Perm (req.candidates.map (evaluate score req)) :=
  List.perm_insertionSort rankLe _

theorem ranked_ordered : (plan score req).ranked.Pairwise fun a b => rankKey a ≤ rankKey b :=
  (List.pairwise_insertionSort rankLe (req.candidates.map (evaluate score req))).imp
    fun h => rankLe_iff.mp h

theorem feasible_iff :
    (plan score req).feasible = true ↔ ∃ c ∈ req.candidates, violated req c = .none := by
  show (req.candidates.any fun c => violated req c = .none) = true ↔ _
  simp

theorem viable_of_head {p : PlacementCandidate S} {rest : List (PlacementCandidate S)}
    (hranked : (plan score req).ranked = p :: rest)
    (h : ∃ c ∈ req.candidates, violated req c = .none) : p.viable = true := by
  obtain ⟨c, hc, hviable⟩ := h
  have hmem : evaluate score req c ∈ (plan score req).ranked :=
    (ranked_perm score req).mem_iff.mpr (List.mem_map_of_mem hc)
  have hordered := ranked_ordered score req
  rw [hranked] at hmem hordered
  have heval : (evaluate score req c).viable = true := decide_eq_true hviable
  rcases List.mem_cons.mp hmem with heq | hlater
  · exact heq ▸ heval
  · -- a candidate that is not viable is never before a viable one
    have hle := (List.pairwise_cons.mp hordered).1 _ hlater
    rw [rankKey, rankKey, Prod.Lex.toLex_le_toLex, heval] at hle
    rcases hle with hlt | ⟨heq, -⟩
    · exact absurd hlt (by simp)
    · simpa using heq

theorem selected_eq (h : ∃ c ∈ req.candidates, violated req c = .none) :
    ∃ best rest, (plan score req).ranked = best :: rest ∧
      (plan score req).selected = some best ∧ best.viable = true := by
  obtain ⟨c, hc, -⟩ := id h
  have hmem : evaluate score req c ∈ (plan score req).ranked :=
    (ranked_perm score req).mem_iff.mpr (List.mem_map_of_mem hc)
  cases hranked : (plan score req).ranked with
  | nil =>
      rw [hranked] at hmem
      exact absurd hmem List.not_mem_nil
  | cons best rest =>
      refine ⟨best, rest, rfl, ?_, viable_of_head score req hranked h⟩
      show (if (plan score req).feasible then (plan score req).ranked.head? else none) = _
      rw [if_pos ((feasible_iff score req).mpr h), hranked]
      rfl

/-! ### The order of the candidates -/

omit [LinearOrder S] in
theorem evaluate_congr (cs : List TierCandidate) :
    evaluate score { req with candidates := cs } = evaluate score req := rfl

/-- Candidates of different backends have only one ranking. -/
theorem ranked_of_perm (hids : (req.candidates.map (·.backend)).Nodup) {cs : List TierCandidate}
    (hperm : cs.Perm req.candidates) :
    (plan score { req with candidates := cs }).ranked = (plan score req).ranked := by
  have hcands := ranked_perm score { req with candidates := cs }
  rw [evaluate_congr] at hcands
  have hall : (plan score { req with candidates := cs }).ranked.Perm (plan score req).ranked :=
    hcands.trans ((hperm.map _).trans (ranked_perm score req).symm)
  refine List.Perm.eq_of_pairwise ?_ (ranked_ordered score _) (ranked_ordered score _) hall
  intro a b ha hb hab hba
  have hbackend : a.backend = b.backend := backend_eq_of_rankKey (le_antisymm hab hba)
  obtain ⟨c, hc, rfl⟩ := List.mem_map.mp ((ranked_perm score req).mem_iff.mp (hall.mem_iff.mp ha))
  obtain ⟨c', hc', rfl⟩ := List.mem_map.mp ((ranked_perm score req).mem_iff.mp hb)
  rw [List.inj_on_of_nodup_map hids hc hc' hbackend]

theorem feasible_of_perm {cs : List TierCandidate} (hperm : cs.Perm req.candidates) :
    (plan score { req with candidates := cs }).feasible = (plan score req).feasible := by
  rw [Bool.eq_iff_iff, feasible_iff, feasible_iff]
  exact exists_congr fun c => and_congr_left fun _ => hperm.mem_iff

theorem selected_of_perm (hids : (req.candidates.map (·.backend)).Nodup) {cs : List TierCandidate}
    (hperm : cs.Perm req.candidates) :
    (plan score { req with candidates := cs }).selected = (plan score req).selected := by
  show (if (plan score { req with candidates := cs }).feasible then
    (plan score { req with candidates := cs }).ranked.head? else none) = _
  rw [feasible_of_perm score req hperm, ranked_of_perm score req hids hperm]
  rfl

/-- Ranking is sound, and independent of the order of the candidates. -/
theorem plan_ranks :
    (plan score req).ranked.Perm (req.candidates.map (evaluate score req)) ∧
    ((plan score req).ranked.Pairwise fun a b => rankKey a ≤ rankKey b) ∧
    (∀ c ∈ req.candidates, (evaluate score req c).viable = true ↔
      (c.health = .known .healthy ∨ c.health = .known .degraded) ∧
      (req.maxObjectBytes ≠ 0 → req.logicalSize ≤ req.maxObjectBytes) ∧
      (c.capacityUnknown = true ∨ req.logicalSize ≤ c.freeBytes) ∧
      (1 < req.requiredReplicas → c.persistent = true)) ∧
    ((plan score req).feasible = true ↔
      ∃ c ∈ req.candidates, (evaluate score req c).viable = true) ∧
    ((plan score req).feasible = true → ∃ best rest, (plan score req).ranked = best :: rest ∧
      (plan score req).selected = some best ∧ best.viable = true) ∧
    ((req.candidates.map (·.backend)).Nodup → ∀ cs, cs.Perm req.candidates →
      let other := plan score { req with candidates := cs }
      other.ranked = (plan score req).ranked ∧ other.selected = (plan score req).selected ∧
        other.feasible = (plan score req).feasible) := by
  have hviable : ∀ c, (evaluate score req c).viable = true ↔ violated req c = .none :=
    fun c => decide_eq_true_iff
  refine ⟨ranked_perm score req, ranked_ordered score req, fun c _ => ?_, ?_, fun h => ?_,
    fun hids cs hperm => ?_⟩
  · rw [hviable, violated_none_iff]
  · rw [feasible_iff]
    exact exists_congr fun c => and_congr_right fun _ => (hviable c).symm
  · exact selected_eq score req ((feasible_iff score req).mp h)
  · exact ⟨ranked_of_perm score req hids hperm, selected_of_perm score req hids hperm,
      feasible_of_perm score req hperm⟩

end Planner

end StorageFabric
