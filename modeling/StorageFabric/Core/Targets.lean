import StorageFabric.Core.Ranking
import StorageFabric.Lib.Firsts

/-!
The replica targets of the planner.

The scan takes the first available candidate of each failure domain until it
has enough. It asks only for health, so it may take a candidate that the
ranking rejected, and it goes by the order of the candidates, so another order
may give other targets.
-/

namespace StorageFabric

namespace Planner

def replicaPlan (c : TierCandidate) : ReplicaPlan := ⟨c.backend, c.tier, c.failureDomain⟩

/-- The candidates that the scan looks at. -/
def available (cs : List TierCandidate) : List TierCandidate := cs.filter fun c => isAvailable c

def viable (req : PlanRequest) : List TierCandidate :=
  req.candidates.filter fun c => violated req c = .none

def failureDomains (cs : List TierCandidate) : List Bytes := (cs.map (·.failureDomain)).dedup

theorem replicaTargets_eq {required : UInt32} {domains : List Bytes} {targets : List ReplicaPlan}
    {cs : List TierCandidate} (h : targets.length < required.toNat) :
    replicaTargets required domains targets cs =
      targets ++ ((List.firsts TierCandidate.failureDomain domains (available cs)).take
        (required.toNat - targets.length)).map replicaPlan := by
  induction cs generalizing domains targets with
  | nil => simp [replicaTargets, available, List.firsts]
  | cons c cs ih =>
      rw [replicaTargets]
      by_cases hhealth : c.health ≠ .known .healthy ∧ c.health ≠ .known .degraded
      · have hout : isAvailable c = false := by simp [isAvailable, hhealth]
        have hcs : available (c :: cs) = available cs := List.filter_cons_of_neg (by simp [hout])
        rw [if_pos hhealth, ih h, hcs]
      · have hin : isAvailable c = true := by
          rw [not_and_or, not_not, not_not] at hhealth
          simpa [isAvailable] using hhealth
        have hcs : available (c :: cs) = c :: available cs := List.filter_cons_of_pos hin
        rw [if_neg hhealth, hcs, List.firsts]
        by_cases hseen : c.failureDomain ∈ domains
        · have hroom : ¬required.toNat ≤ targets.length := Nat.not_le.mpr h
          simp only [hseen, not_true_eq_false, decide_false, Bool.false_eq_true, if_false, hroom,
            if_true]
          exact ih h
        · obtain ⟨n, hn⟩ : ∃ n, required.toNat - targets.length = n + 1 :=
            ⟨required.toNat - targets.length - 1, by omega⟩
          simp only [hseen, not_false_eq_true, decide_true, if_true, if_false]
          rw [hn, List.take_succ_cons, List.map_cons]
          have hlength : (targets ++ [replicaPlan c]).length = targets.length + 1 :=
            List.length_append
          by_cases hfull : required.toNat ≤ (targets ++ [replicaPlan c]).length
          · have hzero : n = 0 := by omega
            rw [hzero, List.take_zero]
            exact if_pos hfull
          · have hrest : required.toNat - (targets ++ [replicaPlan c]).length = n := by omega
            refine (if_neg hfull).trans ((ih (Nat.lt_of_not_le hfull)).trans ?_)
            rw [hrest, List.append_assoc]
            rfl

variable {S : Type} [LinearOrder S] {score : TierCandidate → S} {req : PlanRequest}

theorem viable_ne_nil_iff : viable req ≠ [] ↔ ∃ c ∈ req.candidates, violated req c = .none := by
  rw [viable, Ne, List.filter_eq_nil_iff]
  simp

theorem replicaTargets_plan (hreplicas : 1 < req.requiredReplicas) (hviable : viable req ≠ []) :
    (plan score req).replicaTargets =
      ((List.firsts TierCandidate.failureDomain [] (available req.candidates)).take
        req.requiredReplicas.toNat).map replicaPlan := by
  have hfeasible := (feasible_iff score req).mpr (viable_ne_nil_iff.mp hviable)
  have hroom : ([] : List ReplicaPlan).length < req.requiredReplicas.toNat :=
    Nat.lt_trans Nat.one_pos (UInt32.lt_iff_toNat_lt.mp hreplicas)
  show (if (plan score req).feasible ∧ 1 < req.requiredReplicas then
    replicaTargets req.requiredReplicas [] [] req.candidates else []) = _
  rw [if_pos ⟨hfeasible, hreplicas⟩, replicaTargets_eq hroom]
  rfl

theorem replicaTargets_plan_nil (h : req.requiredReplicas ≤ 1 ∨ viable req = []) :
    (plan score req).replicaTargets = [] := by
  refine if_neg fun hboth => ?_
  rcases h with hle | hnil
  · exact UInt32.not_lt.mpr hle hboth.2
  · exact viable_ne_nil_iff.mpr ((feasible_iff score req).mp hboth.1) hnil

/-! ### Targets that can be used -/

/-- The replica targets are candidates that pass the hard constraints, in different
failure domains, and as many as there can be. -/
structure TargetsPlaceable (score : TierCandidate → S) (req : PlanRequest) : Prop where
  passes : ∀ t ∈ (plan score req).replicaTargets, ∃ c ∈ viable req, replicaPlan c = t
  diverse : ((plan score req).replicaTargets.map (·.failureDomain)).Nodup
  maximal : (plan score req).replicaTargets.length =
    min req.requiredReplicas.toNat (failureDomains (viable req)).length

/-- Each available candidate that is the first of its failure domain, with fewer
domains before it than are required, passes the hard constraints, or another
candidate with its backend, tier and domain does. -/
def FirstsViable (req : PlanRequest) : Prop :=
  ∀ pre c post, available req.candidates = pre ++ c :: post →
    c.failureDomain ∉ pre.map (·.failureDomain) →
      (failureDomains pre).length < req.requiredReplicas.toNat →
        ∃ c' ∈ viable req, replicaPlan c' = replicaPlan c

theorem firstsViable_iff : FirstsViable req ↔
    ∀ c ∈ (List.firsts TierCandidate.failureDomain [] (available req.candidates)).take
      req.requiredReplicas.toNat, ∃ c' ∈ viable req, replicaPlan c' = replicaPlan c := by
  constructor
  · intro h c hc
    obtain ⟨pre, post, heq, -, hfirst, hlt⟩ := List.mem_take_firsts.mp hc
    rw [List.length_firsts] at hlt
    exact h pre c post heq hfirst hlt
  · intro h pre c post heq hfirst hlt
    refine h c (List.mem_take_firsts.mpr ⟨pre, post, heq, List.not_mem_nil, hfirst, ?_⟩)
    rw [List.length_firsts]
    exact hlt

theorem length_failureDomains_le {cs cs' : List TierCandidate}
    (h : ∀ d ∈ cs.map (·.failureDomain), d ∈ cs'.map (·.failureDomain)) :
    (failureDomains cs).length ≤ (failureDomains cs').length := by
  refine (List.subperm_of_subset (List.nodup_dedup _) fun d hd => ?_).length_le
  exact List.mem_dedup.mpr (h d (List.mem_dedup.mp hd))

theorem viable_subset_available : viable req ⊆ available req.candidates := by
  intro c hc
  obtain ⟨hmem, hviable⟩ := List.mem_filter.mp hc
  refine List.mem_filter.mpr ⟨hmem, ?_⟩
  have hhealth := (violated_none_iff.mp (of_decide_eq_true hviable)).1
  simpa [isAvailable] using hhealth

/-- The replica targets are placeable and maximal exactly if the candidates that the
scan gets to are. -/
theorem targetsPlaceable_iff (hreplicas : 1 < req.requiredReplicas) (hviable : viable req ≠ []) :
    TargetsPlaceable score req ↔ FirstsViable req := by
  have htargets : (plan score req).replicaTargets = _ := replicaTargets_plan hreplicas hviable
  rw [firstsViable_iff]
  generalize hscan : (List.firsts TierCandidate.failureDomain [] (available req.candidates)).take
    req.requiredReplicas.toNat = scan at htargets ⊢
  constructor
  · intro h c hc
    exact h.passes (replicaPlan c) (htargets ▸ List.mem_map_of_mem hc)
  · intro h
    have hdomains : (plan score req).replicaTargets.map (·.failureDomain) =
        scan.map (·.failureDomain) := by
      rw [htargets, List.map_map]
      rfl
    have hnodup : (scan.map (·.failureDomain)).Nodup := by
      rw [← hscan]
      exact List.nodup_map_firsts.sublist ((List.take_sublist _ _).map _)
    -- one target a domain, until enough are found or the domains are used up
    have hlength : scan.length =
        min req.requiredReplicas.toNat (failureDomains (available req.candidates)).length := by
      rw [← hscan, List.length_take, List.length_firsts]
      rfl
    have hle : scan.length ≤ (failureDomains (viable req)).length := by
      rw [← List.length_map (f := TierCandidate.failureDomain)]
      refine (List.subperm_of_subset hnodup fun d hd => ?_).length_le
      obtain ⟨c, hc, rfl⟩ := List.mem_map.mp hd
      obtain ⟨c', hc', heq⟩ := h c hc
      refine List.mem_dedup.mpr (List.mem_map.mpr ⟨c', hc', ?_⟩)
      exact congrArg ReplicaPlan.failureDomain heq
    have hge : (failureDomains (viable req)).length ≤
        (failureDomains (available req.candidates)).length :=
      length_failureDomains_le fun d hd => List.map_subset _ viable_subset_available hd
    refine ⟨fun t ht => ?_, hdomains ▸ hnodup, ?_⟩
    · rw [htargets] at ht
      obtain ⟨c, hc, rfl⟩ := List.mem_map.mp ht
      exact h c hc
    · rw [htargets, List.length_map]
      omega

/-- A request for two replicas of one byte on two healthy backends of unknown capacity. -/
def twoReplicas (persistent : Bool) (domain : Bytes) : PlanRequest where
  logicalSize := 1
  requiredReplicas := 2
  candidates :=
    [{ backend := ⟨1⟩, health := .known .healthy, persistent, failureDomain := ascii "a" },
      { backend := ⟨2⟩, health := .known .healthy, persistent := true, failureDomain := domain }]

theorem targetsPlaceable_small :
    TargetsPlaceable (fun _ => (0 : Nat)) (twoReplicas true (ascii "b")) :=
  (targetsPlaceable_iff (by decide) (by decide +kernel)).mpr
    (firstsViable_iff.mpr (by decide +kernel))

/-- The first backend is not persistent, which the ranking rejects. -/
theorem target_not_placeable :
    1 < (twoReplicas false (ascii "b")).requiredReplicas ∧
      viable (twoReplicas false (ascii "b")) ≠ [] ∧
      ¬TargetsPlaceable (fun _ => (0 : Nat)) (twoReplicas false (ascii "b")) := by
  refine ⟨by decide, by decide +kernel, fun h => ?_⟩
  have hrejected : ∀ c ∈ viable (twoReplicas false (ascii "b")),
      replicaPlan c ≠ ⟨⟨1⟩, default, ascii "a"⟩ := by
    decide +kernel
  obtain ⟨c, hc, heq⟩ := h.passes ⟨⟨1⟩, default, ascii "a"⟩ (by decide +kernel)
  exact hrejected c hc heq

/-! ### Targets in another order -/

def targetBackends (score : TierCandidate → S) (req : PlanRequest) : List StorageBackendId :=
  (plan score req).replicaTargets.map (·.backend)

theorem viable_ne_nil_of_perm {cs : List TierCandidate} (hperm : cs.Perm req.candidates) :
    viable { req with candidates := cs } ≠ [] ↔ viable req ≠ [] := by
  rw [viable_ne_nil_iff, viable_ne_nil_iff]
  exact exists_congr fun c => and_congr_left fun _ => hperm.mem_iff

theorem mem_targetBackends (hreplicas : 1 < req.requiredReplicas) (hviable : viable req ≠ [])
    {b : StorageBackendId} : b ∈ targetBackends score req ↔
      ∃ c ∈ (List.firsts TierCandidate.failureDomain [] (available req.candidates)).take
        req.requiredReplicas.toNat, c.backend = b := by
  rw [targetBackends, replicaTargets_plan hreplicas hviable, List.map_map]
  exact List.mem_map

theorem targetBackends_nil (h : req.requiredReplicas ≤ 1 ∨ viable req = []) :
    targetBackends score req = [] := by
  rw [targetBackends, replicaTargets_plan_nil h]
  rfl

theorem exists_perm_available {cs l : List TierCandidate} (h : l.Perm (available cs)) :
    ∃ cs', cs'.Perm cs ∧ available cs' = l := by
  refine ⟨l ++ cs.filter fun c => !isAvailable c, ?_, ?_⟩
  · exact (h.append_right _).trans (List.filter_append_perm _ cs)
  · have hin : l.filter (fun c => isAvailable c) = l :=
      List.filter_eq_self.mpr fun c hc => (List.mem_filter.mp (h.mem_iff.mp hc)).2
    have hout : (cs.filter fun c => !isAvailable c).filter (fun c => isAvailable c) = [] := by
      simp [List.filter_filter]
    rw [available, List.filter_append, hin, hout, List.append_nil]

/-- The replica targets are the same backends in every order of the candidates exactly
if there are none, or all available candidates are targets in any order. -/
theorem targets_perm_iff (hids : (req.candidates.map (·.backend)).Nodup) :
    (∀ cs, cs.Perm req.candidates → ∀ b,
      b ∈ targetBackends score { req with candidates := cs } ↔ b ∈ targetBackends score req) ↔
    viable req = [] ∨ req.requiredReplicas ≤ 1 ∨
      ((available req.candidates).map (·.failureDomain)).Nodup ∧
        (available req.candidates).length ≤ req.requiredReplicas.toNat := by
  by_cases hviable : viable req = []
  · refine iff_of_true (fun cs hperm b => ?_) (.inl hviable)
    have hnone : viable { req with candidates := cs } = [] :=
      not_ne_iff.mp ((viable_ne_nil_of_perm hperm).not.mpr (not_ne_iff.mpr hviable))
    rw [targetBackends_nil (.inr hviable), targetBackends_nil (.inr hnone)]
  by_cases hone : req.requiredReplicas ≤ 1
  · refine iff_of_true (fun cs hperm b => ?_) (.inr (.inl hone))
    have hother : ({ req with candidates := cs } : PlanRequest).requiredReplicas ≤ 1 := hone
    rw [targetBackends_nil (.inl hone), targetBackends_nil (.inl hother)]
  have hreplicas : 1 < req.requiredReplicas := UInt32.not_le.mp hone
  have hpos : 0 < req.requiredReplicas.toNat :=
    Nat.lt_trans Nat.one_pos (UInt32.lt_iff_toNat_lt.mp hreplicas)
  have hnodup : (available req.candidates).Nodup := hids.of_map.filter _
  have hother : ∀ {cs : List TierCandidate}, cs.Perm req.candidates → ∀ {b},
      b ∈ targetBackends score { req with candidates := cs } ↔
        ∃ c ∈ (List.firsts TierCandidate.failureDomain [] (available cs)).take
          req.requiredReplicas.toNat, c.backend = b := by
    intro cs hperm b
    have hlarge : 1 < ({ req with candidates := cs } : PlanRequest).requiredReplicas := hreplicas
    exact mem_targetBackends hlarge ((viable_ne_nil_of_perm hperm).mpr hviable)
  -- from here on there are at least two targets to pick, and someone to pick
  rw [or_iff_right hviable, or_iff_right hone]
  show _ ↔ ((available req.candidates).map TierCandidate.failureDomain).Nodup ∧ _
  rw [← List.take_firsts_perm_iff hpos hnodup]
  constructor
  · -- backends tell candidates apart
    intro h l hl a
    obtain ⟨cs, hperm, rfl⟩ := exists_perm_available hl
    have hboth := h cs hperm a.backend
    rw [hother hperm, mem_targetBackends hreplicas hviable] at hboth
    have hmem : ∀ {c cs'}, c ∈ (List.firsts TierCandidate.failureDomain [] (available cs')).take
        req.requiredReplicas.toNat → c ∈ cs' := fun hc =>
      List.mem_of_mem_filter (List.firsts_sublist.subset (List.mem_of_mem_take hc))
    constructor
    · intro ha
      obtain ⟨c, hc, hbackend⟩ := hboth.mp ⟨a, ha, rfl⟩
      have heq : c = a :=
        List.inj_on_of_nodup_map hids (hmem hc) (hperm.mem_iff.mp (hmem ha)) hbackend
      exact heq ▸ hc
    · intro ha
      obtain ⟨c, hc, hbackend⟩ := hboth.mpr ⟨a, ha, rfl⟩
      have heq : c = a :=
        List.inj_on_of_nodup_map hids (hperm.mem_iff.mp (hmem hc)) (hmem ha) hbackend
      exact heq ▸ hc
  · intro h cs hperm b
    rw [hother hperm, mem_targetBackends hreplicas hviable]
    have hsame := h (available cs) (hperm.filter _)
    exact exists_congr fun c => and_congr_left fun _ => hsame c

theorem targets_perm_small :
    ⟨1⟩ ∈ targetBackends (fun _ => (0 : Nat))
        { twoReplicas true (ascii "b") with
          candidates := (twoReplicas true (ascii "b")).candidates.reverse } ↔
      ⟨1⟩ ∈ targetBackends (fun _ => (0 : Nat)) (twoReplicas true (ascii "b")) :=
  (targets_perm_iff (by decide +kernel)).mpr (.inr (.inr (by decide +kernel))) _
    (List.reverse_perm _) _

/-- Of two backends in one failure domain the one that comes first is the target. -/
theorem target_by_order :
    ((twoReplicas true (ascii "a")).candidates.map (·.backend)).Nodup ∧
      ∃ cs, cs.Perm (twoReplicas true (ascii "a")).candidates ∧
        ⟨2⟩ ∈ targetBackends (fun _ => (0 : Nat))
          { twoReplicas true (ascii "a") with candidates := cs } ∧
        ⟨2⟩ ∉ targetBackends (fun _ => (0 : Nat)) (twoReplicas true (ascii "a")) :=
  ⟨by decide +kernel, (twoReplicas true (ascii "a")).candidates.reverse, List.reverse_perm _,
    by decide +kernel, by decide +kernel⟩

end Planner

end StorageFabric
