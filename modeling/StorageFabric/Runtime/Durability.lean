import StorageFabric.Runtime.Replicas

/-!
Eviction and the required durability.

The check of an eviction compares the cached counter of the replica set with
the required durability. The counter is right as long as no movement has
demoted an available placement: a movement changes the record of its source and
forgets the replica set, which then counts a copy that is no longer there.
-/

namespace StorageFabric

namespace Fabric

variable {β : Type} [StorageBackend β]

/-- An eviction that is allowed on an available placement leaves the object
with as many available placements as its replica set requires. -/
def KeepsDurability (f : Fabric β) (id : PlacementId) : Prop :=
  ∀ p, f.placements.lookup id = some p → isAvailable p = true → (f.evict id).1.allowed = true →
    ∃ entry, (f.evict id).2.catalog.lookup p.object = some entry ∧
      entry.replicaSet.required.toNat ≤ ((f.evict id).2.catalogView.availableOf p.object).length

theorem evict_of_allowed {f : Fabric β} {id : PlacementId} (h : (f.evict id).1.allowed = true) :
    ∃ e, f.evictCheck id = .inr e ∧ (f.evict id).2 = ((f.evictRecord e).evictCommit e).2 := by
  cases hcheck : f.evictCheck id with
  | inr e => exact ⟨e, rfl, by rw [evict, hcheck]⟩
  | inl decision =>
      rw [evict, hcheck, evictCheck_inl hcheck] at h
      cases h

/-- From an exact catalog, the check protects the required durability. -/
theorem keepsDurability_of_inv {f : Fabric β} (h : f.catalogView.Inv) (id : PlacementId) :
    KeepsDurability f id := by
  intro p hp havail hallowed
  obtain ⟨e, hcheck, heq⟩ := evict_of_allowed hallowed
  obtain ⟨entry, hrecord, hentry, hlast, -, -, -⟩ := evictCheck_inr hcheck
  rw [hp] at hrecord
  cases hrecord
  have hview := catalogView_evict hcheck
  have hinv : ((f.evictRecord e).evictCommit e).2.catalogView.Inv := by
    rw [hview]
    exact h.evict hp
  -- the entry after the eviction, with one replica less
  have hentry' : ((f.evictRecord e).evictCommit e).2.catalog.lookup e.record.object =
      some (detachReplica e.record.replica entry) := by
    have := congrArg (fun v => v.catalog.lookup e.record.object) hview
    refine this.trans ?_
    simp [hentry]
  rw [heq]
  refine ⟨_, hentry', ?_⟩
  rw [← (hinv.exact _ _ hentry').length_replicas hinv.identified]
  have hexact := h.exact _ entry hentry
  have hmem : e.record.replica ∈ entry.replicaSet.replicas.map ReplicaInfo.id :=
    (hexact.replicas _).mpr ⟨id, e.record, hp, rfl, havail, rfl⟩
  have hlength : (detachReplica e.record.replica entry).replicaSet.replicas.length =
      entry.replicaSet.replicas.length - 1 := by
    have herase := congrArg List.length
      (CatalogView.map_id_eraseP entry.replicaSet.replicas e.record.replica)
    rw [List.length_map, List.length_erase_of_mem hmem, List.length_map] at herase
    exact herase
  have hcount : entry.replicaSet.authoritativeReplicas =
      UInt32.ofNat entry.replicaSet.replicas.length :=
    (congrArg ReplicaSet.authoritativeReplicas hexact.counted).symm
  -- the check compared the counter, which is the length up to truncation
  have hlt : entry.replicaSet.required.toNat < entry.replicaSet.authoritativeReplicas.toNat := by
    simp only [isLastCopy, havail, Bool.and_true, decide_eq_false_iff_not] at hlast
    exact UInt32.lt_iff_toNat_lt.mp (UInt32.not_le.mp hlast)
  have hle : entry.replicaSet.authoritativeReplicas.toNat ≤ entry.replicaSet.replicas.length := by
    rw [hcount, UInt32.toNat_ofNat']
    exact Nat.mod_le _ _
  have hrequired : (detachReplica e.record.replica entry).replicaSet.required =
      entry.replicaSet.required := rfl
  rw [hlength, hrequired]
  omega

/-- In every run without a successful movement away from an available
placement, evictions keep the required durability. -/
theorem evict_keeps_durability (ops : List (Op β))
    (hops : Runs.Along exec (fun f op => demotes isAvailable f op = false) {} ops)
    (id : PlacementId) : KeepsDurability (Runs.run exec {} ops) id :=
  keepsDurability_of_inv
    (Runs.invariant (I := fun f => f.catalogView.Inv) (fun _ _ h hop => catalogInv_exec h hop)
      catalogInv_empty hops) id

/-- Two publications, of which one may go. -/
theorem evict_keeps_durability_small :
    KeepsDurability (Runs.run exec {} (Small.opening ++ [Small.publication, Small.publication]))
      ⟨1⟩ :=
  evict_keeps_durability _ (by decide +kernel) ⟨1⟩

/-- A publication moved away: the moved copy is the only one available, and the
replica set counts two. -/
def movedOps : List (Op SyntheticBackend) :=
  Small.opening ++ [Small.publication,
    .move { id := ⟨1⟩, object := ⟨1⟩ } ⟨1⟩ { eagerVerify := false }]

/-- The eviction of the moved copy is allowed and leaves none. -/
theorem evict_last_copy : ¬KeepsDurability (Runs.run exec {} movedOps) ⟨2⟩ := by
  intro h
  have hrun : ((Runs.run exec {} movedOps).placements.lookup ⟨2⟩).any
        (fun p => isAvailable p && decide (p.object = ⟨1⟩)) = true ∧
      ((Runs.run exec {} movedOps).evict ⟨2⟩).1.allowed = true ∧
      ((Runs.run exec {} movedOps).evict ⟨2⟩).2.catalogView.availableOf ⟨1⟩ = [] ∧
      (((Runs.run exec {} movedOps).evict ⟨2⟩).2.catalog.lookup ⟨1⟩).all
        (fun e => e.replicaSet.required = 1) = true := by decide +kernel
  obtain ⟨hsource, hallowed, hnone, hone⟩ := hrun
  obtain ⟨p, hp, hprop⟩ := (Option.any_eq_true _ _).mp hsource
  obtain ⟨havail, hobj⟩ : isAvailable p = true ∧ p.object = ⟨1⟩ := by simpa using hprop
  obtain ⟨entry, hentry, hle⟩ := h p hp havail hallowed
  rw [hobj] at hentry hle
  have hrequired : entry.replicaSet.required = 1 := by simpa [hentry] using hone
  rw [hnone, hrequired] at hle
  exact absurd hle (by decide)

end Fabric

end StorageFabric
