import Mathlib.Data.List.Perm.Basic
import StorageFabric.Lib.Runs
import StorageFabric.Runtime.Outcome

/-!
The catalog invariant: the replica set of an object, its cached counters and
the placement list of its entry are what the placement records say.

The invariant is about the catalog view alone. Its step lemmas follow the
effects of the operations; the only effect that can break it is a movement that
demotes an available placement, since the demotion forgets the replica set.
-/

namespace StorageFabric

namespace CatalogView

/-- Identities are fresh, unique and resolvable. -/
structure Identified (v : CatalogView) : Prop where
  placement_id : ∀ id p, v.placements.lookup id = some p → p.id = id
  placement_lt : ∀ id p, v.placements.lookup id = some p → id.value < v.placementCounter
  replica_lt : ∀ id p, v.placements.lookup id = some p → p.replica.value < v.replicaCounter
  replica_inj : ∀ id id' p p', v.placements.lookup id = some p →
    v.placements.lookup id' = some p' → p.replica = p'.replica → id = id'
  object_lt : ∀ o entry, v.catalog.lookup o = some entry → o.value < v.objectCounter
  object_id : ∀ o entry, v.catalog.lookup o = some entry →
    entry.object.id = o ∧ entry.replicaSet.object = o
  known : ∀ id p, v.placements.lookup id = some p → p.object ∈ v.catalog
  tier_lt : ∀ t, t ∈ v.tiers → t.value < v.tierCounter
  tier_known : ∀ id p, v.placements.lookup id = some p → p.tier ∈ v.tiers

def domainOf (v : CatalogView) (p : PlacementRecord) : Bytes :=
  match v.tiers.lookup p.tier with
  | none => []
  | some t => t.failureDomain

/-- The catalog entry of `o` says what the placement records say. -/
structure Exact (v : CatalogView) (o : ObjectId) (entry : CatalogEntry) : Prop where
  listed : ∀ id, id ∈ entry.placements ↔ ∃ p, v.placements.lookup id = some p ∧ p.object = o
  listedOnce : entry.placements.Nodup
  replicas : ∀ r, r ∈ entry.replicaSet.replicas.map ReplicaInfo.id ↔
    ∃ id p, v.placements.lookup id = some p ∧ p.object = o ∧ Fabric.isAvailable p = true ∧
      p.replica = r
  replicasOnce : (entry.replicaSet.replicas.map ReplicaInfo.id).Nodup
  domains : ∀ r ∈ entry.replicaSet.replicas, ∀ id p, v.placements.lookup id = some p →
    p.replica = r.id → r.failureDomain = v.domainOf p
  counted : entry.replicaSet.recount = entry.replicaSet
  required : ∀ id p, v.placements.lookup id = some p → p.object = o →
    p.durabilityReplicas ≤ entry.replicaSet.required
  state : entry.placements ≠ [] → entry.replicaSet.refreshState = entry.replicaSet

structure Inv (v : CatalogView) : Prop where
  identified : v.Identified
  exact : ∀ o entry, v.catalog.lookup o = some entry → v.Exact o entry

def availableOf (v : CatalogView) (o : ObjectId) : List PlacementRecord :=
  v.placements.values.filter fun p => p.object = o && Fabric.isAvailable p

theorem mem_availableOf {v : CatalogView} {o : ObjectId} {p : PlacementRecord} :
    p ∈ v.availableOf o ↔
      (∃ id, v.placements.lookup id = some p) ∧ p.object = o ∧ Fabric.isAvailable p = true := by
  simp [availableOf, AList.mem_values]

theorem Exact.replicas_perm {v : CatalogView} {o : ObjectId} {entry : CatalogEntry}
    (hv : v.Identified) (h : v.Exact o entry) :
    (entry.replicaSet.replicas.map ReplicaInfo.id).Perm
      ((v.availableOf o).map PlacementRecord.replica) := by
  have hnodup : (v.placements.values.map PlacementRecord.replica).Nodup :=
    AList.nodup_map_values fun k k' p p' hp hp' heq => hv.replica_inj k k' p p' hp hp' heq
  have hsub : ((v.availableOf o).map PlacementRecord.replica).Nodup :=
    hnodup.sublist (List.Sublist.map _ List.filter_sublist)
  rw [List.perm_ext_iff_of_nodup h.replicasOnce hsub]
  intro r
  rw [h.replicas, List.mem_map]
  constructor
  · rintro ⟨id, p, hp, hobj, havail, hr⟩
    exact ⟨p, mem_availableOf.mpr ⟨⟨id, hp⟩, hobj, havail⟩, hr⟩
  · rintro ⟨p, hp, hr⟩
    obtain ⟨⟨id, hid⟩, hobj, havail⟩ := mem_availableOf.mp hp
    exact ⟨id, p, hid, hobj, havail, hr⟩

theorem Exact.length_replicas {v : CatalogView} {o : ObjectId} {entry : CatalogEntry}
    (hv : v.Identified) (h : v.Exact o entry) :
    entry.replicaSet.replicas.length = (v.availableOf o).length := by
  simpa using (h.replicas_perm hv).length_eq

/-! ### Changes of the placements alone -/

/-- An object's entry stays exact when its placements keep all that the entry
is about. -/
theorem Exact.congr {v w : CatalogView} {o : ObjectId} {entry : CatalogEntry}
    (h : v.Exact o entry)
    (hto : ∀ id p, w.placements.lookup id = some p → p.object = o →
      ∃ q, v.placements.lookup id = some q ∧ q.object = o ∧ q.replica = p.replica ∧
        q.durabilityReplicas = p.durabilityReplicas ∧
        Fabric.isAvailable q = Fabric.isAvailable p)
    (hfrom : ∀ id q, v.placements.lookup id = some q → q.object = o →
      ∃ p, w.placements.lookup id = some p ∧ p.object = o ∧ p.replica = q.replica ∧
        Fabric.isAvailable p = Fabric.isAvailable q)
    (hdomain : ∀ r ∈ entry.replicaSet.replicas, ∀ id p, w.placements.lookup id = some p →
      p.replica = r.id → r.failureDomain = w.domainOf p) : w.Exact o entry where
  listed id := by
    rw [h.listed]
    constructor
    · rintro ⟨q, hq, hobj⟩
      obtain ⟨p, hp, hobj', -⟩ := hfrom id q hq hobj
      exact ⟨p, hp, hobj'⟩
    · rintro ⟨p, hp, hobj⟩
      obtain ⟨q, hq, hobj', -⟩ := hto id p hp hobj
      exact ⟨q, hq, hobj'⟩
  listedOnce := h.listedOnce
  replicas r := by
    rw [h.replicas]
    constructor
    · rintro ⟨id, q, hq, hobj, havail, hr⟩
      obtain ⟨p, hp, hobj', hrep, hav⟩ := hfrom id q hq hobj
      exact ⟨id, p, hp, hobj', hav.trans havail, hrep.trans hr⟩
    · rintro ⟨id, p, hp, hobj, havail, hr⟩
      obtain ⟨q, hq, hobj', hrep, -, hav⟩ := hto id p hp hobj
      exact ⟨id, q, hq, hobj', hav.trans havail, hrep.trans hr⟩
  replicasOnce := h.replicasOnce
  domains := hdomain
  counted := h.counted
  required id p hp hobj := by
    obtain ⟨q, hq, hobj', -, hdur, -⟩ := hto id p hp hobj
    exact hdur ▸ h.required id q hq hobj'
  state := h.state

/-- A change of a placement record that is invisible to identities. -/
def KeepsIdentity (g : PlacementRecord → PlacementRecord) : Prop :=
  ∀ p, (g p).id = p.id ∧ (g p).object = p.object ∧ (g p).replica = p.replica ∧
    (g p).tier = p.tier ∧ (g p).durabilityReplicas = p.durabilityReplicas

theorem keepsIdentity_ite {g : PlacementRecord → PlacementRecord} (hg : KeepsIdentity g)
    (c : Prop) [Decidable c] (p : PlacementRecord) :
    (if c then g p else p).id = p.id ∧ (if c then g p else p).object = p.object ∧
      (if c then g p else p).replica = p.replica ∧ (if c then g p else p).tier = p.tier ∧
      (if c then g p else p).durabilityReplicas = p.durabilityReplicas := by
  by_cases h : c
  · simpa [h] using hg p
  · simp [h]

def changePlacement (v : CatalogView) (id : PlacementId) (g : PlacementRecord → PlacementRecord) :
    CatalogView :=
  { v with placements := v.placements.modify id g }

theorem Identified.changePlacement {v : CatalogView} (h : v.Identified) (id : PlacementId)
    {g : PlacementRecord → PlacementRecord} (hg : KeepsIdentity g) :
    (v.changePlacement id g).Identified where
  placement_id k p hp := by
    obtain ⟨q, hq, rfl⟩ := AList.lookup_modify_eq_some.mp hp
    exact (keepsIdentity_ite hg _ q).1.trans (h.placement_id k q hq)
  placement_lt k p hp := by
    obtain ⟨q, hq, -⟩ := AList.lookup_modify_eq_some.mp hp
    exact h.placement_lt k q hq
  replica_lt k p hp := by
    obtain ⟨q, hq, rfl⟩ := AList.lookup_modify_eq_some.mp hp
    rw [(keepsIdentity_ite hg _ q).2.2.1]
    exact h.replica_lt k q hq
  replica_inj k k' p p' hp hp' heq := by
    obtain ⟨q, hq, rfl⟩ := AList.lookup_modify_eq_some.mp hp
    obtain ⟨q', hq', rfl⟩ := AList.lookup_modify_eq_some.mp hp'
    rw [(keepsIdentity_ite hg _ q).2.2.1, (keepsIdentity_ite hg _ q').2.2.1] at heq
    exact h.replica_inj k k' q q' hq hq' heq
  object_lt := h.object_lt
  object_id := h.object_id
  known k p hp := by
    obtain ⟨q, hq, rfl⟩ := AList.lookup_modify_eq_some.mp hp
    rw [(keepsIdentity_ite hg _ q).2.1]
    exact h.known k q hq
  tier_lt := h.tier_lt
  tier_known k p hp := by
    obtain ⟨q, hq, rfl⟩ := AList.lookup_modify_eq_some.mp hp
    rw [(keepsIdentity_ite hg _ q).2.2.2.1]
    exact h.tier_known k q hq

theorem domainOf_congr {v w : CatalogView} {p q : PlacementRecord} (htiers : w.tiers = v.tiers)
    (htier : q.tier = p.tier) : w.domainOf q = v.domainOf p := by
  rw [domainOf, domainOf, htiers, htier]

/-- An entry stays exact when the record that changes belongs to another
object, or is as available as before. -/
theorem Exact.changePlacement {v : CatalogView} {o : ObjectId} {entry : CatalogEntry}
    (h : v.Exact o entry) {id : PlacementId} {g : PlacementRecord → PlacementRecord}
    (hg : KeepsIdentity g)
    (havail : ∀ p, v.placements.lookup id = some p → p.object = o →
      Fabric.isAvailable (g p) = Fabric.isAvailable p) :
    (v.changePlacement id g).Exact o entry := by
  have hsame : ∀ k q, v.placements.lookup k = some q → q.object = o →
      Fabric.isAvailable (if k = id then g q else q) = Fabric.isAvailable q := by
    intro k q hq hobj
    by_cases hk : k = id
    · rw [if_pos hk]
      exact havail q (hk ▸ hq) hobj
    · rw [if_neg hk]
  refine h.congr ?_ ?_ ?_
  · intro k p hp hobj
    obtain ⟨q, hq, rfl⟩ := AList.lookup_modify_eq_some.mp hp
    obtain ⟨-, hobj', hrep, -, hdur⟩ := keepsIdentity_ite hg (k = id) q
    have hq' := hobj'.symm.trans hobj
    exact ⟨q, hq, hq', hrep.symm, hdur.symm, (hsame k q hq hq').symm⟩
  · intro k q hq hobj
    obtain ⟨-, hobj', hrep, -, -⟩ := keepsIdentity_ite hg (k = id) q
    exact ⟨_, AList.lookup_modify_eq_some.mpr ⟨q, hq, rfl⟩, hobj'.trans hobj, hrep,
      hsame k q hq hobj⟩
  · intro r hr k p hp hrep
    obtain ⟨q, hq, rfl⟩ := AList.lookup_modify_eq_some.mp hp
    obtain ⟨-, -, hrep', htier, -⟩ := keepsIdentity_ite hg (k = id) q
    rw [h.domains r hr k q hq (hrep'.symm.trans hrep)]
    exact (domainOf_congr rfl htier).symm

theorem Inv.changePlacement {v : CatalogView} (h : v.Inv) {id : PlacementId}
    {g : PlacementRecord → PlacementRecord} (hg : KeepsIdentity g)
    (havail : ∀ p, v.placements.lookup id = some p →
      Fabric.isAvailable (g p) = Fabric.isAvailable p) : (v.changePlacement id g).Inv where
  identified := h.identified.changePlacement id hg
  exact o entry hentry :=
    (h.exact o entry hentry).changePlacement hg fun p hp _ => havail p hp

theorem Exact.of_eq {v w : CatalogView} {o : ObjectId} {entry : CatalogEntry}
    (h : v.Exact o entry) (hplacements : w.placements = v.placements) (htiers : w.tiers = v.tiers) :
    w.Exact o entry where
  listed := hplacements ▸ h.listed
  listedOnce := h.listedOnce
  replicas := hplacements ▸ h.replicas
  replicasOnce := h.replicasOnce
  domains r hr id p hp hrep := by
    rw [domainOf_congr htiers rfl]
    exact h.domains r hr id p (hplacements ▸ hp) hrep
  counted := h.counted
  required := hplacements ▸ h.required
  state := h.state

/-! ### Eviction -/

theorem map_id_eraseP (replicas : List ReplicaInfo) (a : ReplicaId) :
    (replicas.eraseP fun r => r.id = a).map ReplicaInfo.id =
      (replicas.map ReplicaInfo.id).erase a := by
  induction replicas with
  | nil => rfl
  | cons r replicas ih =>
      by_cases h : r.id = a
      · simp [h]
      · simp [h, ih]

theorem map_id_detachReplica (id : ReplicaId) (entry : CatalogEntry) :
    (Fabric.detachReplica id entry).replicaSet.replicas.map ReplicaInfo.id =
      (entry.replicaSet.replicas.map ReplicaInfo.id).erase id :=
  map_id_eraseP _ _

theorem Exact.detach {v : CatalogView} {id : PlacementId} {p : PlacementRecord}
    {entry : CatalogEntry} (hv : v.Identified) (h : v.Exact p.object entry)
    (hp : v.placements.lookup id = some p) :
    (v.changePlacement id Fabric.evictedRecord).Exact p.object
      (Fabric.detachReplica p.replica entry) where
  listed k := by
    rw [show (Fabric.detachReplica p.replica entry).placements = entry.placements from rfl,
      h.listed]
    constructor
    · rintro ⟨q, hq, hobj⟩
      refine ⟨_, AList.lookup_modify_eq_some.mpr ⟨q, hq, rfl⟩, ?_⟩
      split <;> exact hobj
    · rintro ⟨q', hq', hobj⟩
      obtain ⟨q, hq, rfl⟩ := AList.lookup_modify_eq_some.mp hq'
      refine ⟨q, hq, ?_⟩
      split at hobj <;> exact hobj
  listedOnce := h.listedOnce
  replicas r := by
    rw [map_id_detachReplica, h.replicasOnce.mem_erase_iff, h.replicas]
    constructor
    · rintro ⟨hne, k, q, hq, hobj, havail, rfl⟩
      -- only the evicted record had the replica that was detached
      have hk : k ≠ id := by
        rintro rfl
        rw [hp] at hq
        cases hq
        exact hne rfl
      exact ⟨k, q, AList.lookup_modify_eq_some.mpr ⟨q, hq, by rw [if_neg hk]⟩, hobj, havail, rfl⟩
    · rintro ⟨k, q', hq', hobj, havail, rfl⟩
      obtain ⟨q, hq, rfl⟩ := AList.lookup_modify_eq_some.mp hq'
      by_cases hk : k = id
      -- and it is not available any more
      · simp [hk, Fabric.evictedRecord, Fabric.isAvailable] at havail
      · rw [if_neg hk] at hobj havail ⊢
        exact ⟨fun heq => hk (hv.replica_inj k id q p hq hp heq), k, q, hq, hobj, havail, rfl⟩
  replicasOnce := by
    rw [map_id_detachReplica]
    exact h.replicasOnce.erase _
  domains r hr k q' hq' hrep := by
    obtain ⟨q, hq, rfl⟩ := AList.lookup_modify_eq_some.mp hq'
    have hmem : r ∈ entry.replicaSet.replicas := List.mem_of_mem_eraseP hr
    have hrep' : q.replica = r.id := by
      rw [← hrep]
      split <;> rfl
    rw [h.domains r hmem k q hq hrep']
    refine (domainOf_congr rfl ?_).symm
    split <;> rfl
  counted := rfl
  required k q' hq' hobj := by
    obtain ⟨q, hq, rfl⟩ := AList.lookup_modify_eq_some.mp hq'
    have hdur := h.required k q hq (by rw [← hobj]; split <;> rfl)
    split <;> exact hdur
  state := fun _ => rfl

def evict (v : CatalogView) (id : PlacementId) (p : PlacementRecord) : CatalogView :=
  { v.changePlacement id Fabric.evictedRecord with
    catalog := v.catalog.modify p.object (Fabric.detachReplica p.replica) }

theorem keepsIdentity_evictedRecord : KeepsIdentity Fabric.evictedRecord :=
  fun _ => ⟨rfl, rfl, rfl, rfl, rfl⟩

theorem Identified.evict {v : CatalogView} (h : v.Identified) (id : PlacementId)
    (p : PlacementRecord) : (v.evict id p).Identified :=
  have hv := h.changePlacement id keepsIdentity_evictedRecord
  { placement_id := hv.placement_id
    placement_lt := hv.placement_lt
    replica_lt := hv.replica_lt
    replica_inj := hv.replica_inj
    object_lt := fun o entry hentry => by
      obtain ⟨old, hold, -⟩ := AList.lookup_modify_eq_some.mp hentry
      exact hv.object_lt o old hold
    object_id := fun o entry hentry => by
      obtain ⟨old, hold, rfl⟩ := AList.lookup_modify_eq_some.mp hentry
      have := hv.object_id o old hold
      split <;> exact this
    known := fun k q hq => AList.mem_modify.mpr (hv.known k q hq)
    tier_lt := hv.tier_lt
    tier_known := hv.tier_known }

theorem Inv.evict {v : CatalogView} (h : v.Inv) {id : PlacementId} {p : PlacementRecord}
    (hp : v.placements.lookup id = some p) : (v.evict id p).Inv where
  identified := h.identified.evict id p
  exact o entry hentry := by
    obtain ⟨old, hold, rfl⟩ := AList.lookup_modify_eq_some.mp hentry
    have hold' := h.exact o old hold
    by_cases ho : o = p.object
    · subst ho
      rw [if_pos rfl]
      exact (hold'.detach h.identified hp).of_eq rfl rfl
    · rw [if_neg ho]
      have havail : ∀ q, v.placements.lookup id = some q → q.object = o →
          Fabric.isAvailable (Fabric.evictedRecord q) = Fabric.isAvailable q := by
        intro q hq hobj
        rw [hp] at hq
        cases hq
        exact absurd hobj.symm ho
      exact (hold'.changePlacement keepsIdentity_evictedRecord havail).of_eq rfl rfl

/-! ### Definition and registration -/

def define (v : CatalogView) (obj : ObjectDescriptor) : CatalogView :=
  { v with
    catalog := v.catalog.insert obj.id (Fabric.newEntry obj)
    objectCounter := v.objectCounter + 1 }

theorem Identified.define {v : CatalogView} (h : v.Identified) {obj : ObjectDescriptor}
    (hid : obj.id = ⟨v.objectCounter⟩) : (v.define obj).Identified where
  placement_id := h.placement_id
  placement_lt := h.placement_lt
  replica_lt := h.replica_lt
  replica_inj := h.replica_inj
  object_lt o entry hentry := by
    rcases AList.lookup_insert_eq_some.mp hentry with ⟨rfl, -⟩ | ⟨-, hold⟩
    · rw [hid]
      exact Nat.lt_succ_self _
    · exact Nat.lt_succ_of_lt (h.object_lt o entry hold)
  object_id o entry hentry := by
    rcases AList.lookup_insert_eq_some.mp hentry with ⟨rfl, rfl⟩ | ⟨-, hold⟩
    · exact ⟨rfl, rfl⟩
    · exact h.object_id o entry hold
  known k p hp := AList.mem_insert _ |>.mpr (.inr (h.known k p hp))
  tier_lt := h.tier_lt
  tier_known := h.tier_known

theorem Inv.define {v : CatalogView} (h : v.Inv) {obj : ObjectDescriptor}
    (hid : obj.id = ⟨v.objectCounter⟩) : (v.define obj).Inv where
  identified := h.identified.define hid
  exact o entry hentry := by
    rcases AList.lookup_insert_eq_some.mp hentry with ⟨rfl, rfl⟩ | ⟨-, hold⟩
    · have hnone : ∀ id p, v.placements.lookup id = some p → p.object ≠ obj.id := by
        intro id p hp hobj
        obtain ⟨old, hold⟩ := AList.mem_iff_lookup.mp (h.identified.known id p hp)
        have hlt := h.identified.object_lt _ old hold
        rw [hobj, hid] at hlt
        exact Nat.lt_irrefl _ hlt
      exact
        { listed := fun id => ⟨fun hmem => absurd hmem List.not_mem_nil,
            fun ⟨p, hp, hobj⟩ => absurd hobj (hnone id p hp)⟩
          listedOnce := List.nodup_nil
          replicas := fun r => ⟨fun hmem => absurd hmem List.not_mem_nil,
            fun ⟨id, p, hp, hobj, _⟩ => absurd hobj (hnone id p hp)⟩
          replicasOnce := List.nodup_nil
          domains := fun r hr => absurd hr List.not_mem_nil
          counted := rfl
          required := fun id p hp hobj => absurd hobj (hnone id p hp)
          state := fun hne => absurd rfl hne }
    · exact (h.exact o entry hold).of_eq rfl rfl

def register (v : CatalogView) (t : StorageTier) (desc : BackendDescriptor) : CatalogView :=
  { v with
    tiers := v.tiers.emplace ⟨v.tierCounter⟩ t
    backendDescriptors := v.backendDescriptors.emplace ⟨v.backendCounter⟩ desc
    backendCounter := v.backendCounter + 1
    tierCounter := v.tierCounter + 1 }

theorem Identified.lookup_register {v : CatalogView} (h : v.Identified) (t : StorageTier)
    (desc : BackendDescriptor) (id : StorageTierId) :
    (v.register t desc).tiers.lookup id =
      if id = ⟨v.tierCounter⟩ then some t else v.tiers.lookup id := by
  refine AList.lookup_emplace_of_notMem (fun hmem => ?_) id
  exact Nat.lt_irrefl _ (h.tier_lt _ hmem)

theorem Identified.domainOf_register {v : CatalogView} (h : v.Identified) (t : StorageTier)
    (desc : BackendDescriptor) {id : PlacementId} {p : PlacementRecord}
    (hp : v.placements.lookup id = some p) : (v.register t desc).domainOf p = v.domainOf p := by
  have hne : p.tier ≠ ⟨v.tierCounter⟩ := fun heq =>
    Nat.lt_irrefl _ (heq ▸ h.tier_lt _ (h.tier_known id p hp))
  rw [domainOf, domainOf, h.lookup_register, if_neg hne]

theorem Identified.register {v : CatalogView} (h : v.Identified) (t : StorageTier)
    (desc : BackendDescriptor) : (v.register t desc).Identified :=
  have hmem : ∀ id, id ∈ (v.register t desc).tiers ↔ id = ⟨v.tierCounter⟩ ∨ id ∈ v.tiers := by
    intro id
    rw [AList.mem_iff_lookup, h.lookup_register, AList.mem_iff_lookup]
    by_cases hid : id = ⟨v.tierCounter⟩ <;> simp [hid]
  { placement_id := h.placement_id
    placement_lt := h.placement_lt
    replica_lt := h.replica_lt
    replica_inj := h.replica_inj
    object_lt := h.object_lt
    object_id := h.object_id
    known := h.known
    tier_lt := fun id hid => by
      rcases (hmem id).mp hid with rfl | hold
      · exact Nat.lt_succ_self _
      · exact Nat.lt_succ_of_lt (h.tier_lt id hold)
    tier_known := fun k p hp => (hmem _).mpr (.inr (h.tier_known k p hp)) }

theorem Inv.register {v : CatalogView} (h : v.Inv) (t : StorageTier) (desc : BackendDescriptor) :
    (v.register t desc).Inv where
  identified := h.identified.register t desc
  exact o entry hentry := by
    have hold := h.exact o entry hentry
    refine hold.congr ?_ ?_ ?_
    · exact fun id p hp hobj => ⟨p, hp, hobj, rfl, rfl, rfl⟩
    · exact fun id p hp hobj => ⟨p, hp, hobj, rfl, rfl⟩
    · intro r hr id p hp hrep
      rw [h.identified.domainOf_register t desc hp]
      exact hold.domains r hr id p hp hrep

/-! ### Publication -/

theorem le_max_u32 (a b : UInt32) : a ≤ max a b ∧ b ≤ max a b := by
  by_cases h : a ≤ b
  · have hmax : max a b = b := if_pos h
    rw [hmax]
    exact ⟨h, UInt32.le_refl b⟩
  · have hmax : max a b = a := if_neg h
    rw [hmax]
    exact ⟨UInt32.le_refl a, UInt32.le_of_lt (UInt32.not_le.mp h)⟩

def attach (v : CatalogView) (man : Manifest) (p : PlacementRecord) (r : ReplicaInfo)
    (auth : AuthorityEnvelope) : CatalogView :=
  { v with
    catalog := v.catalog.modify p.object (Fabric.attachPlacement man p r auth)
    placements := v.placements.insert p.id p
    replicaCounter := v.replicaCounter + 1
    placementCounter := v.placementCounter + 1 }

/-- A placement record as a publication makes it in the view `v`. -/
structure Attachable (v : CatalogView) (p : PlacementRecord) (r : ReplicaInfo) : Prop where
  id : p.id = ⟨v.placementCounter⟩
  replica : p.replica = ⟨v.replicaCounter⟩
  tier : p.tier ∈ v.tiers
  known : p.object ∈ v.catalog
  available : Fabric.isAvailable p = true
  replica_id : r.id = p.replica
  domain : r.failureDomain = v.domainOf p

section Attach

variable {v : CatalogView} {man : Manifest} {p : PlacementRecord} {r : ReplicaInfo}
  {auth : AuthorityEnvelope}

theorem Attachable.ne_id (hp : v.Attachable p r) (hv : v.Identified) {k : PlacementId}
    {q : PlacementRecord} (hq : v.placements.lookup k = some q) : k ≠ p.id := by
  rintro rfl
  have := hv.placement_lt _ q hq
  rw [hp.id] at this
  exact Nat.lt_irrefl _ this

theorem Attachable.ne_replica (hp : v.Attachable p r) (hv : v.Identified) {k : PlacementId}
    {q : PlacementRecord} (hq : v.placements.lookup k = some q) : q.replica ≠ p.replica := by
  intro heq
  have := hv.replica_lt _ q hq
  rw [heq, hp.replica] at this
  exact Nat.lt_irrefl _ this

theorem Identified.attach (hv : v.Identified) (hp : v.Attachable p r) :
    (v.attach man p r auth).Identified where
  placement_id k q hq := by
    rcases AList.lookup_insert_eq_some.mp hq with ⟨rfl, rfl⟩ | ⟨-, hold⟩
    · rfl
    · exact hv.placement_id k q hold
  placement_lt k q hq := by
    rcases AList.lookup_insert_eq_some.mp hq with ⟨rfl, rfl⟩ | ⟨-, hold⟩
    · rw [hp.id]
      exact Nat.lt_succ_self _
    · exact Nat.lt_succ_of_lt (hv.placement_lt k q hold)
  replica_lt k q hq := by
    rcases AList.lookup_insert_eq_some.mp hq with ⟨rfl, rfl⟩ | ⟨-, hold⟩
    · rw [hp.replica]
      exact Nat.lt_succ_self _
    · exact Nat.lt_succ_of_lt (hv.replica_lt k q hold)
  replica_inj k k' q q' hq hq' heq := by
    rcases AList.lookup_insert_eq_some.mp hq with ⟨rfl, rfl⟩ | ⟨-, hold⟩
    · rcases AList.lookup_insert_eq_some.mp hq' with ⟨rfl, rfl⟩ | ⟨-, hold'⟩
      · rfl
      · exact absurd heq.symm (hp.ne_replica hv hold')
    · rcases AList.lookup_insert_eq_some.mp hq' with ⟨rfl, rfl⟩ | ⟨-, hold'⟩
      · exact absurd heq (hp.ne_replica hv hold)
      · exact hv.replica_inj k k' q q' hold hold' heq
  object_lt o entry hentry := by
    obtain ⟨old, hold, -⟩ := AList.lookup_modify_eq_some.mp hentry
    exact hv.object_lt o old hold
  object_id o entry hentry := by
    obtain ⟨old, hold, rfl⟩ := AList.lookup_modify_eq_some.mp hentry
    have := hv.object_id o old hold
    split <;> exact this
  known k q hq := by
    refine AList.mem_modify.mpr ?_
    rcases AList.lookup_insert_eq_some.mp hq with ⟨rfl, rfl⟩ | ⟨-, hold⟩
    · exact hp.known
    · exact hv.known k q hold
  tier_lt := hv.tier_lt
  tier_known k q hq := by
    rcases AList.lookup_insert_eq_some.mp hq with ⟨rfl, rfl⟩ | ⟨-, hold⟩
    · exact hp.tier
    · exact hv.tier_known k q hold

/-- The replica of a new placement is not in the set yet, so it is added. -/
theorem Exact.replicas_attach {entry : CatalogEntry} (hv : v.Identified)
    (h : v.Exact p.object entry) (hp : v.Attachable p r) :
    (Fabric.attachPlacement man p r auth entry).replicaSet.replicas =
      entry.replicaSet.replicas ++ [r] := by
  have hnew : (entry.replicaSet.replicas.any fun rp => rp.id = p.replica) = false := by
    rw [List.any_eq_false]
    intro rp hrp heq
    have hmem : p.replica ∈ entry.replicaSet.replicas.map ReplicaInfo.id :=
      List.mem_map.mpr ⟨rp, hrp, by simpa using heq⟩
    obtain ⟨k, q, hq, -, -, hrep⟩ := (h.replicas _).mp hmem
    exact hp.ne_replica hv hq hrep
  simp only [Fabric.attachPlacement, hnew]
  rfl

theorem Exact.attach {entry : CatalogEntry} (hv : v.Identified) (h : v.Exact p.object entry)
    (hp : v.Attachable p r) :
    (v.attach man p r auth).Exact p.object (Fabric.attachPlacement man p r auth entry) where
  listed k := by
    have hlist : (Fabric.attachPlacement man p r auth entry).placements =
        entry.placements ++ [p.id] := rfl
    rw [hlist, List.mem_append, List.mem_singleton, h.listed]
    constructor
    · rintro (⟨q, hq, hobj⟩ | rfl)
      · exact ⟨q, AList.lookup_insert_eq_some.mpr (.inr ⟨hp.ne_id hv hq, hq⟩), hobj⟩
      · exact ⟨p, AList.lookup_insert_eq_some.mpr (.inl ⟨rfl, rfl⟩), rfl⟩
    · rintro ⟨q, hq, hobj⟩
      rcases AList.lookup_insert_eq_some.mp hq with ⟨rfl, -⟩ | ⟨-, hold⟩
      · exact .inr rfl
      · exact .inl ⟨q, hold, hobj⟩
  listedOnce := by
    refine List.nodup_append.mpr ⟨h.listedOnce, List.nodup_singleton _, ?_⟩
    intro k hk k' hk'
    obtain ⟨q, hq, -⟩ := (h.listed k).mp hk
    rw [List.mem_singleton.mp hk']
    exact hp.ne_id hv hq
  replicas a := by
    rw [h.replicas_attach hv hp, List.map_append, List.mem_append, h.replicas]
    simp only [List.map_cons, List.map_nil, List.mem_singleton, hp.replica_id]
    constructor
    · rintro (⟨k, q, hq, hobj, havail, hrep⟩ | rfl)
      · exact ⟨k, q, AList.lookup_insert_eq_some.mpr (.inr ⟨hp.ne_id hv hq, hq⟩), hobj, havail,
          hrep⟩
      · exact ⟨p.id, p, AList.lookup_insert_eq_some.mpr (.inl ⟨rfl, rfl⟩), rfl, hp.available, rfl⟩
    · rintro ⟨k, q, hq, hobj, havail, hrep⟩
      rcases AList.lookup_insert_eq_some.mp hq with ⟨rfl, rfl⟩ | ⟨-, hold⟩
      · exact .inr hrep.symm
      · exact .inl ⟨k, q, hold, hobj, havail, hrep⟩
  replicasOnce := by
    rw [h.replicas_attach hv hp, List.map_append]
    refine List.nodup_append.mpr ⟨h.replicasOnce, List.nodup_singleton _, ?_⟩
    intro a ha b hb
    -- no old record has the replica of the new placement
    obtain ⟨k, q, hq, -, -, hrep⟩ := (h.replicas a).mp ha
    rw [List.map_singleton, List.mem_singleton, hp.replica_id] at hb
    rw [hb, ← hrep]
    exact hp.ne_replica hv hq
  domains rp hrp k q hq hrep := by
    rw [h.replicas_attach hv hp, List.mem_append, List.mem_singleton] at hrp
    have hdom : (v.attach man p r auth).domainOf q = v.domainOf q := domainOf_congr rfl rfl
    rw [hdom]
    rcases AList.lookup_insert_eq_some.mp hq with ⟨rfl, rfl⟩ | ⟨-, hold⟩
    · rcases hrp with hrp | rfl
      · obtain ⟨k', q', hq', -, -, hrep'⟩ := (h.replicas rp.id).mp (List.mem_map_of_mem hrp)
        exact absurd (hrep'.trans hrep.symm) (hp.ne_replica hv hq')
      · exact hp.domain
    · rcases hrp with hrp | rfl
      · exact h.domains rp hrp k q hold hrep
      · exact absurd (hrep.trans hp.replica_id) (hp.ne_replica hv hold)
  counted := rfl
  required k q hq hobj := by
    have hreq : (Fabric.attachPlacement man p r auth entry).replicaSet.required =
        max entry.replicaSet.required p.durabilityReplicas := rfl
    rw [hreq]
    rcases AList.lookup_insert_eq_some.mp hq with ⟨-, rfl⟩ | ⟨-, hold⟩
    · exact (le_max_u32 _ _).2
    · exact UInt32.le_trans (h.required k q hold hobj) (le_max_u32 _ _).1
  state := fun _ => rfl

theorem Inv.attach (h : v.Inv) (hp : v.Attachable p r) : (v.attach man p r auth).Inv where
  identified := h.identified.attach hp
  exact o entry hentry := by
    obtain ⟨old, hold, rfl⟩ := AList.lookup_modify_eq_some.mp hentry
    have hold' := h.exact o old hold
    by_cases ho : o = p.object
    · subst ho
      rw [if_pos rfl]
      exact hold'.attach h.identified hp
    · rw [if_neg ho]
      have hback : ∀ k q, (v.attach man p r auth).placements.lookup k = some q → q.object = o →
          v.placements.lookup k = some q := by
        intro k q hq hobj
        rcases AList.lookup_insert_eq_some.mp hq with ⟨-, rfl⟩ | ⟨-, hold⟩
        · exact absurd hobj.symm ho
        · exact hold
      refine hold'.congr ?_ ?_ ?_
      · exact fun k q hq hobj => ⟨q, hback k q hq hobj, hobj, rfl, rfl, rfl⟩
      · exact fun k q hq hobj => ⟨q, AList.lookup_insert_eq_some.mpr
          (.inr ⟨hp.ne_id h.identified hq, hq⟩), hobj, rfl, rfl⟩
      · intro rp hrp k q hq hrep
        have hdom : (v.attach man p r auth).domainOf q = v.domainOf q := domainOf_congr rfl rfl
        rw [hdom]
        rcases AList.lookup_insert_eq_some.mp hq with ⟨-, rfl⟩ | ⟨-, hold⟩
        · obtain ⟨k', q', hq', -, -, hrep'⟩ := (hold'.replicas rp.id).mp (List.mem_map_of_mem hrp)
          exact absurd (hrep'.trans hrep.symm) (hp.ne_replica h.identified hq')
        · exact hold'.domains rp hrp k q hold hrep

end Attach

/-! ### Failures -/

def skip (v : CatalogView) (m n : Nat) : CatalogView :=
  { v with placementCounter := m, replicaCounter := n }

theorem Identified.skip {v : CatalogView} (h : v.Identified) {m n : Nat}
    (hm : v.placementCounter ≤ m) (hn : v.replicaCounter ≤ n) : (v.skip m n).Identified where
  placement_id := h.placement_id
  placement_lt k p hp := Nat.lt_of_lt_of_le (h.placement_lt k p hp) hm
  replica_lt k p hp := Nat.lt_of_lt_of_le (h.replica_lt k p hp) hn
  replica_inj := h.replica_inj
  object_lt := h.object_lt
  object_id := h.object_id
  known := h.known
  tier_lt := h.tier_lt
  tier_known := h.tier_known

theorem Inv.skip {v : CatalogView} (h : v.Inv) {m n : Nat} (hm : v.placementCounter ≤ m)
    (hn : v.replicaCounter ≤ n) : (v.skip m n).Inv where
  identified := h.identified.skip hm hn
  exact o entry hentry := (h.exact o entry hentry).of_eq rfl rfl

end CatalogView

namespace Fabric

variable {β : Type}

theorem catalogInv_empty : ({} : Fabric β).catalogView.Inv where
  identified := by
    constructor <;> intros <;> simp_all [catalogView]
  exact o entry hentry := by simp [catalogView] at hentry

variable [StorageBackend β]

theorem attachable_placementOf {f : Fabric β} {c : Call} {res : Reservation}
    {ledger : ReservationLedger} {chunks : List ChunkDescriptor} {desc : BackendDescriptor}
    {t : StorageTier} {g f' : Fabric β} (h : Published f c res ledger chunks desc t g f') :
    f.catalogView.Attachable (f.placementOf c desc t) (replicaOf (f.placementOf c desc t) desc t)
    where
  id := rfl
  replica := rfl
  tier := AList.mem_iff_lookup.mpr ⟨t, h.tier⟩
  known := h.known
  available := rfl
  replica_id := rfl
  domain := by
    have htier : f.catalogView.tiers.lookup (f.placementOf c desc t).tier = some t := h.tier
    simp only [CatalogView.domainOf, htier]
    rfl

theorem identified_publishCall {f : Fabric β} (h : f.catalogView.Identified) (c : Call) :
    (f.publishCall c).2.catalogView.Identified := by
  have hout := publishCall_outcome f c
  generalize (f.publishCall c).1 = r at hout
  generalize (f.publishCall c).2 = f' at hout
  cases hout with
  | refused s ledger stale hrefuse => exact h
  | aborted s res ledger start rc g f' hstart habort =>
      obtain ⟨m, n, hm, hn, hview⟩ := habort.catalog
      rw [hview]
      exact h.skip hm hn
  | published res ledger start chunks desc t g f' hstart hpub =>
      rw [hpub.catalog]
      exact h.attach (attachable_placementOf hpub)

theorem identified_exec {f : Fabric β} (h : f.catalogView.Identified) (op : Op β) :
    (f.exec op).catalogView.Identified := by
  have heffect := exec_effect f op
  generalize f.exec op = f' at heffect
  cases heffect with
  | silent _ f' hviews => exact hviews.catalog ▸ h
  | registered _ t desc be f' _ _ hcatalog _ _ =>
      rw [hcatalog]
      exact h.register t desc
  | defined _ obj f' hid _ hcatalog _ _ =>
      rw [hcatalog]
      exact h.define hid
  | duplicate _ f' hid _ _ _ =>
      obtain ⟨entry, hentry⟩ := AList.mem_iff_lookup.mp hid
      exact absurd (h.object_lt _ entry hentry) (Nat.lt_irrefl _)
  | called _ c g _ hviews _ => exact identified_publishCall (hviews.catalog ▸ h) c
  | moved _ source c g p _ hviews _ _ _ =>
      have hpub := identified_publishCall (hviews.catalog ▸ h) c
      exact hpub.changePlacement source (g := fun p => { p with lifecycle := .known .stale })
        fun _ => ⟨rfl, rfl, rfl, rfl, rfl⟩
  | evicted id e hcheck =>
      rw [catalogView_evict hcheck]
      exact h.evict id e.record

theorem catalogInv_publishCall {f : Fabric β} (h : f.catalogView.Inv) (c : Call) :
    (f.publishCall c).2.catalogView.Inv := by
  have hout := publishCall_outcome f c
  generalize (f.publishCall c).1 = r at hout
  generalize (f.publishCall c).2 = f' at hout
  cases hout with
  | refused s ledger stale hrefuse => exact h
  | aborted s res ledger start rc g f' hstart habort =>
      obtain ⟨m, n, hm, hn, hview⟩ := habort.catalog
      rw [hview]
      exact h.skip hm hn
  | published res ledger start chunks desc t g f' hstart hpub =>
      rw [hpub.catalog]
      exact h.attach (attachable_placementOf hpub)

theorem lookup_placements_publishCall (f : Fabric β) (c : Call) {id : PlacementId}
    (hid : id ∈ f.placements) :
    (f.publishCall c).2.placements.lookup id = f.placements.lookup id := by
  have hout := publishCall_outcome f c
  generalize (f.publishCall c).1 = r at hout
  generalize (f.publishCall c).2 = f' at hout
  cases hout with
  | refused s ledger stale hrefuse => rfl
  | aborted s res ledger start rc g f' hstart habort =>
      obtain ⟨m, n, -, -, hview⟩ := habort.catalog
      exact congrArg (fun v => v.placements.lookup id) hview
  | published res ledger start chunks desc t g f' hstart hpub =>
      have hview := congrArg (fun v => v.placements.lookup id) hpub.catalog
      have hne : id ≠ ⟨f.placementCounter⟩ := fun heq => hpub.freshPlacement (heq ▸ hid)
      exact hview.trans (AList.lookup_insert_ne hne)

/-- The catalog invariant across one operation that does not demote an
available placement. -/
theorem catalogInv_exec {f : Fabric β} (h : f.catalogView.Inv) {op : Op β}
    (hop : demotes isAvailable f op = false) : (f.exec op).catalogView.Inv := by
  have heffect := exec_effect f op
  generalize f.exec op = f' at heffect
  cases heffect with
  | silent _ f' hviews => exact hviews.catalog ▸ h
  | registered _ t desc be f' _ _ hcatalog _ _ =>
      rw [hcatalog]
      exact h.register t desc
  | defined _ obj f' hid _ hcatalog _ _ =>
      rw [hcatalog]
      exact h.define hid
  | duplicate _ f' hid _ _ _ =>
      obtain ⟨entry, hentry⟩ := AList.mem_iff_lookup.mp hid
      -- the counter is above all ids in use, so a new object is never a duplicate
      exact absurd (h.identified.object_lt _ entry hentry) (Nat.lt_irrefl _)
  | called _ c g _ hviews _ => exact catalogInv_publishCall (hviews.catalog ▸ h) c
  | moved _ source c g p hcall hviews hmove hsource hok =>
      have hpub := catalogInv_publishCall (hviews.catalog ▸ h) c
      have hcreated : f.created op = some p := by
        rw [created, hcall]
        simp [hok, Except.toOption]
      have hplacements : g.placements = f.placements :=
        congrArg CatalogView.placements hviews.catalog
      refine hpub.changePlacement (g := fun p => { p with lifecycle := .known .stale })
        (fun _ => ⟨rfl, rfl, rfl, rfl, rfl⟩) ?_
      intro q hq
      -- the source is as it was before the publication
      have hq' : f.placements.lookup source = some q := by
        rw [← hplacements, ← lookup_placements_publishCall g c (hplacements ▸ hsource)]
        exact hq
      simp only [demotes, hmove, hcreated, hq', Option.isSome_some, Option.any_some,
        Bool.true_and] at hop
      rw [hop]
      rfl
  | evicted id e hcheck =>
      obtain ⟨entry, hp, -⟩ := evictCheck_inr hcheck
      rw [catalogView_evict hcheck]
      exact h.evict hp

end Fabric

end StorageFabric
