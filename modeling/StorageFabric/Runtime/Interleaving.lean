import StorageFabric.Lib.TwoSection
import StorageFabric.Runtime.Effects

/-!
Evictions at once.

An eviction releases the lock between its check and its commit, and the commit
does not check again. Several callers are therefore the callers of an operation
in two sections. Their answers, and everything they leave behind except the
contents of the backends, are those of the same evictions one after another
whenever `can_evict` would still allow an eviction at the moment it commits.
Nothing in the code makes sure that it does.
-/

namespace StorageFabric

namespace Fabric

variable {β : Type}

def metadata (f : Fabric β) : Fabric β := { f with backends := ∅ }

theorem evictCheck_metadata (f : Fabric β) (id : PlacementId) :
    f.metadata.evictCheck id = f.evictCheck id := rfl

theorem metadata_evictMetadata (f : Fabric β) (e : Eviction) :
    (f.evictMetadata e).metadata = f.metadata.evictMetadata e := by
  by_cases h : e.placement ∈ f.placements
  · have hmeta : e.placement ∈ f.metadata.placements := h
    simp only [evictMetadata, markEvicted, h, hmeta, if_true]
    rfl
  · have hmeta : e.placement ∉ f.metadata.placements := h
    simp only [evictMetadata, markEvicted, h, hmeta, if_false]
    rfl

theorem lookup_placements_evictMetadata {f : Fabric β} {id : PlacementId} {e : Eviction}
    (h : f.evictCheck id = .inr e) (other : PlacementId) :
    (f.evictMetadata e).placements.lookup other =
      if other = id then
        (f.placements.lookup other).map fun p =>
          { p with lifecycle := .known .evicted, freshness := .known .stale }
      else f.placements.lookup other := by
  obtain ⟨entry, hp, -, -, -, hid, -⟩ := evictCheck_inr h
  have hmem : e.placement ∈ f.placements := AList.mem_iff_lookup.mpr ⟨e.record, hid ▸ hp⟩
  rw [evictMetadata, markEvicted, if_pos hmem, ← hid]
  exact AList.lookup_modify _ _ _ _

/-- What an eviction of `id` carries is still good: nobody changed the manifest,
and the record is as it was or evicted. -/
structure StillGood (f : Fabric β) (id : PlacementId) (e : Eviction) : Prop where
  placement : e.placement = id
  blobs : e.blobs = f.blobIds e.record
  record : ∃ p, f.placements.lookup id = some p ∧ (p = e.record ∨ p.lifecycle = .known .evicted)

theorem stillGood_of_check {f : Fabric β} {id : PlacementId} {e : Eviction}
    (h : f.evictCheck id = .inr e) : StillGood f id e := by
  obtain ⟨entry, hp, -, -, -, hid, hblobs⟩ := evictCheck_inr h
  exact ⟨hid, hblobs, e.record, hp, .inl rfl⟩

theorem StillGood.evictMetadata {f : Fabric β} {id other : PlacementId} {e e' : Eviction}
    (h : StillGood f id e) (hcheck : f.evictCheck other = .inr e') :
    StillGood (f.evictMetadata e') id e := by
  obtain ⟨p, hp, hrecord⟩ := h.record
  have hmanifests : (f.evictMetadata e').manifests = f.manifests := by
    unfold Fabric.evictMetadata markEvicted
    split <;> rfl
  refine ⟨h.placement, ?_, ?_⟩
  · rw [h.blobs, blobIds, blobIds, hmanifests]
  · rw [lookup_placements_evictMetadata hcheck, hp]
    by_cases hother : id = other
    · refine ⟨_, by rw [if_pos hother]; rfl, .inr rfl⟩
    · exact ⟨p, by rw [if_neg hother], hrecord⟩

theorem StillGood.determines {f : Fabric β} {id : PlacementId} {e e' : Eviction}
    (h : StillGood f id e) (hcheck : f.evictCheck id = .inr e') : e' = e := by
  obtain ⟨p, hp, hrecord⟩ := h.record
  obtain ⟨entry, hp', -, -, hevicted, hid, hblobs⟩ := evictCheck_inr hcheck
  rw [hp] at hp'
  obtain rfl := Option.some.inj hp'
  obtain heq | habsurd := hrecord
  · obtain ⟨placement, record, blobs⟩ := e
    obtain ⟨placement', record', blobs'⟩ := e'
    simp only at heq hid hblobs
    subst heq
    rw [hid, hblobs, ← h.placement, ← h.blobs]
  · exact absurd habsurd hevicted

section Backend

variable [StorageBackend β]

theorem metadata_removeOn (f : Fabric β) (id : StorageBackendId) (key : Bytes) :
    (f.removeOn id key).metadata = f.metadata := by
  unfold removeOn
  cases f.backends.lookup id <;> rfl

theorem metadata_removeBlobs (id : StorageBackendId) (bs : List BlobId) (f : Fabric β) :
    (removeBlobs id bs f).metadata = f.metadata := by
  induction bs generalizing f with
  | nil => rfl
  | cons b bs ih => rw [removeBlobs, ih, metadata_removeOn]

theorem metadata_evictCommit (f : Fabric β) (e : Eviction) :
    (f.evictCommit e).2.metadata = f.metadata.evictMetadata e := by
  rw [evictCommit, metadata_removeBlobs, metadata_evictMetadata]

/-- The two sections of an eviction, and the removal between them. -/
def evictSections : Sections (Fabric β) PlacementId Eviction EvictionDecision where
  check := evictCheck
  between := evictRecord
  commit := evictCommit

/-- An eviction that nobody interrupts is an eviction. -/
theorem call_evictSections (f : Fabric β) (id : PlacementId) :
    evictSections.call f id = f.evict id := by
  have hcheck : evictSections.check f id = f.evictCheck id := rfl
  unfold Sections.call Fabric.evict
  rw [hcheck]
  cases f.evictCheck id <;> rfl

theorem viewed_evictSections : (evictSections (β := β)).Viewed metadata where
  check f g id h := by
    show f.evictCheck id = g.evictCheck id
    rw [← evictCheck_metadata f, ← evictCheck_metadata g, h]
  between f e := metadata_removeOn f e.record.backend (placementKey e.placement)
  commit f g e h := by
    refine ⟨rfl, ?_⟩
    show (f.evictCommit e).2.metadata = (g.evictCommit e).2.metadata
    rw [metadata_evictCommit, metadata_evictCommit, h]

theorem lasting_evictSections :
    (evictSections (β := β)).Lasting metadata fun f id e => StillGood f id e where
  of_check f id e h := stillGood_of_check (f := f.metadata) h
  commit f id other e e' h hcheck := by
    show StillGood (f.evictCommit e').2.metadata id e
    rw [metadata_evictCommit]
    exact h.evictMetadata hcheck
  determines f id e e' h hcheck := StillGood.determines h hcheck

section Callers

open Sections

variable {τ : Type} [DecidableEq τ]

/-- The state of evictions at once: the callers `τ`, each evicting the placement
that `calls` gives it. -/
abbrev Evictions (β τ : Type) := Config (Fabric β) Eviction EvictionDecision τ

/-- When an eviction commits, `can_evict` still allows it. -/
def StillEvictable (calls : τ → PlacementId) (c : Evictions β τ) : Event τ → Prop
  | .commit t => (c.phase t).carried.isSome → (c.state.canEvict (calls t)).allowed = true
  | _ => True

/-- The answers given so far, and all metadata (placements, replica sets,
reference counts and ledger among it), are those of the same evictions made one
after another in some order. -/
def Linearizable (calls : τ → PlacementId) (f : Fabric β) (c : Evictions β τ) : Prop :=
  evictSections.Linearized calls metadata f c

/-- Evictions at once, any number of them and of any placements, are linearizable
if each one is still evictable when it commits. -/
theorem evict_linearizable (calls : τ → PlacementId) (f : Fabric β) (es : List (Event τ))
    (hes : Runs.Along (evictSections.step calls) (StillEvictable calls) (.initial f) es) :
    Linearizable calls f (Runs.run (evictSections.step calls) (.initial f) es) := by
  refine linearized_run viewed_evictSections lasting_evictSections f (hes.mono fun c e he => ?_)
  cases e with
  | commit t => exact fun hk => (allowed_canEvict_iff c.state (calls t)).mp (he hk)
  | _ => trivial

end Callers

end Backend

/-! ### Two evictions at once -/

def overlap : List (Sections.Event Bool) :=
  [.check false, .check true, .between false, .between true, .commit false, .commit true]

def firstTwo : Bool → PlacementId
  | false => ⟨1⟩
  | true => ⟨2⟩

def copies (n : Nat) : Fabric SyntheticBackend :=
  Runs.run exec {} (Small.opening ++ List.replicate n Small.publication)

instance {τ : Type} [DecidableEq τ] (calls : τ → PlacementId)
    (c : Evictions SyntheticBackend τ) : ∀ e, Decidable (StillEvictable calls c e)
  | .check _ => .isTrue trivial
  | .between _ => .isTrue trivial
  | .commit t => inferInstanceAs (Decidable ((c.phase t).carried.isSome → _ = true))

/-- With a third placement, two may go at once. -/
theorem evict_linearizable_small :
    Linearizable firstTwo (copies 3)
      (Runs.run (evictSections.step firstTwo) (.initial (copies 3)) overlap) :=
  evict_linearizable firstTwo (copies 3) overlap (by decide +kernel)

theorem eq_pair_of_nodup {order : List Bool} (h : order.Nodup) (hfalse : false ∈ order)
    (htrue : true ∈ order) : order = [false, true] ∨ order = [true, false] := by
  have hperm : order.Perm [false, true] :=
    (List.perm_ext_iff_of_nodup h (by decide)).mpr fun b => by cases b <;> simp [hfalse, htrue]
  obtain ⟨a, b, rfl⟩ := List.length_eq_two.mp hperm.length_eq
  cases a <;> cases b <;> simp_all

/-- Two evictions at once of the only two placements are both allowed; one after
another, the second is refused. -/
theorem evict_not_linearizable :
    ¬Linearizable firstTwo (copies 2)
      (Runs.run (evictSections.step firstTwo) (.initial (copies 2)) overlap) := by
  generalize hc : Runs.run (evictSections.step firstTwo) (.initial (copies 2)) overlap = c
  rintro ⟨order, hnodup, hanswers, -⟩
  have hrun : (∀ t, ((c.phase t).answer.any fun d => d.allowed) = true) ∧
      ((evictSections.sequence firstTwo (copies 2) [false, true]).1.any fun a =>
        !a.2.allowed) = true ∧
      ((evictSections.sequence firstTwo (copies 2) [true, false]).1.any fun a =>
        !a.2.allowed) = true := by
    rw [← hc]
    decide +kernel
  obtain ⟨hallowed, hfirst, hsecond⟩ := hrun
  have hmem : ∀ t, t ∈ order := by
    intro t
    obtain ⟨d, hd, -⟩ := (Option.any_eq_true _ _).mp (hallowed t)
    have hseq := List.mem_map_of_mem (f := Prod.fst) ((hanswers t d).mpr hd)
    rwa [Sections.callers_sequence] at hseq
  have hrefused : ((evictSections.sequence firstTwo (copies 2) order).1.any fun a =>
      !a.2.allowed) = true := by
    obtain rfl | rfl := eq_pair_of_nodup hnodup (hmem false) (hmem true)
    · exact hfirst
    · exact hsecond
  -- whoever is refused in the sequence was allowed at once
  obtain ⟨⟨t, d⟩, hanswer, hd⟩ := List.any_eq_true.mp hrefused
  obtain ⟨d', hd', hallowed'⟩ := (Option.any_eq_true _ _).mp (hallowed t)
  rw [(hanswers t d).mp hanswer] at hd'
  obtain rfl := Option.some.inj hd'
  simp [hallowed'] at hd

end Fabric

end StorageFabric
