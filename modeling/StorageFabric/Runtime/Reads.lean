import StorageFabric.Runtime.References
import StorageFabric.Runtime.Serves
import StorageFabric.Storage.Dispatch

/-!
What a read returns: the content its placement was published with.

The store alone does not know that content, so a run records it on the side
(`Logged`). A placement that is not evicted serves the recorded content; the two
results about reads, one that a read succeeds and one that it returns nothing
else, are the same induction for two notions of what a blob still holds.
-/

namespace StorageFabric

open StorageBackend

/-- The store with a log of what each placement was published with. -/
structure Logged (β : Type) where
  fabric : Fabric β := {}
  log : List (PlacementId × Bytes) := []

namespace Fabric

variable {β : Type}

theorem lookupForRead_some {f : Fabric β} {o : ObjectId} {id : PlacementId} {p : PlacementRecord}
    {man : Manifest} (h : f.lookupForRead o (some id) = .ok (p, man)) :
    f.placements.lookup id = some p ∧ f.manifests.lookup p.manifest = some man := by
  unfold lookupForRead at h
  cases hp : f.placements.lookup id with
  | none => simp [hp, Result.fail] at h
  | some q =>
      cases hman : f.manifests.lookup q.manifest with
      | none => simp [hp, hman, Result.fail] at h
      | some m =>
          simp only [hp, hman, Except.ok.injEq, Prod.mk.injEq] at h
          obtain ⟨rfl, rfl⟩ := h
          exact ⟨rfl, hman⟩

theorem lookupForRead_eq {f : Fabric β} {id : PlacementId} {p : PlacementRecord} {man : Manifest}
    (hp : f.placements.lookup id = some p) (hman : f.manifests.lookup p.manifest = some man)
    (o : ObjectId) : f.lookupForRead o (some id) = .ok (p, man) := by
  simp only [lookupForRead, hp, hman]

section Backend

variable [StorageBackend β]

/-- The placement that an operation creates, with its content. -/
def publishes (f : Fabric β) (op : Op β) : List (PlacementId × Bytes) :=
  match f.call op with
  | none => []
  | some (c, g) =>
      match (g.publishCall c).1 with
      | .error _ => []
      | .ok p => [(p.id, c.content)]

def record (s : Logged β) (op : Op β) : Logged β :=
  ⟨s.fabric.exec op, s.fabric.publishes op ++ s.log⟩

theorem fabric_run_record (s : Logged β) (ops : List (Op β)) :
    (Runs.run record s ops).fabric = Runs.run exec s.fabric ops :=
  Runs.run_project (fun _ _ => rfl) s ops

theorem along_record {P : Fabric β → Op β → Prop} {s : Logged β} {ops : List (Op β)}
    (h : Runs.Along exec P s.fabric ops) :
    Runs.Along record (fun s op => P s.fabric op) s ops :=
  Runs.along_project (φ := Logged.fabric) (fun _ _ => rfl) h

/-! ### What a step does to placements and manifests -/

/-- Manifests are immutable. -/
theorem manifests_publishCall (f : Fabric β) (c : Call) {m : ManifestId} (hm : m ∈ f.manifests) :
    (f.publishCall c).2.manifests.lookup m = f.manifests.lookup m := by
  have hout := publishCall_outcome f c
  generalize (f.publishCall c).1 = r at hout
  generalize (f.publishCall c).2 = f' at hout
  have hinsert : ∀ man : Manifest, (⟨f.manifestCounter⟩ : ManifestId) ∉ f.manifests →
      (f.manifests.insert ⟨f.manifestCounter⟩ man).lookup m = f.manifests.lookup m :=
    fun man hfresh => AList.lookup_insert_ne fun heq => hfresh (heq ▸ hm)
  cases hout with
  | refused s ledger stale hrefuse => rfl
  | aborted s res ledger start rc g f' hstart habort =>
      rcases habort.manifests with heq | ⟨chunks, -, hfresh, heq⟩
      · rw [heq]
      · rw [heq, hinsert _ hfresh]
  | published res ledger start chunks desc t g f' hstart hpub =>
      have heq : f'.manifests = _ := congrArg ManifestView.manifests hpub.manifests
      rw [heq, hinsert _ hpub.freshManifest]

theorem manifests_exec (f : Fabric β) (op : Op β) {m : ManifestId} (hm : m ∈ f.manifests) :
    (f.exec op).manifests.lookup m = f.manifests.lookup m := by
  have heffect := exec_effect f op
  generalize f.exec op = f' at heffect
  -- a manifest view that did not change, or is that of a publication
  have hsame : ∀ {g : Fabric β}, g.manifestView = f.manifestView →
      g.manifests.lookup m = f.manifests.lookup m := fun hview =>
    congrArg (fun v => v.manifests.lookup m) hview
  have hcalled : ∀ {g : Fabric β} {c : Call}, SameViews f g →
      (g.publishCall c).2.manifests.lookup m = f.manifests.lookup m := by
    intro g c hviews
    have hman : g.manifests = f.manifests := congrArg ManifestView.manifests hviews.manifests
    rw [manifests_publishCall g c (hman ▸ hm), hman]
  cases heffect with
  | silent _ f' hviews => exact hsame hviews.manifests
  | registered _ t desc be f' _ _ _ hmanifests _ => exact hsame hmanifests
  | defined _ obj f' _ _ _ hmanifests _ => exact hsame hmanifests
  | duplicate _ f' _ _ hmanifests _ => exact hsame hmanifests
  | called _ c g _ hviews _ => exact hcalled hviews
  | moved _ source c g p _ hviews _ _ _ => exact hcalled (c := c) hviews
  | evicted id e hcheck => exact hsame (manifestView_evict f e)

/-- Placements stay, with their manifest and their backend; only a movement
brings an evicted one back. -/
theorem kept_exec (f : Fabric β) (op : Op β) {id : PlacementId} {p : PlacementRecord}
    (hp : f.placements.lookup id = some p) :
    ∃ q, (f.exec op).placements.lookup id = some q ∧ q.manifest = p.manifest ∧
      q.backend = p.backend ∧ (op.moves = none → isEvicted p = true → isEvicted q = true) := by
  have heffect := exec_effect f op
  generalize f.exec op = f' at heffect
  have hsame : ∀ {g : Fabric β}, g.placements = f.placements →
      ∃ q, g.placements.lookup id = some q ∧ q.manifest = p.manifest ∧ q.backend = p.backend ∧
        (op.moves = none → isEvicted p = true → isEvicted q = true) := fun heq =>
    ⟨p, heq ▸ hp, rfl, rfl, fun _ h => h⟩
  have hcalled : ∀ {g : Fabric β} {c : Call}, SameViews f g →
      (g.publishCall c).2.placements.lookup id = some p := by
    intro g c hviews
    have heq : g.placements = f.placements := congrArg CatalogView.placements hviews.catalog
    -- the new placement is under another id
    have hmem : id ∈ g.placements := heq ▸ AList.mem_iff_lookup.mpr ⟨p, hp⟩
    rw [lookup_placements_publishCall g c hmem, heq, hp]
  cases heffect with
  | silent _ f' hviews => exact hsame (congrArg CatalogView.placements hviews.catalog)
  | registered _ t desc be f' _ _ hcatalog _ _ =>
      exact hsame (congrArg CatalogView.placements hcatalog)
  | defined _ obj f' _ _ hcatalog _ _ => exact hsame (congrArg CatalogView.placements hcatalog)
  | duplicate _ f' _ hcatalog _ _ => exact hsame (congrArg CatalogView.placements hcatalog)
  | called _ c g _ hviews _ => exact ⟨p, hcalled hviews, rfl, rfl, fun _ h => h⟩
  | moved _ source c g _ _ hviews hmove _ _ =>
      refine ⟨_, AList.lookup_modify_eq_some.mpr ⟨p, hcalled (c := c) hviews, rfl⟩, ?_, ?_, ?_⟩
      · split <;> rfl
      · split <;> rfl
      · intro hnone
        rw [hmove] at hnone
        cases hnone
  | evicted id' e hcheck =>
      have heq := congrArg CatalogView.placements (catalogView_evict hcheck)
      have hlookup : ((f.evictRecord e).evictCommit e).2.placements.lookup id =
          some (if id = id' then evictedRecord p else p) :=
        (congrArg (AList.lookup id) heq).trans (AList.lookup_modify_eq_some.mpr ⟨p, hp, rfl⟩)
      refine ⟨_, hlookup, ?_, ?_, ?_⟩
      · split <;> rfl
      · split <;> rfl
      · intro _ hevicted
        split
        · rfl
        · exact hevicted

/-- An operation publishes nothing and creates no placement, or it is a
publication whose placement is the only new one. -/
theorem exec_publishes (f : Fabric β) (op : Op β) :
    (f.publishes op = [] ∧
      ∀ id, id ∈ (f.exec op).placements → id ∈ f.placements) ∨
    ∃ c g res ledger start chunks desc t k f',
      f.call op = some (c, g) ∧ SameViews f g ∧
      (g.publishCall c).1 = .ok (g.placementOf c desc t) ∧
      Started g c res ledger start (.ok chunks) k ∧
      Published g c res ledger chunks desc t k f' ∧
      f.publishes op = [(⟨f.placementCounter⟩, c.content)] ∧
      (f.exec op = f' ∨ ∃ source, f.exec op = f'.demote source) := by
  cases hcall : f.call op with
  | none =>
      left
      refine ⟨by rw [publishes, hcall], ?_⟩
      have heffect := exec_effect f op
      generalize f.exec op = f' at heffect
      have hsame : ∀ {g : Fabric β}, g.placements = f.placements →
          ∀ id, id ∈ g.placements → id ∈ f.placements := fun heq _ hid => heq ▸ hid
      -- without a call nothing adds a placement; an eviction changes a record
      cases heffect with
      | silent _ f' hviews => exact hsame (congrArg CatalogView.placements hviews.catalog)
      | registered _ t desc be f' _ _ hcatalog _ _ =>
          exact hsame (congrArg CatalogView.placements hcatalog)
      | defined _ obj f' _ _ hcatalog _ _ =>
          exact hsame (congrArg CatalogView.placements hcatalog)
      | duplicate _ f' _ hcatalog _ _ => exact hsame (congrArg CatalogView.placements hcatalog)
      | called _ c g hcall' _ _ =>
          rw [hcall] at hcall'
          cases hcall'
      | moved _ source c g p hcall' _ _ _ _ =>
          rw [hcall] at hcall'
          cases hcall'
      | evicted id' e hcheck =>
          intro id hid
          have heq := congrArg CatalogView.placements (catalogView_evict hcheck)
          have hid' : id ∈ AList.modify id' evictedRecord f.placements :=
            (congrArg (id ∈ ·) heq).mp hid
          exact AList.mem_modify.mp hid'
  | some call =>
      obtain ⟨c, g⟩ := call
      obtain ⟨hviews, hexec⟩ := exec_of_call hcall
      have hplacements : g.placements = f.placements :=
        congrArg CatalogView.placements hviews.catalog
      have hcounter : g.placementCounter = f.placementCounter :=
        congrArg CatalogView.placementCounter hviews.catalog
      have hpublishes : f.publishes op =
          match (g.publishCall c).1 with
          | .error _ => []
          | .ok p => [(p.id, c.content)] := by rw [publishes, hcall]
      have hmem : (∀ id, id ∈ (g.publishCall c).2.placements → id ∈ f.placements) →
          ∀ id, id ∈ (f.exec op).placements → id ∈ f.placements := by
        intro hold id hid
        rcases hexec with heq | ⟨source, -, -, heq⟩
        · exact hold id (heq ▸ hid)
        · rw [heq] at hid
          exact hold id (AList.mem_modify.mp hid)
      have hout := publishCall_outcome g c
      rcases hpub : g.publishCall c with ⟨r, f'⟩
      rw [hpub] at hout hpublishes hexec hmem
      dsimp only at hout hpublishes hexec hmem
      cases hout with
      | refused s ledger stale hrefuse =>
          exact .inl ⟨hpublishes, hmem fun id hid => hplacements ▸ hid⟩
      | aborted s res ledger start rc k _ hstart habort =>
          obtain ⟨m, n, -, -, hview⟩ := habort.catalog
          have heq : f'.placements = g.placements := congrArg CatalogView.placements hview
          exact .inl ⟨hpublishes, hmem fun id hid => hplacements ▸ heq ▸ hid⟩
      | published res ledger start chunks desc t k _ hstart hpublished =>
          right
          refine ⟨c, g, res, ledger, start, chunks, desc, t, k, f', rfl, hviews, congrArg Prod.fst hpub, hstart,
            hpublished, ?_, ?_⟩
          · rw [hpublishes, ← hcounter]
            rfl
          · exact hexec.imp id fun ⟨source, _, _, heq⟩ => ⟨source, heq⟩

end Backend

section Contents

variable [KeyValueBackend β]

/-- Every placement in `keep` serves the content that the log has for it. -/
structure Faithful (R : Option Bytes → Bytes → Prop) (keep : PlacementRecord → Bool)
    (s : Logged β) : Prop where
  manifest : ∀ id p, s.fabric.placements.lookup id = some p → p.manifest ∈ s.fabric.manifests
  logged : ∀ id x, (id, x) ∈ s.log → id ∈ s.fabric.placements
  serves : ∀ id p, s.fabric.placements.lookup id = some p → keep p = true →
    ∃ man parts, Serves R s.fabric p man parts ∧ ∀ x, (id, x) ∈ s.log ↔ x = parts.flatten

theorem faithful_empty (R : Option Bytes → Bytes → Prop) (keep : PlacementRecord → Bool) :
    Faithful R keep ({} : Logged β) where
  manifest id p hp := by simp at hp
  logged id x hx := absurd hx List.not_mem_nil
  serves id p hp := by simp at hp

/-- What a step has to preserve of the blobs, and to establish for the placement
it creates, so that all placements keep serving what they should. -/
structure Preserves (R : Option Bytes → Bytes → Prop) (keep : PlacementRecord → Bool)
    (f : Fabric β) (op : Op β) : Prop where
  kept : ∀ id p q, f.placements.lookup id = some p →
    (f.exec op).placements.lookup id = some q → keep q = true → keep p = true
  holds : ∀ id p q man, f.placements.lookup id = some p →
    (f.exec op).placements.lookup id = some q → keep q = true →
      f.manifests.lookup p.manifest = some man → p.backend ∈ f.backends → ∀ c ∈ man.chunks,
        ∀ slice, c.blob.value < f.blobCounter → R (f.stored p.backend (blobKey c.blob)) slice →
          R ((f.exec op).stored p.backend (blobKey c.blob)) slice
  creates : ∀ {c g res ledger start chunks desc t k f'}, f.call op = some (c, g) →
    SameViews f g → (g.publishCall c).1 = .ok (g.placementOf c desc t) →
      Started g c res ledger start (.ok chunks) k →
        Published g c res ledger chunks desc t k f' →
          List.Forall₂ (fun ch slice => R (k.stored c.backend (blobKey ch.blob)) slice) chunks
            c.slices

section Record

variable {R : Option Bytes → Bytes → Prop} {keep : PlacementRecord → Bool} {s : Logged β}
  {op : Op β}

theorem Faithful.serves_old (h : Faithful R keep s) (hop : Preserves R keep s.fabric op)
    {id : PlacementId} {q : PlacementRecord} (hq : (s.fabric.exec op).placements.lookup id = some q)
    (hid : id ∈ s.fabric.placements) (hkeep : keep q = true) :
    ∃ man parts, Serves R (s.fabric.exec op) q man parts ∧
      ∀ x, (id, x) ∈ s.log ↔ x = parts.flatten := by
  obtain ⟨p, hp⟩ := AList.mem_iff_lookup.mp hid
  obtain ⟨q', hq', hmanifest, hbackend, -⟩ := kept_exec s.fabric op hp
  rw [hq] at hq'
  cases hq'
  obtain ⟨man, parts, hserves, hlog⟩ := h.serves id p hp (hop.kept id p q hp hq hkeep)
  refine ⟨man, parts, hserves.mono hmanifest hbackend ?_ (later_exec _ op) ?_, hlog⟩
  · exact manifests_exec _ op (h.manifest id p hp)
  · exact hop.holds id p q man hp hq hkeep hserves.manifest hserves.backend

theorem Faithful.manifest_old (h : Faithful R keep s) {id : PlacementId} {q : PlacementRecord}
    (hq : (s.fabric.exec op).placements.lookup id = some q) (hid : id ∈ s.fabric.placements) :
    q.manifest ∈ (s.fabric.exec op).manifests := by
  obtain ⟨p, hp⟩ := AList.mem_iff_lookup.mp hid
  obtain ⟨q', hq', hmanifest, -⟩ := kept_exec s.fabric op hp
  rw [hq] at hq'
  cases hq'
  have hmem := h.manifest id p hp
  obtain ⟨man, hman⟩ := AList.mem_iff_lookup.mp hmem
  rw [hmanifest, AList.mem_iff_lookup]
  exact ⟨man, (manifests_exec _ op hmem).trans hman⟩

theorem mem_exec (f : Fabric β) (op : Op β) {id : PlacementId} (hid : id ∈ f.placements) :
    id ∈ (f.exec op).placements := by
  obtain ⟨p, hp⟩ := AList.mem_iff_lookup.mp hid
  obtain ⟨q, hq, -⟩ := kept_exec f op hp
  exact AList.mem_iff_lookup.mpr ⟨q, hq⟩

/-- After a publication, a placement is an old one or the new one, which serves
what the publication committed. -/
theorem published_cases {f g f' e : Fabric β} {c : Call} {res : Reservation}
    {ledger : ReservationLedger} {chunks : List ChunkDescriptor} {desc : BackendDescriptor}
    {t : StorageTier} {k : Fabric β} {man : Manifest} {parts : List Bytes} {id : PlacementId}
    {q : PlacementRecord} (hviews : SameViews f g)
    (hpub : Published g c res ledger chunks desc t k f')
    (hserves : Serves R f' (g.placementOf c desc t) man parts)
    (hexec : e = f' ∨ ∃ source, e = f'.demote source) (hq : e.placements.lookup id = some q) :
    id ∈ f.placements ∨ id = ⟨f.placementCounter⟩ ∧ Serves R e q man parts := by
  have hplacements : g.placements = f.placements :=
    congrArg CatalogView.placements hviews.catalog
  have hcounter : g.placementCounter = f.placementCounter :=
    congrArg CatalogView.placementCounter hviews.catalog
  -- the record as the publication made it, before a movement may have demoted it
  obtain ⟨r, hr, hmono⟩ : ∃ r, f'.placements.lookup id = some r ∧
      (Serves R f' r man parts → Serves R e q man parts) := by
    rcases hexec with rfl | ⟨source, rfl⟩
    · exact ⟨q, hq, fun hserved => hserved⟩
    · obtain ⟨r, hr, rfl⟩ := AList.lookup_modify_eq_some.mp hq
      have hgrows : Grows f' (f'.demote source) := .of_eq rfl (Nat.le_refl _)
      refine ⟨r, hr, fun hserved => hserved.mono ?_ ?_ rfl hgrows.later fun _ _ _ _ hr => hr⟩
      all_goals split <;> rfl
  have hview := congrArg (fun v => v.placements.lookup id) hpub.catalog
  rcases AList.lookup_insert_eq_some.mp (hview.symm.trans hr) with ⟨hid, hrec⟩ | ⟨-, hold⟩
  · right
    rw [hcounter] at hid
    exact ⟨hid, hmono (hrec ▸ hserves)⟩
  · left
    rw [← hplacements]
    exact AList.mem_iff_lookup.mpr ⟨r, hold⟩

theorem Faithful.record (h : Faithful R keep s) (hindexed : Indexed s.fabric)
    (hop : Preserves R keep s.fabric op) : Faithful R keep (record s op) := by
  rcases exec_publishes s.fabric op with ⟨hnone, hold⟩ |
    ⟨c, g, res, ledger, start, chunks, desc, t, k, f', hcall, hviews, hok, hstart, hpub, hone, hexec⟩
  · have hlog : (Fabric.record s op).log = s.log := by rw [Fabric.record, hnone, List.nil_append]
    constructor
    · intro id q hq
      exact h.manifest_old hq (hold id (AList.mem_iff_lookup.mpr ⟨q, hq⟩))
    · intro id x hx
      exact mem_exec _ op (h.logged id x (hlog ▸ hx))
    · intro id q hq hkeep
      rw [hlog]
      exact h.serves_old hop hq (hold id (AList.mem_iff_lookup.mpr ⟨q, hq⟩)) hkeep
  · -- the new placement and what it serves
    let new : PlacementId := ⟨s.fabric.placementCounter⟩
    have hlog : (Fabric.record s op).log = (new, c.content) :: s.log := by
      rw [Fabric.record, hone, List.singleton_append]
    have hplacements : g.placements = s.fabric.placements :=
      congrArg CatalogView.placements hviews.catalog
    have hcounter : g.placementCounter = s.fabric.placementCounter :=
      congrArg CatalogView.placementCounter hviews.catalog
    -- the id is checked before the placement is made, with the counter as it was
    have hfresh : new ∉ s.fabric.placements := by
      intro hmem
      rw [← hplacements] at hmem
      refine hpub.freshPlacement ?_
      rw [hcounter]
      exact hmem
    have hindexed' : Indexed g := by
      obtain ⟨-, hindex, -, -, -, hblob⟩ := BlobView.mk.inj hviews.blobs
      intro d b hb
      rw [hindex] at hb
      rw [hblob]
      exact hindexed d b hb
    have hserves := serves_published hindexed' hstart hpub
      (hop.creates hcall hviews hok hstart hpub)
    have hnew : ∀ id q, (s.fabric.exec op).placements.lookup id = some q →
        id ∈ s.fabric.placements ∨
          id = new ∧ Serves R (s.fabric.exec op) q (g.manifestOf c chunks) c.slices :=
      fun id q hq => published_cases hviews hpub hserves hexec hq
    have hsize : c.slices.flatten = c.content :=
      Call.flatten_slices (size_of_accepts hstart.accepted)
    constructor
    · intro id q hq
      rcases hnew id q hq with hold | ⟨-, hserved⟩
      · exact h.manifest_old hq hold
      · exact AList.mem_iff_lookup.mpr ⟨_, hserved.manifest⟩
    · intro id x hx
      rw [hlog, List.mem_cons] at hx
      rcases hx with heq | hx
      · obtain ⟨rfl, -⟩ := Prod.mk.inj heq
        have hmem : new ∈ f'.placements := by
          have hview : f'.placements = _ := congrArg CatalogView.placements hpub.catalog
          rw [hview, AList.mem_insert]
          exact .inl (by rw [hcounter])
        -- a movement demotes its source and removes no placement
        change new ∈ (s.fabric.exec op).placements
        rcases hexec with heq | ⟨source, heq⟩
        · rw [heq]
          exact hmem
        · rw [heq]
          exact AList.mem_modify.mpr hmem
      · exact mem_exec _ op (h.logged id x hx)
    · intro id q hq hkeep
      rw [hlog]
      rcases hnew id q hq with hold | ⟨rfl, hserved⟩
      · obtain ⟨man, parts, hserved, hx⟩ := h.serves_old hop hq hold hkeep
        refine ⟨man, parts, hserved, fun x => ?_⟩
        have hne : id ≠ new := fun heq => hfresh (heq ▸ hold)
        rw [List.mem_cons, Prod.mk.injEq, ← hx x]
        exact ⟨fun h => h.resolve_left fun h => hne h.1, .inr⟩
      · refine ⟨_, _, hserved, fun x => ?_⟩
        rw [List.mem_cons, Prod.mk.injEq, hsize]
        constructor
        · rintro (⟨-, rfl⟩ | hx)
          · rfl
          · exact absurd (h.logged _ _ hx) hfresh
        · rintro rfl
          exact .inl ⟨rfl, rfl⟩

end Record

/-! ### The bytes in play -/

/-- `S` has the slices that an operation publishes and the blobs of the backend
that it registers. -/
structure Involves (S : Set Bytes) (f : Fabric β) (op : Op β) : Prop where
  slices : ∀ c g, f.call op = some (c, g) → ∀ slice ∈ c.slices, slice ∈ S
  registered : ∀ be, op.registers = some be → ∀ b data,
    KeyValueBackend.view be (blobKey b) = some data → data ∈ S

structure Stocked (S : Set Bytes) (f : Fabric β) : Prop where
  pool : Pool S f
  indexed : Indexed f

theorem Stocked.of_views {S : Set Bytes} {f g : Fabric β} (h : Stocked S f)
    (hview : g.blobView = f.blobView) : Stocked S g := by
  obtain ⟨hbackends, hindex, -, -, -, hcounter⟩ := BlobView.mk.inj hview
  constructor
  · intro k b data hdata
    rw [stored_congr hbackends] at hdata
    exact h.pool k b data hdata
  · intro d b hb
    rw [hindex] at hb
    rw [hcounter]
    exact h.indexed d b hb

theorem Started.stocked {S : Set Bytes} {f start g : Fabric β} {c : Call} {res : Reservation}
    {ledger : ReservationLedger} {rc : Result (List ChunkDescriptor)}
    (h : Started f c res ledger start rc g) (hf : Stocked S f)
    (hslices : ∀ slice ∈ c.slices, slice ∈ S) : Stocked S g where
  pool := h.pool hf.pool hslices
  indexed := by
    have hloop := chunkLoop_invariant (I := Indexed)
      (fun o s f hf => hf.chunkStep c.backend c.opts.dedupe o s) (chunkLength c.obj c.opts)
      c.content.length 0 c.content start (h.indexed_start hf.indexed)
    rwa [h.loop] at hloop

theorem Stocked.publishCall {S : Set Bytes} {f : Fabric β} (h : Stocked S f) {c : Call}
    (hslices : ∀ slice ∈ c.slices, slice ∈ S) : Stocked S (f.publishCall c).2 := by
  have hout := publishCall_outcome f c
  generalize (f.publishCall c).1 = r at hout
  generalize (f.publishCall c).2 = f' at hout
  cases hout with
  | refused s ledger stale hrefuse => exact h.of_views rfl
  | aborted s res ledger start rc g f' hstart habort =>
      exact (hstart.stocked h hslices).of_views habort.blobs
  | published res ledger start chunks desc t g f' hstart hpub =>
      exact (hstart.stocked h hslices).of_views hpub.blobs

theorem Stocked.exec {S : Set Bytes} {f : Fabric β} (h : Stocked S f) {op : Op β}
    (hop : Involves S f op) : Stocked S (f.exec op) := by
  have heffect := exec_effect f op
  generalize f.exec op = f' at heffect
  cases heffect with
  | silent _ f' hviews => exact h.of_views hviews.blobs
  | registered _ t desc be f' hbe _ _ _ hblobs =>
      obtain ⟨hbackends, hindex, -, -, -, hcounter⟩ := BlobView.mk.inj hblobs
      constructor
      · intro k b data hdata
        -- `emplace` keeps a backend that has the id already
        by_cases hnew : (⟨f.backendCounter⟩ : StorageBackendId) ∈ f.backends
        · have hsame : f'.backends = f.backends := by
            rw [hbackends, AList.emplace, if_pos hnew]
          rw [stored_congr hsame] at hdata
          exact h.pool k b data hdata
        · rw [stored, hbackends, AList.lookup_emplace_of_notMem hnew] at hdata
          by_cases hk : k = ⟨f.backendCounter⟩
          · rw [if_pos hk] at hdata
            exact hop.registered be hbe b data hdata
          · rw [if_neg hk] at hdata
            exact h.pool k b data hdata
      · intro d b hb
        rw [hindex] at hb
        rw [hcounter]
        exact h.indexed d b hb
  | defined _ obj f' _ _ _ _ hblobs => exact h.of_views hblobs
  | duplicate _ f' _ _ _ hblobs => exact h.of_views hblobs
  | called _ c g hcall hviews _ =>
      exact (h.of_views hviews.blobs).publishCall (hop.slices c g hcall)
  | moved _ source c g p hcall hviews _ _ _ =>
      have hpub := (h.of_views hviews.blobs).publishCall (hop.slices c g hcall)
      exact hpub.of_views rfl
  | evicted id e hcheck =>
      obtain ⟨-, hindex, -, -, -, hcounter⟩ := BlobView.mk.inj (blobView_evict f e)
      constructor
      · intro k b data hdata
        rw [← evictPartly_length] at hdata
        -- an eviction removes blobs and writes none
        rcases stored_evictPartly f e _ k b with heq | ⟨-, -, hnone⟩
        · exact h.pool k b data (heq ▸ hdata)
        · rw [hnone] at hdata
          cases hdata
      · intro d b hb
        rw [hindex] at hb
        rw [hcounter]
        exact h.indexed d b hb

theorem stocked_empty (S : Set Bytes) : Stocked S ({} : Fabric β) where
  pool k b data hdata := by simp [stored] at hdata
  indexed d b hb := by simp at hb

omit [KeyValueBackend β] in
/-- A read by the object alone is one of an available placement of the object. -/
theorem read_found [StorageBackend β] {f : Fabric β}
    (hkeyed : ∀ id p, f.placements.lookup id = some p → p.id = id) {o : ObjectId} {data : Bytes}
    (h : (f.read o none).1 = .ok data) :
    ∃ p, f.placements.lookup p.id = some p ∧ p.object = o ∧ isAvailable p = true ∧
      f.read o (some p.id) = f.read o none := by
  cases hfind : f.placements.values.find? fun p => p.object = o && isAvailable p with
  | none =>
      have hnone : f.lookupForRead o none =
          Result.fail .notFound "no authoritative placement for object" := by
        simp only [lookupForRead, findAuthoritativePlacement, hfind, Result.fail]
      rw [Fabric.read, hnone] at h
      cases h
  | some p =>
      obtain ⟨id, hp⟩ := AList.mem_values.mp (List.mem_of_find?_eq_some hfind)
      obtain rfl := hkeyed id p hp
      have hboth := List.find?_some hfind
      rw [Bool.and_eq_true, decide_eq_true_iff] at hboth
      have hsame : f.lookupForRead o (some p.id) = f.lookupForRead o none := by
        simp only [lookupForRead, findAuthoritativePlacement, hfind, hp]
      exact ⟨p, hp, hboth.1, hboth.2, by rw [Fabric.read, Fabric.read, hsame]⟩

omit [KeyValueBackend β] in
theorem read_ok [StorageBackend β] {f : Fabric β} {o : ObjectId} {id : Option PlacementId} {data : Bytes}
    (h : (f.read o id).1 = .ok data) :
    ∃ p man be out, f.lookupForRead o id = .ok (p, man) ∧
      f.backends.lookup p.backend = some be ∧
      readChunks (man.chunks.map fun c => (be, c)) = .ok out ∧ checkLength man out = .ok data := by
  unfold Fabric.read at h
  cases hlookup : f.lookupForRead o id with
  | error s => simp [hlookup] at h
  | ok found =>
      obtain ⟨p, man⟩ := found
      cases hbe : f.backends.lookup p.backend with
      | none =>
          have hnone : (f.account fun a =>
              { a with activeReads := a.activeReads + 1 }).backends.lookup p.backend = none := hbe
          simp [hlookup, getBackend, hnone, Result.fail] at h
      | some be =>
          have hsome : (f.account fun a =>
              { a with activeReads := a.activeReads + 1 }).backends.lookup p.backend = some be :=
            hbe
          cases hreserve : reserveOut man with
          | error s => simp [hlookup, getBackend, hsome, hreserve] at h
          | ok u =>
              cases hchunks : readChunks (man.chunks.map fun c => (be, c)) with
              | error s => simp [hlookup, getBackend, hsome, hreserve, hchunks] at h
              | ok out =>
                  simp only [hlookup, getBackend, hsome, hreserve, hchunks] at h
                  exact ⟨p, man, be, out, rfl, hbe, hchunks, h⟩

/-! ### Reads of available placements -/

section Available

theorem read_of_present {f : Fabric β} {p : PlacementRecord} {man : Manifest} {parts : List Bytes}
    {be : β} (hbe : f.backends.lookup p.backend = some be)
    (hreadable : KeyValueBackend.Readable be)
    (hlength : parts.flatten.length = man.totalLogicalLength.toNat)
    (hlengths : List.Forall₂ (fun c slice => c.physicalLength.toNat = slice.length) man.chunks parts)
    (hpresent : List.Forall₂ (fun c slice =>
      Present (KeyValueBackend.view be (blobKey c.blob)) slice) man.chunks parts)
    {o : ObjectId} {id : Option PlacementId} (hlookup : f.lookupForRead o id = .ok (p, man)) :
    (f.read o id).1 = .ok parts.flatten := by
  have hchunks := readChunks_of_present hreadable hlengths hpresent
  have hbackend : (f.account fun a =>
      { a with activeReads := a.activeReads + 1 }).getBackend p.backend = .ok be := by
    have hsame : (f.account fun a =>
        { a with activeReads := a.activeReads + 1 }).backends.lookup p.backend = some be := hbe
    rw [getBackend, hsame]
  have hreserve : reserveOut man = .ok () := by
    refine reserveOut_of_stored ?_
    rw [chunkBytes_of_lengths hlengths, hlength]
  simp only [Fabric.read, hlookup, hbackend, hreserve, hchunks, checkLength, hlength, ne_eq,
    not_true_eq_false, if_false]

theorem Serves.read {f : Fabric β} {p : PlacementRecord} {man : Manifest} {parts : List Bytes}
    (h : Serves Present f p man parts) {o : ObjectId} {id : Option PlacementId}
    (hlookup : f.lookupForRead o id = .ok (p, man))
    (hreadable : ∀ be, f.backends.lookup p.backend = some be → KeyValueBackend.Readable be) :
    (f.read o id).1 = .ok parts.flatten := by
  obtain ⟨be, hbe⟩ := AList.mem_iff_lookup.mp h.backend
  have hpresent : List.Forall₂ (fun c slice =>
      Present (KeyValueBackend.view be (blobKey c.blob)) slice) man.chunks parts :=
    h.holds.imp fun c slice hholds => by simpa [stored, hbe] using hholds
  exact read_of_present hbe (hreadable be hbe) h.length h.lengths hpresent hlookup

/-- Without movements and with eager verification, what a placement has not
given up stays where it is. -/
theorem preserves_present {S : Set Bytes} (hinj : Set.InjOn ContentDigest.of S) {f : Fabric β}
    {op : Op β} (hf : Stocked S f) (href : Referenced f) (hop : Involves S f op)
    (hmove : op.moves = none) (heager : op.eager = true) :
    Preserves Present (fun p => !isEvicted p) f op where
  kept id p q hp hq hkeep := by
    obtain ⟨q', hq', -, -, hevicted⟩ := kept_exec f op hp
    rw [hq] at hq'
    cases hq'
    rw [Bool.not_eq_true'] at hkeep ⊢
    exact Bool.eq_false_iff.mpr fun hgone =>
      Bool.false_ne_true (hkeep.symm.trans (hevicted hmove hgone))
  holds id p q man hp hq hkeep hman hbackend c hc slice hlt hpresent := by
    rcases exec_grows f op with hgrows | ⟨id', e, rfl, hcheck, heq⟩
    · rw [hgrows.stored _ hbackend _ hlt]
      exact hpresent
    · obtain ⟨q', hq', -, -, hevicted⟩ := kept_exec f (.evict id') hp
      rw [hq] at hq'
      cases hq'
      have hkept : isEvicted p = false := by
        rw [Bool.not_eq_true'] at hkeep
        exact Bool.eq_false_iff.mpr fun hgone =>
          Bool.false_ne_true (hkeep.symm.trans (hevicted rfl hgone))
      -- the placement that was evicted has been given up
      have hne : id ≠ id' := by
        rintro rfl
        have hview := congrArg (fun v => v.placements.lookup id) (catalogView_evict hcheck)
        have hlookup : ((f.evictRecord e).evictCommit e).2.placements.lookup id =
            some (evictedRecord p) :=
          hview.trans (AList.lookup_modify_eq_some.mpr ⟨p, hp, by rw [if_pos rfl]⟩)
        rw [heq, hlookup] at hq
        cases hq
        cases hkeep
      have hmem : c.blob ∈ f.blobIds p := by
        rw [blobIds, hman]
        exact List.mem_map_of_mem hc
      have hnot := href.notMem_reclaimed hcheck hne hp hkept hmem
      rw [heq, ← evictPartly_length]
      rcases stored_evictPartly f e _ p.backend c.blob with hsame | ⟨-, hgone, -⟩
      · rw [hsame]
        exact hpresent
      · exact absurd hgone hnot
  creates hcall hviews _ hstart hpub :=
    present_of_verified hinj (hf.of_views hviews.blobs).pool (hop.slices _ _ hcall)
      ((eager_of_call hcall).trans heager) hstart hpub

/-- In every run without movements that verifies what it publishes, an available
placement reads as what it was published with, once its backend can be read. -/
theorem read_available {S : Set Bytes} (hinj : Set.InjOn ContentDigest.of S) (ops : List (Op β))
    (hops : ∀ op ∈ ops, op.moves = none ∧ op.eager = true)
    (hS : Runs.Along exec (Involves S) {} ops)
    (hreadable : ∀ k be, (Runs.run exec {} ops).backends.lookup k = some be →
      KeyValueBackend.Readable be) :
    let s := Runs.run record {} ops
    ∀ id p, s.fabric.placements.lookup id = some p → isAvailable p = true →
      ∃ content, (∀ x, (id, x) ∈ s.log ↔ x = content) ∧
        ∀ o, (s.fabric.read o (some id)).1 = .ok content := by
  intro s id p hp havail
  have hfabric : s.fabric = Runs.run exec {} ops := fabric_run_record {} ops
  let I : Logged β → Prop := fun s =>
    Faithful Present (fun p => !isEvicted p) s ∧ Stocked S s.fabric ∧ Referenced s.fabric
  have hinv : I s := by
    refine Runs.invariant (I := I)
      (P := fun s op => (op.moves = none ∧ op.eager = true) ∧ Involves S s.fabric op) ?_ ?_ ?_
    · rintro t op ⟨hfaithful, hstocked, href⟩ ⟨⟨hmove, heager⟩, hinvolves⟩
      have hdemotes : demotes isEvicted t.fabric op = false := by rw [demotes, hmove]
      exact ⟨hfaithful.record hstocked.indexed
          (preserves_present hinj hstocked href hinvolves hmove heager),
        hstocked.exec hinvolves, href.exec hdemotes⟩
    · exact ⟨faithful_empty _ _, stocked_empty S, referenced_empty⟩
    · refine Runs.along_and.mpr ⟨Runs.along_of_mem fun _ op hop => hops op hop, ?_⟩
      exact along_record hS
  obtain ⟨hfaithful, -, -⟩ := hinv
  obtain ⟨man, parts, hserves, hlog⟩ := hfaithful.serves id p hp (by
    rw [isEvicted_of_isAvailable havail]
    rfl)
  exact ⟨parts.flatten, hlog, fun o => hserves.read (lookupForRead_eq hp hserves.manifest o)
    fun be hbe => hreadable p.backend be (hfabric ▸ hbe)⟩

end Available

/-! ### Reads at any moment -/

/-- The states that an operation passes through: a publication stores its chunks
one by one, an eviction removes a record and then the blobs it reclaims. -/
inductive Passes (f : Fabric β) (op : Op β) : Fabric β → Prop
  | before : Passes f op f
  | after : Passes f op (f.exec op)
  | storing (c : Call) (g : Fabric β) (res : Reservation) (ledger : ReservationLedger)
      (start k : Fabric β) (rc : Result (List ChunkDescriptor)) (turns : Nat)
      (hcall : f.call op = some (c, g)) (hstart : Started g c res ledger start rc k) :
      Passes f op (chunkLoop c.backend c.opts.dedupe (chunkLength c.obj c.opts) turns 0 c.content
        start).2
  | evicting (id : PlacementId) (e : Eviction) (hop : op = .evict id)
      (hcheck : f.evictCheck id = .inr e) : Passes f op (f.evictRecord e)
  | reclaiming (id : PlacementId) (e : Eviction) (n : Nat) (hop : op = .evict id)
      (hcheck : f.evictCheck id = .inr e) : Passes f op ((f.evictRecord e).evictPartly e n)

theorem Passes.later {f m : Fabric β} {op : Op β} (h : Passes f op m) : Later f m := by
  cases h with
  | before => exact (Grows.refl f).later
  | after => exact later_exec f op
  | storing c g res ledger start k rc turns hcall hstart =>
      have hviews := (exec_of_call hcall).1
      have hbegin := (Grows.of_views hviews.blobs).trans (.of_views hstart.blobs)
      exact (hbegin.trans (grows_chunkLoop _ _ _ _ _ _ start)).later
  | evicting id e hop hcheck => exact later_evictRecord f e
  | reclaiming id e n hop hcheck => exact later_evictPartly f e n

def Moment (f : Fabric β) (later : List (Op β)) (m : Fabric β) : Prop :=
  m = f ∨ ∃ before op after, later = before ++ op :: after ∧
    Passes (Runs.run exec f before) op m

theorem Moment.later {f m : Fabric β} {later : List (Op β)} (h : Moment f later m) :
    Later f m := by
  rcases h with rfl | ⟨before, op, after, -, hpasses⟩
  · exact (Grows.refl m).later
  · exact (later_run f before).trans hpasses.later

/-- The chunks of a manifest, each with the backend object as it was at some
moment after the lookup. -/
structure Interleaved (f : Fabric β) (later : List (Op β)) (p : PlacementRecord) (man : Manifest)
    (reads : List (β × ChunkDescriptor)) : Prop where
  chunks : reads.map Prod.snd = man.chunks
  moments : ∀ r ∈ reads, ∃ m, Moment f later m ∧ m.backends.lookup p.backend = some r.1

/-- A publication that succeeds without reading back what it published, and
takes a blob from the dedup index under whose key its backend has other bytes,
as long as the slice. -/
def Misdirects (f : Fabric β) (op : Op β) : Prop :=
  ∃ c g p, f.call op = some (c, g) ∧ (g.publishCall c).1 = .ok p ∧
    c.opts.eagerVerify = false ∧ c.opts.dedupe = true ∧ ∃ slice ∈ c.slices, ∃ b,
      g.blobByDigest.lookup (ContentDigest.of slice) = some b ∧
        ¬Compatible (g.stored c.backend (blobKey b)) slice

/-- Unless a publication is misdirected, no placement ever holds wrong bytes. -/
theorem preserves_compatible {S : Set Bytes} (hinj : Set.InjOn ContentDigest.of S) {f : Fabric β}
    {op : Op β} (hf : Stocked S f) (hop : Involves S f op) (hdirect : ¬Misdirects f op) :
    Preserves Compatible (fun _ => true) f op where
  kept _ _ _ _ _ _ := rfl
  holds _ _ _ _ _ _ _ _ hbackend _ _ _ hlt hcompatible :=
    (later_exec f op).compatible hbackend hlt hcompatible
  creates {c g res ledger start chunks desc t k f'} hcall hviews hok hstart hpub := by
    have hg := hf.of_views hviews.blobs
    have hslices := hop.slices c g hcall
    cases heager : c.opts.eagerVerify with
    | true =>
        exact (present_of_verified hinj hg.pool hslices heager hstart hpub).imp
          fun _ _ hpresent => hpresent.compatible
    | false =>
        obtain ⟨hbackends, hindex, -⟩ := BlobView.mk.inj hstart.blobs
        have hmem : c.backend ∈ g.backends := backend_of_accepts hstart.accepted
        refine compatible_chunkLoop (hinj.mono hslices) (hstart.indexed_start hg.indexed)
          (hbackends ▸ hmem) ?_ hstart.loop
        intro hdedupe slice hslice b hb
        by_contra hwrong
        rw [hindex] at hb
        rw [stored_congr hbackends] at hwrong
        exact hdirect ⟨c, g, _, hcall, hok, heager, hdedupe, slice, hslice, b, hb, hwrong⟩

/-- In every run without a misdirected publication, a read that succeeds returns
what the placement was published with, even when other operations run between
the lookup and the reads of the chunks. -/
theorem read_published {S : Set Bytes} (hinj : Set.InjOn ContentDigest.of S) (ops : List (Op β))
    (hops : Runs.Along exec (fun f op => Involves S f op ∧ ¬Misdirects f op) {} ops) :
    let s := Runs.run record {} ops
    (∀ o id data, (s.fabric.read o (some id)).1 = .ok data → ∀ x, (id, x) ∈ s.log ↔ x = data) ∧
      ∀ later o id p man reads out data, s.fabric.lookupForRead o (some id) = .ok (p, man) →
        Interleaved s.fabric later p man reads → readChunks reads = .ok out →
          checkLength man out = .ok data → ∀ x, (id, x) ∈ s.log ↔ x = data := by
  intro s
  let I : Logged β → Prop := fun s =>
    Faithful Compatible (fun _ => true) s ∧ Stocked S s.fabric
  have hinv : I s := by
    refine Runs.invariant (I := I)
      (P := fun s op => Involves S s.fabric op ∧ ¬Misdirects s.fabric op) ?_ ?_ ?_
    · rintro t op ⟨hfaithful, hstocked⟩ ⟨hinvolves, hdirect⟩
      exact ⟨hfaithful.record hstocked.indexed
        (preserves_compatible hinj hstocked hinvolves hdirect), hstocked.exec hinvolves⟩
    · exact ⟨faithful_empty _ _, stocked_empty S⟩
    · exact along_record (P := fun f op => Involves S f op ∧ ¬Misdirects f op) (s := {}) hops
  have hread : ∀ later o id p man reads out data,
      s.fabric.lookupForRead o (some id) = .ok (p, man) →
        Interleaved s.fabric later p man reads → readChunks reads = .ok out →
          checkLength man out = .ok data → ∀ x, (id, x) ∈ s.log ↔ x = data := by
    intro later o id p man reads out data hlookup hinterleaved hchunks hlength
    obtain ⟨hp, hman⟩ := lookupForRead_some hlookup
    obtain ⟨man', parts, hserves, hlog⟩ := hinv.1.serves id p hp rfl
    have hsame : man' = man := Option.some.inj (hserves.manifest.symm.trans hman)
    subst hsame
    have hout : out = parts.flatten := by
      refine readChunks_of_compatible ?_ ?_ hchunks
      · have hlengths := hserves.lengths
        rw [← hinterleaved.chunks, List.forall₂_map_left_iff] at hlengths
        exact hlengths
      · have hholds := hserves.holds
        rw [← hinterleaved.chunks, List.forall₂_map_left_iff] at hholds
        refine forall₂_imp_of_mem hholds fun r hr slice _ hcompatible => ?_
        -- the chunk as it was found at its own moment
        obtain ⟨m, hm, hbe⟩ := hinterleaved.moments r hr
        have hdrawn := hserves.drawn r.2 (hinterleaved.chunks ▸ List.mem_map_of_mem hr)
        have hthen := hm.later.compatible hserves.backend hdrawn hcompatible
        rwa [stored, hbe] at hthen
    have hdata : out = data := by
      unfold checkLength at hlength
      split at hlength
      · cases hlength
      · exact Except.ok.inj hlength
    rw [← hdata, hout]
    exact hlog
  refine ⟨fun o id data h => ?_, hread⟩
  obtain ⟨p, man, be, out, hlookup, hbe, hchunks, hlength⟩ := read_ok h
  refine hread [] o id p man _ out data hlookup ⟨?_, ?_⟩ hchunks hlength
  · rw [List.map_map]
    exact List.map_id _
  · intro r hr
    obtain ⟨c, -, rfl⟩ := List.mem_map.mp hr
    exact ⟨s.fabric, .inl rfl, hbe⟩

end Contents

/-! ### Small runs -/

/-- Two verified publications of which one is evicted. -/
def verifiedOps : List (Op SyntheticBackend) :=
  Small.opening ++ [Small.verified, Small.verified, .evict ⟨1⟩]

theorem involves_verifiedOps : Runs.Along exec (Involves {[7]}) {} verifiedOps := by
  have hsilent : ∀ (f : Fabric SyntheticBackend) (op : Op SyntheticBackend), f.call op = none →
      (∀ be, op.registers = some be → ∀ b,
        KeyValueBackend.view be (blobKey b) = none) → Involves {[7]} f op := by
    intro f op hcall hregisters
    constructor
    · intro c g h
      rw [hcall] at h
      cases h
    · intro be hbe b data hdata
      rw [hregisters be hbe b] at hdata
      cases hdata
  have hpublish : ∀ f : Fabric SyntheticBackend, Involves {[7]} f Small.verified := by
    intro f
    constructor
    · intro c g h slice hslice
      cases h
      exact List.mem_singleton.mp hslice
    · intro be hbe
      cases hbe
  refine ⟨?_, ?_, ?_, hpublish _, hpublish _, ?_, trivial⟩
  · refine hsilent _ _ rfl fun be hbe b => ?_
    cases hbe
    rfl
  all_goals exact hsilent _ _ rfl fun be hbe => by cases hbe

/-- The second placement reads after the first was evicted. -/
theorem read_available_small :
    let s := Runs.run record {} verifiedOps
    ∃ content, (∀ x, (⟨2⟩, x) ∈ s.log ↔ x = content) ∧
      ∀ o, (s.fabric.read o (some ⟨2⟩)).1 = .ok content := by
  have hrun : ((Runs.run record {} verifiedOps).fabric.placements.lookup ⟨2⟩).any isAvailable =
        true ∧
      ∀ be ∈ (Runs.run exec {} verifiedOps).backends.values, be.profile.unavailable = false := by
    decide +kernel
  obtain ⟨havail, hhealthy⟩ := hrun
  obtain ⟨p, hp, hp'⟩ := (Option.any_eq_true _ _).mp havail
  exact read_available (Set.injOn_singleton _ _) verifiedOps (by decide) involves_verifiedOps
    (fun k be hbe => SyntheticBackend.readable_of_available
      (hhealthy be (AList.mem_values_of_lookup hbe))) ⟨2⟩ p hp hp'

/-- The same run, for whatever reads of it succeed. -/
theorem read_published_small :
    let s := Runs.run record {} verifiedOps
    ∀ o id data, (s.fabric.read o (some id)).1 = .ok data → ∀ x, (id, x) ∈ s.log ↔ x = data :=
  have hdirect : ∀ (f : Fabric SyntheticBackend) (op : Op SyntheticBackend), op.eager = true →
      ¬Misdirects f op := by
    rintro f op heager ⟨c, g, p, hcall, -, hlazy, -⟩
    rw [eager_of_call hcall, heager] at hlazy
    cases hlazy
  (read_published (Set.injOn_singleton _ _) verifiedOps (Runs.along_and.mpr
    ⟨involves_verifiedOps, Runs.along_of_mem fun f op hop => hdirect f op
      ((by decide : ∀ op ∈ verifiedOps, op.eager = true) op hop)⟩)).1

/-- Two directories, the second with a file under the first blob key from before
it was registered; the object goes to both, without verification. -/
def leftoverOps : List (Op AnyBackend) :=
  let capacity : BackendCapacity := { totalBytes := 1000, freeBytes := 1000 }
  let files : Table Bytes Bytes := (∅ : Table Bytes Bytes).insert (ascii "blobs/blob-1") [9]
  [.registerLocalBackend (ascii "a") (.known .localNvme) (.onDisk { root := ascii "a" })
      (.ok capacity),
    .registerLocalBackend (ascii "b") (.known .localNvme) (.onDisk { root := ascii "b", files })
      (.ok capacity),
    .setAuthority { epoch := ⟨1⟩ },
    .defineObject (.known .genericAiState) 1 [7] {} {} (.known .normal),
    .publishTo Small.object [7] ⟨1⟩ { eagerVerify := false },
    .publishTo Small.object [7] ⟨2⟩ { eagerVerify := false }]

/-- The second placement was published with one byte and reads as another. -/
theorem read_other_bytes :
    let s := Runs.run record {} leftoverOps
    (⟨2⟩, [7]) ∈ s.log ∧ (s.fabric.read ⟨1⟩ (some ⟨2⟩)).1 = .ok [9] := by
  decide +kernel

end Fabric

end StorageFabric
