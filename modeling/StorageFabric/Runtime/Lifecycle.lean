import StorageFabric.Runtime.Balance
import StorageFabric.Runtime.Reads

/-!
The lifecycle of the placements.

The runtime assigns lifecycles in three places and asks the table of transitions in
none: a publication creates an available placement, a movement makes its source
stale whatever it was, and an eviction makes every placement evicted that it lets
go. A replication copies whatever can still be read.
-/

namespace StorageFabric

namespace Fabric

variable {β : Type} [StorageBackend β]

/-! ### The record of a placement across an operation -/

def evicts (f : Fabric β) : Op β → Option PlacementId
  | .evict id => if (f.canEvict id).allowed then some id else none
  | _ => none

def retires (f : Fabric β) (op : Op β) : Option PlacementId :=
  if (f.created op).isSome then op.moves else none

/-- The record of the placement `id` after an operation. -/
def recordAfter (f : Fabric β) (op : Op β) (id : PlacementId) (p : PlacementRecord) :
    PlacementRecord :=
  if f.retires op = some id then { p with lifecycle := .known .stale }
  else if f.evicts op = some id then evictedRecord p
  else p

/-- A publication adds an available placement under a new id, or none. -/
theorem placements_publishCall (f : Fabric β) (c : Call) :
    ((f.publishCall c).1.toOption = none ∧ (f.publishCall c).2.placements = f.placements) ∨
    ∃ p, (f.publishCall c).1.toOption = some p ∧ p.lifecycle = .known .available ∧
      p.id = ⟨f.placementCounter⟩ ∧ p.id ∉ f.placements ∧
      (f.publishCall c).2.placements = f.placements.insert p.id p := by
  have hout := publishCall_outcome f c
  generalize (f.publishCall c).1 = r at hout
  generalize (f.publishCall c).2 = f' at hout
  cases hout with
  | refused s ledger stale hrefuse => exact .inl ⟨rfl, rfl⟩
  | aborted s res ledger start rc g f' hstart habort =>
      obtain ⟨m, n, -, -, hview⟩ := habort.catalog
      exact .inl ⟨rfl, congrArg CatalogView.placements hview⟩
  | published res ledger start chunks desc t g f' hstart hpub =>
      exact .inr ⟨_, rfl, rfl, rfl, hpub.freshPlacement,
        congrArg CatalogView.placements hpub.catalog⟩

/-- The demotion of the placement that an operation retires, if it does. -/
def demoteIn (retired : Option PlacementId) (t : Table PlacementId PlacementRecord) :
    Table PlacementId PlacementRecord :=
  match retired with
  | none => t
  | some id => t.modify id fun p => { p with lifecycle := .known .stale }

theorem placements_of_call {f g : Fabric β} {op : Op β} {c : Call}
    (hcall : f.call op = some (c, g)) :
    g.placements = f.placements ∧ f.created op = (g.publishCall c).1.toOption ∧
      f.evicts op = none ∧
      (f.exec op).placements = demoteIn (f.retires op) (g.publishCall c).2.placements := by
  have hcreated : f.created op = (g.publishCall c).1.toOption := by rw [created, hcall]
  have hplacements : g.placements = f.placements :=
    congrArg CatalogView.placements (exec_of_call hcall).1.catalog
  refine ⟨hplacements, hcreated, ?_, ?_⟩
  · cases op with
    | evict id => cases hcall
    | _ => rfl
  · have hretires : f.retires op =
        if (g.publishCall c).1.toOption.isSome then op.moves else none := by
      rw [retires, hcreated]
    rw [hretires]
    cases op with
    | move source target opts =>
        rcases replicate_eq f source target opts with ⟨c', g', hc', heq⟩ | ⟨hnone, -⟩
        · rw [call, hc'] at hcall
          cases hcall
          rw [exec, Fabric.move, heq]
          rcases g.publishCall c with ⟨r, f'⟩
          cases r <;> rfl
        · rw [call, hnone] at hcall
          cases hcall
    | _ =>
        obtain ⟨-, hexec | ⟨source, hmove, -⟩⟩ := exec_of_call hcall
        · rw [hexec]
          simp only [Op.moves, ite_self]
          rfl
        · cases hmove

theorem source_mem_of_call {f g : Fabric β} {op : Op β} {c : Call} {id : PlacementId}
    (hcall : f.call op = some (c, g)) (hmoves : op.moves = some id) : id ∈ f.placements := by
  cases op with
  | move source target opts =>
      obtain rfl := Option.some.inj hmoves
      exact replicateCall_mem hcall
  | _ => cases hmoves

theorem placements_of_no_call {f : Fabric β} {op : Op β} (hcall : f.call op = none) :
    f.created op = none ∧ f.retires op = none ∧
      (f.exec op).placements =
        match f.evicts op with
        | none => f.placements
        | some id => f.placements.modify id evictedRecord := by
  have hcreated : f.created op = none := by rw [created, hcall]
  refine ⟨hcreated, by rw [retires, hcreated]; rfl, ?_⟩
  cases op with
  | evict id =>
      rw [exec, evict, evicts]
      cases hcheck : f.evictCheck id with
      | inl decision =>
          have hdenied : ¬(f.canEvict id).allowed = true := by
            rw [allowed_canEvict_iff, hcheck]
            rintro ⟨e, he⟩
            cases he
          rw [if_neg hdenied]
      | inr e =>
          have hallowed : (f.canEvict id).allowed = true :=
            (allowed_canEvict_iff f id).mpr ⟨e, hcheck⟩
          rw [if_pos hallowed]
          exact congrArg CatalogView.placements (catalogView_evict hcheck)
  | defineObject kind size content writer durability priority =>
      show (f.defineObject kind size content writer durability priority).2.placements =
        f.placements
      obtain ⟨-, obj, -, heq⟩ | ⟨-, s, n, -, heq⟩ :=
        f.defineObject_cases kind size content writer durability priority
      · rw [heq]
        rfl
      · rw [heq]
  | publish score obj content opts =>
      -- a plan that chooses a backend would have been a call
      rcases planCall_eq score f obj content opts with ⟨c, hc, -⟩ | ⟨-, heq⟩
      · rw [call, hc] at hcall
        cases hcall
      · exact congrArg placements heq
  | replicate source target opts =>
      rcases replicate_eq f source target opts with ⟨c, g, hc, -⟩ | ⟨-, s, -, hviews⟩
      · rw [call, hc] at hcall
        cases hcall
      · exact congrArg CatalogView.placements hviews.catalog
  | move source target opts =>
      rcases replicate_eq f source target opts with ⟨c, g, hc, -⟩ | ⟨-, s, herr, hviews⟩
      · rw [call, hc] at hcall
        cases hcall
      · rw [exec, Fabric.move]
        rcases hrep : f.replicate source target opts with ⟨r, f'⟩
        rw [hrep] at herr hviews
        cases herr
        exact congrArg CatalogView.placements hviews.catalog
  | read object placement =>
      exact congrArg CatalogView.placements (sameViews_read f object placement).catalog
  | verify placement =>
      exact congrArg CatalogView.placements (sameViews_verify f placement).catalog
  | publishTo obj content backend opts => cases hcall
  | _ => rfl

theorem lookup_demoteIn (retired : Option PlacementId) (t : Table PlacementId PlacementRecord)
    (id : PlacementId) :
    (demoteIn retired t).lookup id =
      (t.lookup id).map fun p =>
        if retired = some id then { p with lifecycle := .known .stale } else p := by
  cases retired with
  | none => simp [demoteIn]
  | some source =>
      rw [demoteIn, AList.lookup_modify]
      by_cases hid : id = source
      · simp [hid]
      · have hne : ¬source = id := fun h => hid h.symm
        simp [hid, hne]

/-- What an operation does to the placements: it changes the records that are there
one by one, and adds the one that it creates. -/
theorem lookup_placements_exec (f : Fabric β) (op : Op β) (id : PlacementId) :
    (f.exec op).placements.lookup id =
      match f.placements.lookup id with
      | some p => some (f.recordAfter op id p)
      | none => (f.created op).filter fun p => p.id = id ∧ p.lifecycle = .known .available := by
  cases hcall : f.call op with
  | none =>
      obtain ⟨hcreated, hretires, hexec⟩ := placements_of_no_call hcall
      rw [hexec, hcreated]
      -- without a call only an eviction touches the records
      cases hevicts : f.evicts op with
      | none => cases hp : f.placements.lookup id <;> simp [recordAfter, hretires, hevicts]
      | some source =>
          rw [AList.lookup_modify]
          cases hp : f.placements.lookup id with
          | none => simp
          | some p =>
              by_cases hid : id = source
              · simp [recordAfter, hretires, hevicts, hid]
              · have hne : ¬source = id := fun h => hid h.symm
                simp [recordAfter, hretires, hevicts, hid, hne]
  | some called =>
      obtain ⟨c, g⟩ := called
      obtain ⟨hplacements, hcreated, hevicts, hexec⟩ := placements_of_call hcall
      rw [hexec, hcreated, lookup_demoteIn]
      obtain ⟨hnone, hsame⟩ | ⟨p, hsome, havailable, hid, hnew, hinsert⟩ :=
        placements_publishCall g c
      · -- nothing was published, so nothing is retired
        have hretires : f.retires op = none := by
          rw [retires, hcreated, hnone]
          rfl
        rw [hsame, hnone, hplacements]
        cases hp : f.placements.lookup id <;> simp [recordAfter, hretires, hevicts]
      · rw [hinsert, hsome, hplacements, AList.lookup_insert_eq]
        rw [hplacements] at hnew
        by_cases heq : id = p.id
        · have hlookup : f.placements.lookup id = none :=
            AList.notMem_iff_lookup.mp (heq ▸ hnew)
          -- the source of a movement is an old placement, so it is not the one just made
          have hkept : f.retires op ≠ some id := by
            intro hretires
            have hmoves : op.moves = some id := by
              unfold retires at hretires
              split at hretires
              · exact hretires
              · cases hretires
            exact hnew (heq ▸ source_mem_of_call hcall hmoves)
          subst heq
          rw [if_pos rfl, hlookup]
          simp [Option.filter, hkept, havailable]
        · rw [if_neg heq]
          have hne : ¬p.id = id := fun h => heq h.symm
          cases hp : f.placements.lookup id <;> simp [Option.filter, recordAfter, hevicts, hne]

/-! ### Creations -/

/-- An available placement is there that was not. -/
def Creates (f f' : Fabric β) : Prop :=
  ∃ id p, f.placements.lookup id = none ∧ f'.placements.lookup id = some p ∧
    isAvailable p = true

theorem creates_exec_iff (f : Fabric β) (op : Op β) :
    Creates f (f.exec op) ↔ (f.created op).isSome = true := by
  constructor
  · rintro ⟨id, p, hnew, hp, -⟩
    rw [lookup_placements_exec, hnew] at hp
    exact Option.isSome_iff_exists.mpr ⟨p, (Option.filter_eq_some_iff.mp hp).1⟩
  · intro hsome
    obtain ⟨p, hp⟩ := Option.isSome_iff_exists.mp hsome
    cases hcall : f.call op with
    | none =>
        rw [created, hcall] at hp
        cases hp
    | some called =>
        obtain ⟨c, g⟩ := called
        obtain ⟨hplacements, hcreated, -, -⟩ := placements_of_call hcall
        rw [hcreated] at hp
        obtain ⟨hnone, -⟩ | ⟨q, hq, havailable, -, hfresh, -⟩ := placements_publishCall g c
        · rw [hnone] at hp
          cases hp
        · obtain rfl : p = q := Option.some.inj (hp.symm.trans hq)
          have hnew : f.placements.lookup p.id = none :=
            AList.notMem_iff_lookup.mp (hplacements ▸ hfresh)
          refine ⟨p.id, p, hnew, ?_, by simp [isAvailable, havailable]⟩
          rw [lookup_placements_exec, hnew, hcreated, hq]
          simp [Option.filter, havailable]

/-- A replication or a movement gets to publish what it has read, under an object
of the catalog, and the publication gets to the commit of its reservation. -/
def Copies (f : Fabric β) (source : PlacementRecord) (target : StorageBackendId)
    (opts : PublishOptions) : Prop :=
  ∃ c g, f.replicateCall source target opts = some (c, g) ∧ c.obj.id ∈ g.catalog ∧ g.Commits c

theorem Tidy.copies_iff {f : Fabric β} (h : f.Tidy) {op : Op β} {source : PlacementRecord}
    {target : StorageBackendId} {opts : PublishOptions}
    (hcall : f.call op = f.replicateCall source target opts) :
    (f.created op).isSome = true ↔ f.Copies source target opts := by
  unfold Copies created
  rw [hcall]
  cases hrep : f.replicateCall source target opts with
  | none => simp
  | some called =>
      obtain ⟨c, g⟩ := called
      have hg : g.Tidy := h.congr (replicateCall_idle hrep).books
      have hpublishes : (g.publishCall c).1.toOption.isSome = true ↔
          c.obj.id ∈ g.catalog ∧ g.Commits c := by
        obtain ⟨-, ⟨hcommits, _, -, -, -, -, hknown⟩ | ⟨hstops, hfail, -⟩⟩ :=
          publishCall_settles hg.quiet c
        · rw [hknown]
          exact (and_iff_left hcommits).symm
        · rw [hfail]
          exact iff_of_false Bool.false_ne_true fun hboth => hstops hboth.2
      dsimp only
      rw [hpublishes]
      constructor
      · exact fun hboth => ⟨c, g, rfl, hboth⟩
      · rintro ⟨c', g', heq, hboth⟩
        cases heq
        exact hboth

/-- The backend of a placement gives back the chunks of its manifest, each in its length, and
they make up `data`, which has the length of the manifest. -/
def HoldsContent (f : Fabric β) (p : PlacementRecord) (man : Manifest) (data : Bytes) : Prop :=
  ∃ be parts, f.backends.lookup p.backend = some be ∧
    List.Forall₂ (fun c part => StorageBackend.read be (blobKey c.blob) = .ok part ∧
      part.length = c.physicalLength.toNat) man.chunks parts ∧
    parts.flatten = data ∧ data.length = man.totalLogicalLength.toNat

omit [StorageBackend β] in
theorem readChunks_ok_iff [StorageBackend β] {be : β} {chunks : List ChunkDescriptor} {out : Bytes} :
    readChunks (chunks.map fun c => (be, c)) = .ok out ↔ ∃ parts,
      List.Forall₂ (fun c part => StorageBackend.read be (blobKey c.blob) = .ok part ∧
        part.length = c.physicalLength.toNat) chunks parts ∧ parts.flatten = out := by
  induction chunks generalizing out with
  | nil =>
      simp only [List.map_nil, readChunks, List.forall₂_nil_left_iff, Except.ok.injEq]
      refine ⟨fun h => ⟨[], rfl, h⟩, ?_⟩
      rintro ⟨parts, rfl, h⟩
      exact h
  | cons c chunks ih =>
      rw [List.map_cons, readChunks]
      constructor
      · intro h
        cases hread : StorageBackend.read be (blobKey c.blob) with
        | error s => simp [hread, Result.fail] at h
        | ok part =>
            by_cases hlength : part.length = c.physicalLength.toNat
            · cases hrest : readChunks (chunks.map fun c => (be, c)) with
              | error s => simp [hread, hlength, hrest] at h
              | ok tail =>
                  obtain ⟨parts, hparts, rfl⟩ := ih.mp hrest
                  refine ⟨part :: parts, .cons ⟨hread, hlength⟩ hparts, ?_⟩
                  simpa [hread, hlength, hrest] using h
            · simp [hread, hlength, Result.fail] at h
      · rintro ⟨_, hparts, rfl⟩
        cases hparts with
        | cons hfirst hrest =>
            have htail := ih.mpr ⟨_, hrest, rfl⟩
            simp only [hfirst.1, hfirst.2, ne_eq, not_true_eq_false, if_false, htail,
              List.flatten_cons]

/-- When a read of a placement succeeds, and what it returns. -/
theorem read_ok_iff {f : Fabric β} {o : ObjectId} {id : PlacementId} {data : Bytes} :
    (f.read o (some id)).1 = .ok data ↔ ∃ p man, f.placements.lookup id = some p ∧
      f.manifests.lookup p.manifest = some man ∧ f.HoldsContent p man data := by
  constructor
  · intro h
    obtain ⟨p, man, be, out, hlookup, hbe, hchunks, hlength⟩ := read_ok h
    obtain ⟨hp, hman⟩ := lookupForRead_some hlookup
    obtain ⟨parts, hparts, hflat⟩ := readChunks_ok_iff.mp hchunks
    unfold checkLength at hlength
    split at hlength
    · cases hlength
    · next heq =>
        obtain rfl := Except.ok.inj hlength
        exact ⟨p, man, hp, hman, be, parts, hbe, hparts, hflat, not_not.mp heq⟩
  · rintro ⟨p, man, hp, hman, be, parts, hbe, hparts, rfl, hlength⟩
    have hreserve : reserveOut man = .ok () := by
      refine reserveOut_of_stored ?_
      rw [chunkBytes_of_lengths (hparts.imp fun c part h => h.2.symm), hlength]
    have hbe' : (f.account fun a =>
        { a with activeReads := a.activeReads + 1 }).backends.lookup p.backend = some be := hbe
    simp only [Fabric.read, lookupForRead_eq hp hman, getBackend, hbe', hreserve,
      readChunks_ok_iff.mpr ⟨parts, hparts, rfl⟩, checkLength, hlength, ne_eq, not_true_eq_false,
      if_false]

omit [StorageBackend β] in
theorem Lands.of_idle [StorageBackend β] {f g : Fabric β} (h : Idle f g) (c : Call) :
    g.Lands c ↔ f.Lands c := by
  rw [h.rest]
  exact ⟨fun h => ⟨h.1, h.2, h.3, h.4, h.5, h.6, h.7, h.8, h.9, h.10⟩,
    fun h => ⟨h.1, h.2, h.3, h.4, h.5, h.6, h.7, h.8, h.9, h.10⟩⟩

/-- The object of the source is in the catalog, the placement of the source and its manifest
are there and hold a content, and the publication of that content lands. -/
def Copyable (f : Fabric β) (source : PlacementRecord) (target : StorageBackendId)
    (opts : PublishOptions) : Prop :=
  ∃ entry p man data, f.catalog.lookup source.object = some entry ∧
    f.placements.lookup source.id = some p ∧ f.manifests.lookup p.manifest = some man ∧
    f.HoldsContent p man data ∧ entry.object.id ∈ f.catalog ∧
    f.Lands ⟨entry.object, data, target, replicateOptions source opts⟩

theorem copies_iff_copyable {f : Fabric β} {source : PlacementRecord} {target : StorageBackendId}
    {opts : PublishOptions} : f.Copies source target opts ↔ f.Copyable source target opts := by
  constructor
  · rintro ⟨c, g, hcall, hknown, hcommits⟩
    have hidle := replicateCall_idle hcall
    rw [commits_iff_lands, Lands.of_idle hidle] at hcommits
    rw [hidle.rest] at hknown
    unfold replicateCall at hcall
    cases hentry : f.catalog.lookup source.object with
    | none => simp [hentry] at hcall
    | some entry =>
        rcases hread : f.read source.object (some source.id) with ⟨r, k⟩
        cases r with
        | error s => simp [hentry, hread] at hcall
        | ok data =>
            simp only [hentry, hread, Option.some.injEq, Prod.mk.injEq] at hcall
            obtain ⟨rfl, rfl⟩ := hcall
            obtain ⟨p, man, hp, hman, hholds⟩ := read_ok_iff.mp (congrArg Prod.fst hread)
            exact ⟨entry, p, man, data, hentry, hp, hman, hholds, hknown, hcommits⟩
  · rintro ⟨entry, p, man, data, hentry, hp, hman, hholds, hknown, hlands⟩
    have hread : (f.read source.object (some source.id)).1 = .ok data :=
      read_ok_iff.mpr ⟨p, man, hp, hman, hholds⟩
    have hidle := read_idle f source.object (some source.id)
    rcases hrun : f.read source.object (some source.id) with ⟨r, g⟩
    rw [hrun] at hread hidle
    obtain rfl : r = .ok data := hread
    replace hidle : Idle f g := hidle
    refine ⟨⟨entry.object, data, target, replicateOptions source opts⟩, g, ?_, ?_, ?_⟩
    · rw [replicateCall, hentry]
      simp only [hrun]
    · rw [hidle.rest]
      exact hknown
    · exact commits_iff_lands.mpr ((Lands.of_idle hidle _).mpr hlands)

/-- A replication and a movement create a placement only from an available one. -/
def CopiesOnlyAvailable (f : Fabric β) (source : PlacementRecord) (target : StorageBackendId)
    (opts : PublishOptions) : Prop :=
  Creates f (f.replicate source target opts).2 ∨ Creates f (f.move source target opts).2 →
    (f.placements.lookup source.id).any isAvailable = true

/-- In every state that has the ledger of a process, with whatever files: they do so exactly
if the source is available or cannot be copied. The catalog, the blob tables and the
counters can be any. -/
theorem copies_only_available_iff (ops : List (HostOp β))
    (hops : ∀ op, .exec op ∈ ops → op.Probed) (f : Fabric β)
    (hf : f.books = (Runs.run Host.step {} ops).fabric.books) (source : PlacementRecord)
    (target : StorageBackendId) (opts : PublishOptions) :
    f.CopiesOnlyAvailable source target opts ↔
      (f.placements.lookup source.id).any isAvailable = true ∨
        ¬f.Copyable source target opts := by
  have htidy := (tidy_run hops).congr hf
  rw [← copies_iff_copyable]
  have hreplicate : Creates f (f.replicate source target opts).2 ↔ f.Copies source target opts :=
    (creates_exec_iff f (.replicate source target opts)).trans (htidy.copies_iff rfl)
  have hmove : Creates f (f.move source target opts).2 ↔ f.Copies source target opts :=
    (creates_exec_iff f (.move source target opts)).trans (htidy.copies_iff rfl)
  rw [CopiesOnlyAvailable, hreplicate, hmove, or_self, imp_iff_not_or, or_comm]

theorem probed_publication : ∀ op,
    .exec op ∈ (Small.opening ++ [Small.publication]).map HostOp.exec → op.Probed := by
  intro op hop
  rw [List.map_append, List.mem_append] at hop
  rcases hop with hop | hop
  · exact probed_opening op hop
  · cases HostOp.exec.inj (List.mem_singleton.mp hop)
    trivial

theorem copies_only_available_small :
    (Runs.run Host.step {} ((Small.opening ++ [Small.publication]).map
      .exec)).fabric.CopiesOnlyAvailable { id := ⟨1⟩, object := ⟨1⟩ } ⟨1⟩ {} :=
  (copies_only_available_iff ((Small.opening ++ [Small.publication]).map .exec)
    probed_publication _ rfl _ _ _).mpr (.inl (by decide +kernel))

/-- The source of a movement is stale, and is replicated all the same. -/
theorem replicate_stale_copy :
    ¬(Runs.run Host.step {} (movedOps.map .exec)).fabric.CopiesOnlyAvailable
      { id := ⟨1⟩, object := ⟨1⟩ } ⟨1⟩ { eagerVerify := false } := by
  intro h
  generalize hf : (Runs.run Host.step {} (movedOps.map .exec)).fabric = f at h
  have hrun : (f.created (.replicate { id := ⟨1⟩, object := ⟨1⟩ } ⟨1⟩
        { eagerVerify := false })).isSome = true ∧
      (f.placements.lookup ⟨1⟩).any isAvailable = false := by
    rw [← hf]
    decide +kernel
  obtain ⟨hcreated, hstale⟩ := hrun
  have havailable := h (.inl ((creates_exec_iff f _).mpr hcreated))
  rw [hstale] at havailable
  cases havailable

/-! ### Transitions -/

/-- The lifecycles that the runtime gives a placement. -/
def givenLifecycles : List (EnumValue PlacementLifecycle) :=
  [.known .available, .known .stale, .known .evicted]

/-- Every change of a lifecycle is one of the table. -/
def Guards (f f' : Fabric β) : Prop :=
  ∀ id p q, f.placements.lookup id = some p → f'.placements.lookup id = some q →
    q.lifecycle = p.lifecycle ∨ canTransition p.lifecycle q.lifecycle = true

/-- The operation evicts an available placement, or demotes an evicted one. -/
def Oversteps (f : Fabric β) : Op β → Prop
  | .evict id =>
      (f.canEvict id).allowed = true ∧ (f.placements.lookup id).any isAvailable = true
  | .move source target opts =>
      (f.placements.lookup source.id).any isEvicted = true ∧ f.Copies source target opts
  | _ => False

/-- All placements have one of the lifecycles that the runtime gives. -/
def Lived (f : Fabric β) : Prop :=
  ∀ id p, f.placements.lookup id = some p → p.lifecycle ∈ givenLifecycles

theorem lifecycle_recordAfter (f : Fabric β) (op : Op β) (id : PlacementId)
    (p : PlacementRecord) :
    (f.recordAfter op id p).lifecycle =
      if f.retires op = some id then .known .stale
      else if f.evicts op = some id then .known .evicted
      else p.lifecycle := by
  unfold recordAfter
  split
  · rfl
  · split <;> rfl

theorem Lived.exec {f : Fabric β} (h : f.Lived) (op : Op β) : (f.exec op).Lived := by
  intro id q hq
  rw [lookup_placements_exec] at hq
  cases hp : f.placements.lookup id with
  | none =>
      rw [hp] at hq
      obtain ⟨-, hnew⟩ := Option.filter_eq_some_iff.mp hq
      have havailable := (of_decide_eq_true hnew).2
      rw [havailable]
      decide
  | some p =>
      rw [hp] at hq
      obtain rfl := Option.some.inj hq
      rw [lifecycle_recordAfter]
      split
      · decide
      · split
        · decide
        · exact h id p hp

omit [StorageBackend β] in
theorem kept_of_evicts {f : Fabric β} {op : Op β} {id : PlacementId} {p : PlacementRecord}
    (hevicts : f.evicts op = some id) (hp : f.placements.lookup id = some p) :
    p.lifecycle ≠ .known .evicted ∧ op = .evict id ∧ (f.canEvict id).allowed = true := by
  cases op with
  | evict placement =>
      rw [evicts] at hevicts
      split at hevicts
      · next hallowed =>
          obtain rfl := Option.some.inj hevicts
          obtain ⟨e, hcheck⟩ := (allowed_canEvict_iff f placement).mp hallowed
          obtain ⟨-, he, -, -, hkept, -⟩ := evictCheck_inr hcheck
          obtain rfl := Option.some.inj (hp.symm.trans he)
          exact ⟨hkept, rfl, hallowed⟩
      · cases hevicts
  | _ => cases hevicts

/-- The lifecycles change by the table exactly if the operation does not overstep it. -/
theorem Tidy.guards_iff {f : Fabric β} (h : f.Tidy) (hlived : f.Lived) (op : Op β) :
    Guards f (f.exec op) ↔ ¬f.Oversteps op := by
  have hchange : ∀ {id p q}, f.placements.lookup id = some p →
      ((f.exec op).placements.lookup id = some q ↔ q = f.recordAfter op id p) := by
    intro id p q hp
    rw [lookup_placements_exec, hp]
    exact ⟨fun heq => (Option.some.inj heq).symm, fun heq => congrArg some heq.symm⟩
  constructor
  · intro hguards hover
    cases op with
    | evict id =>
        obtain ⟨hallowed, hany⟩ := hover
        obtain ⟨p, hp, havailable⟩ := (Option.any_eq_true _ _).mp hany
        have hevicts : f.evicts (.evict id) = some id := if_pos hallowed
        have hstays : f.retires (.evict id) ≠ some id := by simp [retires, Op.moves]
        have hstep := hguards id p _ hp ((hchange hp).mpr rfl)
        rw [lifecycle_recordAfter, if_neg hstays, if_pos hevicts,
          of_decide_eq_true havailable] at hstep
        exact absurd hstep (by decide)
    | move source target opts =>
        obtain ⟨hany, hcopies⟩ := hover
        obtain ⟨p, hp, hevicted⟩ := (Option.any_eq_true _ _).mp hany
        have hretires : f.retires (.move source target opts) = some source.id :=
          if_pos ((h.copies_iff rfl).mpr hcopies)
        have hstep := hguards source.id p _ hp ((hchange hp).mpr rfl)
        rw [lifecycle_recordAfter, if_pos hretires, of_decide_eq_true hevicted] at hstep
        exact absurd hstep (by decide)
    | _ => exact hover
  · intro hstays id p q hp hq
    obtain rfl := (hchange hp).mp hq
    have hbefore := hlived id p hp
    rw [lifecycle_recordAfter]
    split
    · next hretires =>
        -- a demotion: the source was not evicted
        have hmoves : op.moves = some id ∧ (f.created op).isSome = true := by
          unfold retires at hretires
          split at hretires
          · exact ⟨hretires, ‹_›⟩
          · cases hretires
        cases op with
        | move source target opts =>
            obtain rfl := Option.some.inj hmoves.1
            have hkept : p.lifecycle ≠ .known .evicted := by
              intro hevicted
              refine hstays ⟨?_, (h.copies_iff rfl).mp hmoves.2⟩
              rw [hp]
              exact decide_eq_true hevicted
            generalize p.lifecycle = l at hbefore hkept
            revert l
            decide
        | _ => cases hmoves.1
    · split
      · next hevicts =>
          -- an eviction: the placement was neither evicted nor available
          obtain ⟨hkept, rfl, hallowed⟩ := kept_of_evicts hevicts hp
          have hunavailable : p.lifecycle ≠ .known .available := by
            intro havailable
            refine hstays ⟨hallowed, ?_⟩
            rw [hp]
            exact decide_eq_true havailable
          generalize p.lifecycle = l at hbefore hkept hunavailable
          revert l
          decide
      · exact .inl rfl

/-- In every run: each step changes the lifecycles by the table exactly if no step
oversteps it. -/
theorem transitions_guarded_iff (ops : List (Op β)) (hops : ∀ op ∈ ops, op.Probed) :
    Runs.Along exec (fun f op => Guards f (f.exec op)) {} ops ↔
      Runs.Along exec (fun f op => ¬f.Oversteps op) {} ops := by
  have hprobed : Runs.Along (exec (β := β)) (fun _ op => op.Probed) {} ops :=
    Runs.along_of_mem fun _ op hop => hops op hop
  have hempty : Tidy ({} : Fabric β) ∧ Lived ({} : Fabric β) :=
    ⟨tidy_empty, fun id p hp => by simp at hp⟩
  constructor <;> intro h
  · refine Runs.Along.mono_of_invariant (I := fun f : Fabric β => f.Tidy ∧ f.Lived) ?_ ?_ hempty
      (Runs.along_and.mpr ⟨hprobed, h⟩)
    · exact fun f op hI hP => ⟨hI.1.exec hP.1, hI.2.exec op⟩
    · exact fun f op hI hP => (hI.1.guards_iff hI.2 op).mp hP.2
  · refine Runs.Along.mono_of_invariant (I := fun f : Fabric β => f.Tidy ∧ f.Lived) ?_ ?_ hempty
      (Runs.along_and.mpr ⟨hprobed, h⟩)
    · exact fun f op hI hP => ⟨hI.1.exec hP.1, hI.2.exec op⟩
    · exact fun f op hI hP => (hI.1.guards_iff hI.2 op).mpr hP.2

theorem transitions_guarded_small :
    Runs.Along exec (fun f op => Guards f (f.exec op)) {} Small.opening :=
  (transitions_guarded_iff Small.opening fun op hop => probed_opening op
    (List.mem_map_of_mem hop)).mpr ⟨id, id, id, trivial⟩

/-- A placement that was available is evicted, becomes stale, and is evicted again. -/
theorem transitions_unguarded :
    ¬Runs.Along exec (fun f op => Guards f (f.exec op)) {} revivedOps := by
  intro h
  generalize hopening : Small.opening ++ [Small.publication, Small.publication] = opening
  have hops : revivedOps = opening ++ [.evict ⟨1⟩,
      .move { id := ⟨1⟩, object := ⟨1⟩ } ⟨1⟩ { eagerVerify := false }, .evict ⟨1⟩] := by
    rw [← hopening]
    rfl
  rw [hops] at h
  obtain ⟨-, hevict, -⟩ := Runs.along_append.mp h
  generalize hf : Runs.run exec {} opening = f at hevict
  have hrun : (f.placements.lookup ⟨1⟩).map PlacementRecord.lifecycle = some (.known .available) ∧
      ((f.exec (.evict ⟨1⟩)).placements.lookup ⟨1⟩).map PlacementRecord.lifecycle =
        some (.known .evicted) := by
    rw [← hf, ← hopening]
    decide +kernel
  obtain ⟨hbefore, hafter⟩ := hrun
  obtain ⟨p, hp, hpl⟩ := Option.map_eq_some_iff.mp hbefore
  obtain ⟨q, hq, hql⟩ := Option.map_eq_some_iff.mp hafter
  have hstep := hevict ⟨1⟩ p q hp hq
  rw [hpl, hql] at hstep
  exact absurd hstep (by decide)

end Fabric

end StorageFabric
