import StorageFabric.Model.Commitment
import StorageFabric.Model.Coverage
import StorageFabric.Runtime.Crashes

/-!
How the records belong together, and what verification is worth.

In every runtime each manifest has been validated and carries its digest, and each
placement has such a manifest of its own object and length. The backends do not come into
this: they may do what they like. What they return is checked against the lengths by a
read and against the digest by a verification, and that is all a reader knows.
-/

namespace StorageFabric

namespace Fabric

variable {β : Type}

/-! ### Sealed manifests -/

/-- The manifest has been validated, has its digest, and its chunks are stored as they are. -/
structure Sealed (m : Manifest) : Prop where
  valid : m.validate = .ok ()
  digest : m.manifestDigest = computeManifestDigest m
  stored : ∀ c ∈ m.chunks, c.physicalLength = c.logicalLength

/-- A placement and its manifest are of one object and one length. -/
structure Belongs (p : PlacementRecord) (m : Manifest) : Prop where
  object : m.object = p.object
  generation : m.objectGeneration = p.objectGeneration
  length : m.totalLogicalLength = p.logicalSize

structure Together (f : Fabric β) : Prop where
  keyed : Keyed f
  sealed : f.manifests.All fun _ m => Sealed m
  belongs : f.placements.All fun _ p => ∃ m, f.manifests.lookup p.manifest = some m ∧ Belongs p m

theorem together_blank {f : Fabric β} (h : Blank f) : Together f where
  keyed := ⟨fun id p hp => by simp [h.placements] at hp, fun id m hm => by simp [h.manifests] at hm⟩
  sealed id m hm := by simp [h.manifests] at hm
  belongs id p hp := by simp [h.placements] at hp

theorem Together.congr {f g : Fabric β} (h : Together f)
    (hplacements : ∀ id, g.placements.lookup id = f.placements.lookup id)
    (hmanifests : ∀ id, g.manifests.lookup id = f.manifests.lookup id) : Together g where
  keyed := ⟨fun id p hp => h.keyed.placements id p (hplacements id ▸ hp),
    fun id m hm => h.keyed.manifests id m (hmanifests id ▸ hm)⟩
  sealed id m hm := h.sealed id m (hmanifests id ▸ hm)
  belongs id p hp := by
    obtain ⟨m, hm, hbelongs⟩ := h.belongs id p (hplacements id ▸ hp)
    exact ⟨m, (hmanifests _).trans hm, hbelongs⟩

section Backend

variable [StorageBackend β]

omit [StorageBackend β] in
theorem manifests_commitPlacement (f : Fabric β) (guard : ReservationGuard) (obj : ObjectDescriptor)
    (backend : StorageBackendId) (auth : AuthorityEnvelope) (opts : PublishOptions)
    (man : Manifest) :
    (f.commitPlacement guard obj backend auth opts man).2.2.manifests = f.manifests := by
  unfold commitPlacement
  dsimp only [allocPlacementId, allocReplicaId]
  split
  · rfl
  split
  · rfl
  split
  · rfl
  split
  · rfl
  split <;> rfl

theorem manifests_publishReserved (f : Fabric β) (guard : ReservationGuard)
    (obj : ObjectDescriptor) (content : Bytes) (backend : StorageBackendId)
    (auth : AuthorityEnvelope) (opts : PublishOptions) :
    (f.publishReserved guard obj content backend auth opts).2.2.manifests = f.manifests ∨
      ∃ man : Manifest, man.validate = .ok () ∧
        (f.publishReserved guard obj content backend auth opts).2.2.manifests =
          f.manifests.insert man.id man := by
  obtain ⟨id, start, halloc⟩ : ∃ id start, f.allocManifestId = (id, start) := ⟨_, _, rfl⟩
  have hstart : start.manifests = f.manifests := by
    rw [← show f.allocManifestId.2 = start from congrArg Prod.snd halloc]
    rfl
  have hloop := congrArg ManifestView.manifests (manifestView_chunkLoop backend opts.dedupe
    (chunkLength obj opts) content.length 0 content start)
  replace hloop := hloop.trans hstart
  unfold publishReserved
  simp only [halloc]
  cases hrun : chunkLoop backend opts.dedupe (chunkLength obj opts) content.length 0 content start with
  | mk r g =>
      rw [hrun] at hloop
      cases r with
      | error s => exact .inl hloop
      | ok chunks =>
          dsimp only
          split
          · exact .inl hloop
          · split
            · exact .inl hloop
            · next hvalid =>
                split
                · exact .inl hloop
                · refine .inr ⟨_, hvalid, ?_⟩
                  rw [manifests_commitPlacement]
                  exact congrArg (AList.insert (buildManifest id obj chunks).id _) hloop

theorem manifests_publishCall_valid (f : Fabric β) (c : Call) :
    (f.publishCall c).2.manifests = f.manifests ∨
      ∃ man : Manifest, man.validate = .ok () ∧
        (f.publishCall c).2.manifests = f.manifests.insert man.id man := by
  unfold publishCall publishTo
  dsimp only
  split
  · exact .inl rfl
  split
  · exact .inl rfl
  split
  · exact .inl rfl
  split
  · exact .inl rfl
  · rcases f.reserveFor c.obj c.backend c.opts with ⟨_ | res, ledger⟩
    · exact .inl rfl
    · exact manifests_publishReserved _ _ _ _ _ _ _

/-- The manifests change by the call of an operation only. -/
theorem manifests_exec_cases (f : Fabric β) (op : Op β) :
    (f.exec op).manifests = f.manifests ∨ ∃ c g, f.call op = some (c, g) ∧ SameViews f g ∧
      (f.exec op).manifests = (g.publishCall c).2.manifests := by
  have heffect := exec_effect f op
  generalize f.exec op = f' at heffect
  cases heffect with
  | silent _ f' hviews => exact .inl (congrArg ManifestView.manifests hviews.manifests)
  | registered _ t desc be f' _ _ _ hmanifests _ =>
      exact .inl (congrArg ManifestView.manifests hmanifests)
  | defined _ obj f' _ _ _ hmanifests _ => exact .inl (congrArg ManifestView.manifests hmanifests)
  | duplicate _ f' _ _ hmanifests _ => exact .inl (congrArg ManifestView.manifests hmanifests)
  | called _ c g hcall hviews _ => exact .inr ⟨c, g, hcall, hviews, rfl⟩
  | moved _ source c g p hcall hviews _ _ _ => exact .inr ⟨c, g, hcall, hviews, rfl⟩
  | evicted id e hcheck => exact .inl (congrArg ManifestView.manifests (manifestView_evict f e))

/-- Whether a publication makes its placement or not, its manifest is sealed. -/
theorem sealed_exec {f : Fabric β} (h : f.manifests.All fun _ m => Sealed m) (op : Op β) :
    (f.exec op).manifests.All fun _ m => Sealed m := by
  have hvalid : (f.exec op).manifests.All fun _ m => m.validate = .ok () := by
    have hold : f.manifests.All fun _ m => m.validate = .ok () := fun id m hm => (h id m hm).valid
    obtain hsame | ⟨c, g, -, hviews, hcall⟩ := manifests_exec_cases f op
    · rwa [hsame]
    · have hman : g.manifests = f.manifests := congrArg ManifestView.manifests hviews.manifests
      rw [hcall]
      obtain hsame | ⟨man, hman', hadded⟩ := manifests_publishCall_valid g c
      · rwa [hsame, hman]
      · rw [hadded, hman]
        exact hold.insert hman'
  have hrest : (f.exec op).manifests.All fun _ m => m.manifestDigest = computeManifestDigest m ∧
      ∀ c ∈ m.chunks, c.physicalLength = c.logicalLength := by
    refine manifests_exec_all (fun id m hm => ⟨(h id m hm).digest, (h id m hm).stored⟩) ?_ op
    intro f c res ledger start chunks g hstart
    refine ⟨computeManifestDigest_congr rfl rfl rfl rfl, ?_⟩
    rw [chunks_manifestOf hstart]
    have hloop := chunkLoop_forall₂ (I := fun _ => True)
      (Q := fun _ ch _ => ch.physicalLength = ch.logicalLength) (P := fun _ => True) ?_
      (fun _ _ => trivial) trivial hstart.loop
    · intro ch hch
      obtain ⟨i, hi, rfl⟩ := List.getElem_of_mem hch
      have hall := List.forall₂_iff_get.mp hloop.2.1
      exact hall.2 i hi (hall.1 ▸ hi)
    · intro offset slice f c g _ _ hturn
      obtain ⟨b, -, -, rfl, -⟩ | ⟨n, -, rfl, -⟩ := chunkStep_ok hturn
      · exact ⟨trivial, rfl, fun _ _ hq => hq⟩
      · exact ⟨trivial, rfl, fun _ _ hq => hq⟩
  exact fun id m hm => ⟨hvalid id m hm, (hrest id m hm).1, (hrest id m hm).2⟩

theorem recordAfter_keeps (f : Fabric β) (op : Op β) (id : PlacementId) (p : PlacementRecord) :
    (f.recordAfter op id p).id = p.id ∧ (f.recordAfter op id p).object = p.object ∧
      (f.recordAfter op id p).manifest = p.manifest ∧ (f.recordAfter op id p).digest = p.digest ∧
      ∀ m, Belongs p m → Belongs (f.recordAfter op id p) m := by
  unfold recordAfter
  split
  · exact ⟨rfl, rfl, rfl, rfl, fun m h => ⟨h.object, h.generation, h.length⟩⟩
  · split
    · exact ⟨rfl, rfl, rfl, rfl, fun m h => ⟨h.object, h.generation, h.length⟩⟩
    · exact ⟨rfl, rfl, rfl, rfl, fun _ h => h⟩

theorem created_belongs {f : Fabric β} {op : Op β} {p : PlacementRecord}
    (h : f.created op = some p) :
    ∃ c g, f.call op = some (c, g) ∧ SameViews f g ∧ p.object = c.obj.id ∧
      p.digest = c.obj.digest ∧ c.obj.id ∈ f.catalog ∧
      ∃ m, (f.exec op).manifests.lookup p.manifest = some m ∧ Belongs p m := by
  unfold created at h
  cases hcall : f.call op with
  | none =>
      rw [hcall] at h
      cases h
  | some called =>
      obtain ⟨c, g⟩ := called
      rw [hcall] at h
      obtain ⟨hviews, hexec⟩ := exec_of_call hcall
      have hmanifests : (f.exec op).manifests = (g.publishCall c).2.manifests := by
        rcases hexec with heq | ⟨source, -, -, heq⟩
        · rw [heq]
        · rw [heq]
          rfl
      refine ⟨c, g, rfl, hviews, ?_⟩
      rw [hmanifests]
      have hout := publishCall_outcome g c
      dsimp only at h
      generalize (g.publishCall c).1 = r at hout h
      generalize (g.publishCall c).2 = f' at hout ⊢
      cases hout with
      | refused s ledger stale _ => cases h
      | aborted s res ledger start rc k _ _ _ => cases h
      | published res ledger start chunks desc t k _ hstart hpub =>
          obtain rfl := Option.some.inj h
          have hadded : f'.manifests =
              g.manifests.insert ⟨g.manifestCounter⟩ (g.manifestOf c chunks) :=
            congrArg ManifestView.manifests hpub.manifests
          have hcatalog : g.catalog = f.catalog := congrArg CatalogView.catalog hviews.catalog
          refine ⟨rfl, rfl, hcatalog ▸ hpub.known, g.manifestOf c chunks, ?_, rfl, rfl, rfl⟩
          rw [hadded, AList.lookup_insert_eq]
          exact if_pos rfl

theorem Together.exec {f : Fabric β} (h : Together f) (op : Op β) : Together (f.exec op) where
  keyed := h.keyed.exec op
  sealed := sealed_exec h.sealed op
  belongs id q hq := by
    rw [lookup_placements_exec] at hq
    cases hp : f.placements.lookup id with
    | some p =>
        rw [hp] at hq
        obtain rfl := Option.some.inj hq
        obtain ⟨-, -, hmanifest, -, hbelongs⟩ := recordAfter_keeps f op id p
        obtain ⟨m, hm, hof⟩ := h.belongs id p hp
        refine ⟨m, ?_, hbelongs m hof⟩
        rw [hmanifest, manifests_exec f op (AList.mem_iff_lookup.mpr ⟨m, hm⟩), hm]
    | none =>
        rw [hp] at hq
        obtain ⟨hcreated, -⟩ := Option.filter_eq_some_iff.mp hq
        obtain ⟨-, -, -, -, -, -, -, hm⟩ := created_belongs hcreated
        exact hm

omit [StorageBackend β] in
theorem Together.restore {f g : Fabric β} (h : Together f) (hg : Blank g) (path : Bytes)
    (nonce : Nat) : Together (g.restore f.snapshot path nonce) :=
  h.congr (h.keyed.lookup_placements hg path nonce)
    (hg.lookup_manifests path nonce h.keyed.manifests)

theorem blank_run {regs : List (Op β)} (hregs : ∀ op ∈ regs, op.registers.isSome = true) :
    Blank (Runs.run Fabric.exec ({} : Fabric β) regs) := by
  refine Runs.invariant (I := Blank) (P := fun _ op => op.registers.isSome = true)
    (fun f op hf hop => ?_) ⟨rfl, rfl, rfl⟩ (Runs.along_of_mem fun _ op hop => hregs op hop)
  obtain ⟨be, hbe⟩ := Option.isSome_iff_exists.mp hop
  obtain ⟨-, -, hcatalog, hmanifests, hplacements⟩ := exec_registers (f := f) hbe
  exact ⟨hcatalog.trans hf.catalog, hmanifests.trans hf.manifests, hplacements.trans hf.placements⟩

end Backend

end Fabric

/-! ### What a read and a verification compare -/

namespace Fabric

variable {β : Type} [StorageBackend β]

omit [StorageBackend β] in
theorem Sealed.sum_physical {m : Manifest} (h : Sealed m) :
    (m.chunks.map fun c => c.physicalLength.toNat).sum = m.totalLogicalLength.toNat := by
  obtain ⟨-, -, -, -, -, -, htiles⟩ := validateManifest_strict_iff.mp h.valid
  have hsum := htiles.sum_length
  rw [Nat.zero_add, Manifest.extents, List.map_map] at hsum
  rw [← hsum]
  exact congrArg List.sum (List.map_congr_left fun c hc => congrArg UInt64.toNat (h.stored c hc))

omit [StorageBackend β] in
theorem chunkBytes_eq_sum (chunks : List ChunkDescriptor) :
    chunkBytes chunks = (chunks.map fun c => c.physicalLength.toNat).sum := by
  induction chunks with
  | nil => rfl
  | cons c cs ih =>
      rw [List.map_cons, List.sum_cons, ← ih]
      rfl

/-- The chunks are read to their lengths, or the read fails at one of them. -/
theorem readChunks_cases (be : β) (cs : List ChunkDescriptor) :
    (∃ out, readChunks (cs.map fun c => (be, c)) = .ok out ∧ verifyRead be cs = .ok out ∧
      out.length = (cs.map fun c => c.physicalLength.toNat).sum) ∨
    readChunks (cs.map fun c => (be, c)) = Result.fail .ioError "chunk read failed" ∨
    readChunks (cs.map fun c => (be, c)) = Result.fail .lengthMismatch "chunk length mismatch" := by
  induction cs with
  | nil => exact .inl ⟨[], rfl, rfl, rfl⟩
  | cons c cs ih =>
      rw [List.map_cons, readChunks, verifyRead]
      cases hread : StorageBackend.read be (blobKey c.blob) with
      | error s => exact .inr (.inl rfl)
      | ok chunk =>
          dsimp only
          by_cases hlength : chunk.length = c.physicalLength.toNat
          · rw [if_neg (not_not.mpr hlength)]
            obtain ⟨out, hread, hverify, hsum⟩ | hfail | hfail := ih
            · refine .inl ⟨chunk ++ out, by rw [hread], by rw [hverify], ?_⟩
              rw [List.length_append, List.map_cons, List.sum_cons, hlength, hsum]
            · exact .inr (.inl (by rw [hfail]; rfl))
            · exact .inr (.inr (by rw [hfail]; rfl))
          · rw [if_pos hlength]
            exact .inr (.inr rfl)

theorem Together.read_cases {f : Fabric β} (h : Together f) {id : PlacementId}
    {p : PlacementRecord} (hp : f.placements.lookup id = some p) (hbe : p.backend ∈ f.backends)
    (o : ObjectId) :
    (∃ data, (f.read o (some id)).1 = .ok data ∧ data.length = p.logicalSize.toNat) ∨
    (f.read o (some id)).1 = Result.fail .ioError "chunk read failed" ∨
    (f.read o (some id)).1 = Result.fail .lengthMismatch "chunk length mismatch" := by
  obtain ⟨m, hm, hbelongs⟩ := h.belongs id p hp
  obtain ⟨be, hlookup⟩ := AList.mem_iff_lookup.mp hbe
  have hfound : f.lookupForRead o (some id) = .ok (p, m) := by
    unfold lookupForRead
    simp only [hp, hm]
  have hbackend : (f.account fun a => { a with activeReads := a.activeReads + 1 }).getBackend
      p.backend = .ok be := by
    unfold getBackend account
    simp only [hlookup]
  have hreserve : reserveOut m = .ok () :=
    reserveOut_of_stored ((chunkBytes_eq_sum m.chunks).trans (h.sealed _ m hm).sum_physical)
  unfold read
  simp only [hfound, hbackend, hreserve]
  obtain ⟨out, hread, -, hlength⟩ | hfail | hfail := readChunks_cases be m.chunks
  · have hwhole : out.length = m.totalLogicalLength.toNat :=
      hlength.trans (h.sealed _ m hm).sum_physical
    refine .inl ⟨out, ?_, by rw [hwhole, hbelongs.length]⟩
    rw [hread]
    show checkLength m out = _
    rw [checkLength, if_neg (not_not.mpr hwhole)]
  · exact .inr (.inl (by rw [hfail]; rfl))
  · exact .inr (.inr (by rw [hfail]; rfl))

theorem read_known {f : Fabric β} {id : PlacementId} {p : PlacementRecord}
    (hp : f.placements.lookup id = some p) {o : ObjectId} {data : Bytes}
    (hread : (f.read o (some id)).1 = .ok data) :
    ∃ m be, f.manifests.lookup p.manifest = some m ∧ f.backends.lookup p.backend = some be ∧
      reserveOut m = .ok () ∧ readChunks (m.chunks.map fun c => (be, c)) = .ok data := by
  unfold read lookupForRead getBackend account at hread
  simp only [hp] at hread
  cases hm : f.manifests.lookup p.manifest with
  | none => simp [hm, Result.fail] at hread
  | some m =>
      simp only [hm] at hread
      cases hbe : f.backends.lookup p.backend with
      | none => simp [hbe, Result.fail] at hread
      | some be =>
          simp only [hbe] at hread
          cases hreserve : reserveOut m with
          | error s => simp [hreserve] at hread
          | ok u =>
              refine ⟨m, be, rfl, rfl, hreserve, ?_⟩
              cases hchunks : readChunks (m.chunks.map fun c => (be, c)) with
              | error s => simp [hreserve, hchunks] at hread
              | ok out =>
                  simp only [hreserve, hchunks, checkLength] at hread
                  split at hread
                  · cases hread
                  · rw [Except.ok.inj hread]

/-- What is read after a verification that succeeds has the digest of the placement. -/
theorem digest_of_verified {f : Fabric β} {id : PlacementId} {p : PlacementRecord}
    (hp : f.placements.lookup id = some p) {v : VerifyResult} (hverify : (f.verify id).1 = .ok v)
    (hok : v.ok = true) {o : ObjectId} {data : Bytes}
    (hread : (f.read o (some id)).1 = .ok data) : ContentDigest.of data = p.digest := by
  obtain ⟨m, be, hm, hbe, hreserve, hchunks⟩ := read_known hp hread
  have hverified : verifyRead be m.chunks = .ok data := by
    obtain ⟨out, hout, hsame, -⟩ | hfail | hfail := readChunks_cases be m.chunks
    · obtain rfl := Except.ok.inj (hchunks.symm.trans hout)
      exact hsame
    · rw [hfail] at hchunks
      cases hchunks
    · rw [hfail] at hchunks
      cases hchunks
  unfold verify lookupForRead getBackend at hverify
  simp only [hp, hm, hbe, hreserve, hverified] at hverify
  split at hverify
  · obtain rfl := Except.ok.inj hverify
    cases hok
  · next hsame => exact not_not.mp hsame

/-! ### The digests of an object -/

def catalogued (f : Fabric β) (o : ObjectId) : Option ObjectDescriptor :=
  (f.catalog.lookup o).map CatalogEntry.object

/-- Entries are held under the ids of their objects, and placements carry the digest of their
object. -/
structure Digested (f : Fabric β) : Prop where
  entries : ∀ o obj, f.catalogued o = some obj → obj.id = o
  keyed : Keyed f
  digests : f.placements.All fun _ p =>
    ∃ obj, f.catalogued p.object = some obj ∧ p.digest = obj.digest

/-- What is published under the id of an object is published with the digest of the object. -/
def Declared (f : Fabric β) : Op β → Prop
  | .publishTo obj _ _ _ | .publish _ obj _ _ =>
      ∀ o, f.catalogued obj.id = some o → obj.digest = o.digest
  | _ => True

theorem catalogued_exec (f : Fabric β) (op : Op β) :
    (∀ o, (f.exec op).catalogued o = f.catalogued o) ∨
      ∃ obj, f.catalogued obj.id = none ∧
        ∀ o, (f.exec op).catalogued o = if o = obj.id then some obj else f.catalogued o := by
  have hsame : ∀ {f g : Fabric β}, g.catalog = f.catalog → ∀ o, g.catalogued o = f.catalogued o :=
    fun h o => by rw [catalogued, catalogued, h]
  -- a publication and an eviction change entries and leave their objects
  have hmodify : ∀ {f g : Fabric β} {k : ObjectId} {u : CatalogEntry → CatalogEntry},
      g.catalog = f.catalog.modify k u → (∀ e, (u e).object = e.object) →
        ∀ o, g.catalogued o = f.catalogued o := fun {f g k u} h hu o => by
    rw [catalogued, catalogued, h, AList.lookup_modify]
    split
    · next heq =>
        rw [heq, Option.map_map]
        exact congrArg (Option.map · _) (funext hu)
    · rfl
  have hcall : ∀ {f g : Fabric β} (c : Call), SameViews f g →
      ∀ o, (g.publishCall c).2.catalogued o = f.catalogued o := by
    intro f g c hviews o
    rw [← hsame (congrArg CatalogView.catalog hviews.catalog) o]
    have hout := publishCall_outcome g c
    generalize (g.publishCall c).1 = r at hout
    generalize (g.publishCall c).2 = f' at hout ⊢
    cases hout with
    | refused s ledger stale _ => rfl
    | aborted s res ledger start rc k _ _ habort =>
        obtain ⟨m, n, -, -, hcatalog⟩ := habort.catalog
        exact hsame (congrArg CatalogView.catalog hcatalog) o
    | published res ledger start chunks desc t k _ _ hpub =>
        exact hmodify (congrArg CatalogView.catalog hpub.catalog) (fun _ => rfl) o
  have heffect := exec_effect f op
  generalize f.exec op = f' at heffect
  cases heffect with
  | silent _ f' hviews => exact .inl (hsame (congrArg CatalogView.catalog hviews.catalog))
  | registered _ t desc be f' _ _ hcatalog _ _ =>
      exact .inl (hsame (congrArg CatalogView.catalog hcatalog))
  | defined _ obj f' _ hfresh hcatalog _ _ =>
      refine .inr ⟨obj, ?_, fun o => ?_⟩
      · rw [catalogued, AList.notMem_iff_lookup.mp hfresh]
        rfl
      · have hadded : f'.catalog = f.catalog.insert obj.id (newEntry obj) :=
          congrArg CatalogView.catalog hcatalog
        rw [catalogued, hadded, AList.lookup_insert_eq]
        split <;> rfl
  | duplicate _ f' _ hcatalog _ _ => exact .inl (hsame (congrArg CatalogView.catalog hcatalog))
  | called _ c g _ hviews _ => exact .inl (hcall c hviews)
  | moved _ source c g p _ hviews _ _ _ => exact .inl (hcall c hviews)
  | evicted id e hcheck =>
      exact .inl (hmodify (congrArg CatalogView.catalog (catalogView_evict hcheck)) fun _ => rfl)

theorem digest_of_call {f g : Fabric β} {op : Op β} {c : Call} (hcall : f.call op = some (c, g))
    (hop : Declared f op) (hentries : ∀ o obj, f.catalogued o = some obj → obj.id = o)
    {obj : ObjectDescriptor} (hobj : f.catalogued c.obj.id = some obj) :
    c.obj.digest = obj.digest := by
  have hcopy : ∀ {source : PlacementRecord} {target : StorageBackendId} {opts : PublishOptions},
      f.replicateCall source target opts = some (c, g) → c.obj.digest = obj.digest := by
    intro source target opts h
    unfold replicateCall at h
    split at h
    · cases h
    · next entry hentry =>
        split at h
        · cases h
        · cases h
          have hsource : f.catalogued source.object = some entry.object := by
            rw [catalogued, hentry]
            rfl
          rw [hentries _ _ hsource, hsource] at hobj
          rw [Option.some.inj hobj]
  cases op with
  | publishTo o content backend opts =>
      obtain ⟨rfl, -⟩ := Prod.mk.inj (Option.some.inj hcall)
      exact hop obj hobj
  | publish score o content opts =>
      obtain ⟨c', hplan, heq⟩ := Option.map_eq_some_iff.mp hcall
      obtain ⟨rfl, -⟩ := Prod.mk.inj heq
      obtain ⟨backend, rfl⟩ := planCall_some hplan
      exact hop obj hobj
  | replicate source target opts => exact hcopy hcall
  | move source target opts => exact hcopy hcall
  | _ => cases hcall

theorem Digested.exec {f : Fabric β} (h : Digested f) {op : Op β} (hop : Declared f op) :
    Digested (f.exec op) where
  entries o obj hobj := by
    obtain hsame | ⟨new, -, hadded⟩ := catalogued_exec f op
    · exact h.entries o obj (hsame o ▸ hobj)
    · rw [hadded] at hobj
      split at hobj
      · next heq => rw [heq, Option.some.inj hobj]
      · exact h.entries o obj hobj
  keyed := h.keyed.exec op
  digests id q hq := by
    -- an object once catalogued stays as it is
    have hstays : ∀ {o obj}, f.catalogued o = some obj → (f.exec op).catalogued o = some obj := by
      intro o obj hobj
      obtain hsame | ⟨new, hnone, hadded⟩ := catalogued_exec f op
      · rw [hsame, hobj]
      · rw [hadded, if_neg, hobj]
        rintro rfl
        rw [hnone] at hobj
        cases hobj
    rw [lookup_placements_exec] at hq
    cases hp : f.placements.lookup id with
    | some p =>
        rw [hp] at hq
        obtain rfl := Option.some.inj hq
        obtain ⟨-, hobject, -, hdigest, -⟩ := recordAfter_keeps f op id p
        obtain ⟨obj, hobj, hof⟩ := h.digests id p hp
        exact ⟨obj, hobject ▸ hstays hobj, hdigest.trans hof⟩
    | none =>
        rw [hp] at hq
        obtain ⟨hcreated, -⟩ := Option.filter_eq_some_iff.mp hq
        obtain ⟨c, g, hcall, -, hobject, hdigest, hknown, -⟩ := created_belongs hcreated
        obtain ⟨entry, hentry⟩ := AList.mem_iff_lookup.mp hknown
        have hobj : f.catalogued c.obj.id = some entry.object := by
          rw [catalogued, hentry]
          rfl
        exact ⟨entry.object, hobject ▸ hstays hobj,
          hdigest.trans (digest_of_call hcall hop h.entries hobj)⟩

omit [StorageBackend β] in
theorem Digested.catalogued_restore {f g : Fabric β} (h : Digested f) (hg : Blank g) (path : Bytes)
    (nonce : Nat) (o : ObjectId) :
    (g.restore f.snapshot path nonce).catalogued o = f.catalogued o := by
  have hkeyed : ∀ k e, f.catalog.lookup k = some e → e.object.id = k := fun k e he =>
    h.entries k e.object (by rw [catalogued, he]; rfl)
  have hfind : (f.snapshot.objects.find? fun obj => obj.id = o) = f.catalogued o := by
    rw [catalogued, ← AList.find?_values hkeyed o]
    exact List.find?_map
  rw [catalogued, lookup_catalog_restore, hg.catalog, AList.lookup_empty, Option.none_or, hfind]
  cases f.catalogued o <;> rfl

end Fabric

/-! ### Runtimes whose storage is not trusted -/

open Fabric

/-- What happens to a runtime and to its backends. A process that is killed, in the middle of
an operation or not, leaves the file and backends in some state. -/
inductive ExposedOp (β : Type)
  | exec (op : Op β)
  /-- A backend becomes something else behind the back of the runtime. -/
  | tamper (id : StorageBackendId) (be : β)
  | save (fault : SaveFault)
  /-- The process is killed; the next one registers backends and recovers the file. -/
  | restart (regs : List (Op β)) (nowNs : UInt64)

namespace Exposed

variable {β : Type} [StorageBackend β]

def step (path : Bytes) (h : Host β) : ExposedOp β → Host β
  | .exec op => h.step (.exec op)
  | .tamper id be => { h with fabric := h.fabric.setBackend id be }
  | .save fault => h.step (.save path fault)
  | .restart regs nowNs => Runs.run Host.step h ([.restart] ++ regs.map .exec ++ [.recover path nowNs])

/-- What is saved can be read back, and a new process begins with its backends. -/
def Sane (h : Host β) : ExposedOp β → Prop
  | .save _ => Writable h.fabric
  | .restart regs _ => ∀ op ∈ regs, op.registers.isSome = true
  | _ => True

/-- What a runtime has from the beginning, keeps and gets back from a snapshot of one that
has it. -/
structure Inductive (I : Fabric β → Prop) (P : Fabric β → Op β → Prop) : Prop where
  blank : ∀ g, Blank g → I g
  exec : ∀ f op, I f → P f op → I (f.exec op)
  tamper : ∀ f id be, I f → I (f.setBackend id be)
  path : ∀ (f : Fabric β) last, I f → I { f with lastSavePath := last }
  restore : ∀ f g path nonce, I f → Blank g → I (g.restore f.snapshot path nonce)

def Kept (I : Fabric β → Prop) (path : Bytes) (files : Table Bytes Bytes) : Prop :=
  recorded files path = none ∨ ∃ f, recorded files path = some f.snapshot ∧ I f

/-- The invariant rule: what is kept in the runtime and in the file. -/
theorem invariant {I : Fabric β → Prop} {P : Fabric β → Op β → Prop} (hI : Inductive I P)
    {path : Bytes} {ops : List (ExposedOp β)}
    (hops : Runs.Along (step path) (fun h o => Sane h o ∧ ∀ op, o = .exec op → P h.fabric op) {} ops) :
    I (Runs.run (step path) {} ops).fabric := by
  refine (Runs.invariant (I := fun h : Host β => I h.fabric ∧ Kept I path h.files) ?_
    ⟨hI.blank _ ⟨rfl, rfl, rfl⟩, .inl rfl⟩ hops).1
  intro h o hh ho
  obtain ⟨hfabric, hkept⟩ := hh
  obtain ⟨hsane, hP⟩ := ho
  cases o with
  | exec op => exact ⟨hI.exec _ op hfabric (hP op rfl), hkept⟩
  | tamper id be => exact ⟨hI.tamper _ id be hfabric, hkept⟩
  | save fault =>
      -- a save changes nothing but the path, and the file only where it succeeds
      obtain ⟨last, hlast⟩ := Host.fabric_save h.fabric path fault h.files
      refine ⟨?_, ?_⟩
      · show I (h.fabric.save path fault h.files).2.1
        rw [hlast]
        exact hI.path _ last hfabric
      · show Kept I path (h.fabric.save path fault h.files).2.2
        cases hok : (h.fabric.save path fault h.files).1.isOk with
        | true =>
            exact .inr ⟨h.fabric,
              recorded_saved hsane.storable hsane.distinct hsane.short hok, hfabric⟩
        | false =>
            unfold Kept recorded
            rw [lookup_save_of_failed hok]
            exact hkept
  | restart regs nowNs =>
      have hhost : step path h (.restart regs nowNs) =
          ⟨((Runs.run Fabric.exec ({} : Fabric β) regs).recover path h.files nowNs).2, h.files⟩ := by
        show Runs.run Host.step h ([.restart] ++ regs.map .exec ++ [.recover path nowNs]) = _
        rw [Runs.run_append, Runs.run_append, Host.run_exec]
        rfl
      rw [hhost]
      refine ⟨?_, hkept⟩
      -- before the recovery the new runtime has the registrations and nothing else
      have hblank := blank_run hsane
      obtain ⟨snap, hsnap, heq⟩ | ⟨-, -, hsame⟩ :=
        (Runs.run Fabric.exec ({} : Fabric β) regs).recover_cases path h.files nowNs
      -- the file is that of a runtime of the run, or there was none
      · obtain hnone | ⟨f, hf, hIf⟩ := hkept
        · rw [hnone] at hsnap
          cases hsnap
        · obtain rfl := Option.some.inj (hf.symm.trans hsnap)
          show I (_ : Status × Fabric β).2
          rw [heq]
          exact hI.restore f _ path _ hIf hblank
      · show I (_ : Status × Fabric β).2
        rw [hsame]
        exact hI.blank _ hblank

theorem inductive_together : Inductive (β := β) Together fun _ _ => True where
  blank _ := together_blank
  exec _ op h _ := h.exec op
  tamper _ _ _ h := ⟨⟨h.keyed.placements, h.keyed.manifests⟩, h.sealed, h.belongs⟩
  path _ _ h := ⟨⟨h.keyed.placements, h.keyed.manifests⟩, h.sealed, h.belongs⟩
  restore _ _ path nonce h hg := h.restore hg path nonce

theorem together_run {path : Bytes} {ops : List (ExposedOp β)}
    (hops : Runs.Along (step path) Sane {} ops) : Together (Runs.run (step path) {} ops).fabric :=
  invariant inductive_together (hops.mono fun _ _ h => ⟨h, fun _ _ => trivial⟩)

theorem inductive_digested : Inductive (β := β) Digested Declared where
  blank g hg := by
    have hnone : ∀ o, g.catalogued o = none := fun o => by
      rw [catalogued, hg.catalog]
      rfl
    refine ⟨fun o obj hobj => ?_, (together_blank hg).keyed, fun id p hp => ?_⟩
    · rw [hnone] at hobj
      cases hobj
    · simp [hg.placements] at hp
  exec _ op h hop := h.exec hop
  tamper _ _ _ h := ⟨h.entries, ⟨h.keyed.placements, h.keyed.manifests⟩, h.digests⟩
  path _ _ h := ⟨h.entries, ⟨h.keyed.placements, h.keyed.manifests⟩, h.digests⟩
  restore f g path nonce h hg := by
    have hcatalogued := h.catalogued_restore hg path nonce
    refine ⟨fun o obj hobj => h.entries o obj (hcatalogued o ▸ hobj),
      h.keyed.restore hg path nonce, fun id p hp => ?_⟩
    rw [h.keyed.lookup_placements hg] at hp
    obtain ⟨obj, hobj, hdigest⟩ := h.digests id p hp
    exact ⟨obj, (hcatalogued _).trans hobj, hdigest⟩

/-- In every runtime, whatever its backends do and however often the process is killed: each
manifest has been validated and carries its digest, and each placement has a manifest of its
object, its generation and its length. -/
theorem records_belong_together {path : Bytes} {ops : List (ExposedOp β)}
    (hops : Runs.Along (step path) Sane {} ops) :
    let f := (Runs.run (step path) {} ops).fabric
    (∀ id m, f.manifests.lookup id = some m →
      m.id = id ∧ m.validate = .ok () ∧ m.manifestDigest = computeManifestDigest m) ∧
    ∀ id p, f.placements.lookup id = some p →
      p.id = id ∧ ∃ m, f.manifests.lookup p.manifest = some m ∧ Belongs p m := by
  have h := together_run hops
  exact ⟨fun id m hm =>
      ⟨h.keyed.manifests id m hm, (h.sealed id m hm).valid, (h.sealed id m hm).digest⟩,
    fun id p hp => ⟨h.keyed.placements id p hp, h.belongs id p hp⟩⟩

/-- A publication on a backend that then forgets everything. -/
def smallExposed : List (ExposedOp SyntheticBackend) :=
  Small.opening.map .exec ++ [.exec Small.verified, .exec Small.verified, .tamper ⟨1⟩ {}]

theorem sane_smallExposed : Runs.Along (step []) Sane {} smallExposed :=
  ⟨trivial, trivial, trivial, trivial, trivial, trivial, trivial⟩

theorem run_smallExposed :
    let f := (Runs.run (step []) {} smallExposed).fabric
    ((f.placements.lookup ⟨2⟩).map PlacementRecord.backend = some ⟨1⟩ ∧
      (⟨1⟩ : StorageBackendId) ∈ f.backends ∧ (f.read ⟨1⟩ (some ⟨2⟩)).1.toOption = none ∧
      (f.read ⟨1⟩ (some ⟨2⟩)).1 ≠ Result.fail .lengthMismatch "chunk length mismatch") ∧
    ((f.manifests.lookup ⟨1⟩).isSome = true ∧ (f.manifests.lookup ⟨2⟩).isSome = true) ∧
    (∀ id ∈ [(⟨1⟩ : ManifestId), ⟨2⟩], ∀ m ∈ f.manifests.lookup id, m.object.value < 256 ^ 8 ∧
      (∀ c ∈ m.chunks, c.id.value < 256 ^ 8 ∧ c.blob.value < 256 ^ 8)) ∧
    (f.manifests.lookup ⟨1⟩).map Manifest.manifestDigest =
      (f.manifests.lookup ⟨2⟩).map Manifest.manifestDigest := by
  decide +kernel

theorem records_belong_together_small :
    let f := (Runs.run (step []) {} smallExposed).fabric
    ∃ p m, f.placements.lookup ⟨2⟩ = some p ∧ f.manifests.lookup p.manifest = some m ∧
      Belongs p m := by
  obtain ⟨-, hplacements⟩ := records_belong_together sane_smallExposed
  obtain ⟨⟨hknown, -⟩, -⟩ := run_smallExposed
  obtain ⟨p, hp, -⟩ := Option.map_eq_some_iff.mp hknown
  obtain ⟨-, m, hm, hbelongs⟩ := hplacements _ _ hp
  exact ⟨p, m, hp, hm, hbelongs⟩

/-- A read of a known placement on a registered backend returns as many bytes as the object
has, or it fails at a chunk: the manifest is always found, and its chunks make up the object. -/
theorem reads_are_whole {path : Bytes} {ops : List (ExposedOp β)}
    (hops : Runs.Along (step path) Sane {} ops) :
    let f := (Runs.run (step path) {} ops).fabric
    ∀ id p, f.placements.lookup id = some p → p.backend ∈ f.backends → ∀ o,
      (∃ data, (f.read o (some id)).1 = .ok data ∧ data.length = p.logicalSize.toNat) ∨
      (f.read o (some id)).1 = Result.fail .ioError "chunk read failed" ∨
      (f.read o (some id)).1 = Result.fail .lengthMismatch "chunk length mismatch" :=
  fun _ _ hp hbe o => (together_run hops).read_cases hp hbe o

theorem reads_are_whole_small :
    let f := (Runs.run (step []) {} smallExposed).fabric
    (f.read ⟨1⟩ (some ⟨2⟩)).1 = Result.fail .ioError "chunk read failed" := by
  obtain ⟨⟨hknown, hregistered, hnone, hlength⟩, -⟩ := run_smallExposed
  obtain ⟨p, hp, hbackend⟩ := Option.map_eq_some_iff.mp hknown
  have hbe : p.backend ∈ (Runs.run (step []) {} smallExposed).fabric.backends :=
    hbackend ▸ hregistered
  obtain ⟨data, hread, -⟩ | hfail | hfail := reads_are_whole sane_smallExposed ⟨2⟩ p hp hbe ⟨1⟩
  · rw [hread] at hnone
    cases hnone
  · exact hfail
  · exact absurd hfail hlength

/-- Manifests of a runtime that have the same digest say the same of their objects and of
their chunks, or they are a collision of SHA-256. -/
theorem manifest_digests_commit {path : Bytes} {ops : List (ExposedOp β)}
    (hops : Runs.Along (step path) Sane {} ops) :
    let f := (Runs.run (step path) {} ops).fabric
    ∀ id id' m m', f.manifests.lookup id = some m → f.manifests.lookup id' = some m' →
      m.Narrow → m'.Narrow → m.manifestDigest = m'.manifestDigest →
        m.Same m' ∨ m.digestInput ≠ m'.digestInput ∧
          ContentDigest.of m.digestInput = ContentDigest.of m'.digestInput := by
  intro f id id' m m' hm hm' hnarrow hnarrow' hdigest
  have h := together_run hops
  refine Manifest.same_of_digest hnarrow hnarrow' ?_
  rw [← (h.sealed id m hm).digest, hdigest, (h.sealed id' m' hm').digest]

/-- Two publications of the same content share its blob, and have the same digest. -/
theorem manifest_digests_commit_small :
    let f := (Runs.run (step []) {} smallExposed).fabric
    ∃ m m', f.manifests.lookup ⟨1⟩ = some m ∧ f.manifests.lookup ⟨2⟩ = some m' ∧
      (m.Same m' ∨ m.digestInput ≠ m'.digestInput ∧
        ContentDigest.of m.digestInput = ContentDigest.of m'.digestInput) := by
  obtain ⟨-, ⟨hfirst, hsecond⟩, hnarrow, hdigests⟩ := run_smallExposed
  obtain ⟨m, hm⟩ := Option.isSome_iff_exists.mp hfirst
  obtain ⟨m', hm'⟩ := Option.isSome_iff_exists.mp hsecond
  rw [hm, hm'] at hdigests
  obtain ⟨hobject, hchunks⟩ := hnarrow ⟨1⟩ (by decide) m hm
  obtain ⟨hobject', hchunks'⟩ := hnarrow ⟨2⟩ (by decide) m' hm'
  exact ⟨m, m', hm, hm', manifest_digests_commit sane_smallExposed _ _ m m' hm hm'
    ⟨hobject, hchunks⟩ ⟨hobject', hchunks'⟩ (Option.some.inj hdigests)⟩

/-- Whatever the backends do: placements of one object that verify hold contents of one digest,
that of the object, if nothing is published under another one. -/
theorem verified_replicas_agree {path : Bytes} {ops : List (ExposedOp β)}
    (hops : Runs.Along (step path)
      (fun h o => Sane h o ∧ ∀ op, o = .exec op → Declared h.fabric op) {} ops) :
    let f := (Runs.run (step path) {} ops).fabric
    ∀ id p, f.placements.lookup id = some p → ∃ obj, f.catalogued p.object = some obj ∧
      ∀ v, (f.verify id).1 = .ok v → v.ok = true → ∀ o data,
        (f.read o (some id)).1 = .ok data → ContentDigest.of data = obj.digest := by
  intro f id p hp
  obtain ⟨obj, hobj, hdigest⟩ := (invariant inductive_digested hops).digests id p hp
  refine ⟨obj, hobj, fun v hverify hok o data hread => ?_⟩
  rw [digest_of_verified hp hverify hok hread, hdigest]

theorem ok_of_toOption {α : Type} {r : Result α} {a : α} (h : r.toOption = some a) : r = .ok a := by
  cases r with
  | ok b => rw [Option.some.inj h]
  | error s => cases h

theorem verified_replicas_agree_small :
    let f := (Runs.run (step []) {} (Small.opening.map .exec ++ [.exec Small.verified])).fabric
    ∃ data, (f.read ⟨1⟩ (some ⟨1⟩)).1 = .ok data ∧ ContentDigest.of data = Small.object.digest := by
  have hcatalogued : (Runs.run (step []) ({} : Host SyntheticBackend)
      (Small.opening.map .exec)).fabric.catalogued ⟨1⟩ = some Small.object := by decide +kernel
  have hops : Runs.Along (step []) (fun h o => Sane h o ∧ ∀ op, o = .exec op → Declared h.fabric op)
      ({} : Host SyntheticBackend) (Small.opening.map .exec ++ [.exec Small.verified]) := by
    refine Runs.along_append.mpr ⟨⟨⟨trivial, ?_⟩, ⟨trivial, ?_⟩, ⟨trivial, ?_⟩, trivial⟩,
      ⟨trivial, ?_⟩, trivial⟩
    · rintro _ ⟨⟩
      trivial
    · rintro _ ⟨⟩
      trivial
    · rintro _ ⟨⟩
      trivial
    · rintro _ ⟨⟩ o ho
      obtain rfl := Option.some.inj (hcatalogued.symm.trans ho)
      rfl
  have hrun : let f := (Runs.run (step []) ({} : Host SyntheticBackend)
        (Small.opening.map .exec ++ [.exec Small.verified])).fabric
      ((f.placements.lookup ⟨1⟩).map PlacementRecord.object = some ⟨1⟩ ∧
        f.catalogued ⟨1⟩ = some Small.object) ∧
      (f.verify ⟨1⟩).1.toOption.map VerifyResult.ok = some true ∧
      (f.read ⟨1⟩ (some ⟨1⟩)).1.toOption.isSome = true := by
    decide +kernel
  obtain ⟨⟨hobject, hcat⟩, hverify, hread⟩ := hrun
  obtain ⟨p, hp, hpobject⟩ := Option.map_eq_some_iff.mp hobject
  obtain ⟨v, hv, hok⟩ := Option.map_eq_some_iff.mp hverify
  obtain ⟨data, hdata⟩ := Option.isSome_iff_exists.mp hread
  obtain ⟨obj, hobj, hall⟩ := verified_replicas_agree hops ⟨1⟩ p hp
  rw [hpobject, hcat] at hobj
  obtain rfl := Option.some.inj hobj
  exact ⟨data, ok_of_toOption hdata,
    hall v (ok_of_toOption hv) hok ⟨1⟩ data (ok_of_toOption hdata)⟩

end Exposed

end StorageFabric
