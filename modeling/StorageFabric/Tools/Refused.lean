import StorageFabric.Runtime.Whole
import StorageFabric.Tools.Fetched

/-!
A request to create an object that is answered with an error.

The handler passes the gate, defines the object and publishes it, and answers with an
error wherever one of the three stops. Nothing takes a definition back, so an object
whose publication fails stays in the catalog.
-/

namespace StorageFabric

namespace Fabric

variable {β : Type}

/-- The same objects, placements, replica sets and authority, and the same counters of
objects and their bytes. -/
structure SameHoldings (f g : Fabric β) : Prop where
  catalog : g.catalog = f.catalog
  objects : g.objects = f.objects
  placements : g.placements = f.placements
  replicaSets : g.replicaSets = f.replicaSets
  authority : g.authority = f.authority
  logicalObjects : g.accounting.logicalObjects = f.accounting.logicalObjects
  logicalBytes : g.accounting.logicalBytes = f.accounting.logicalBytes

theorem SameHoldings.refl (f : Fabric β) : SameHoldings f f := ⟨rfl, rfl, rfl, rfl, rfl, rfl, rfl⟩

theorem catalog_of_fails [StorageBackend β] {f : Fabric β} {c : Call}
    (h : (f.publishCall c).1.toOption.isSome = false) :
    (f.publishCall c).2.catalog = f.catalog ∧ (f.publishCall c).2.placements = f.placements := by
  have houtcome := f.publishCall_outcome c
  generalize (f.publishCall c).1 = r at h houtcome
  generalize (f.publishCall c).2 = g at houtcome ⊢
  cases houtcome with
  | refused => exact ⟨rfl, rfl⟩
  | aborted s res ledger start rc k g hstart haborted =>
      obtain ⟨m, n, -, -, hview⟩ := haborted.catalog
      exact ⟨congrArg CatalogView.catalog hview, congrArg CatalogView.placements hview⟩
  | published => cases h

end Fabric

namespace Coordinator

variable {β : Type}

def described (c : Coordinator β) (req : CreateRequest) : ObjectDescriptor :=
  Fabric.describeObject ⟨c.sf.objectCounter⟩ req.kind req.size req.content req.incoming
    { minReplicas := 1 } (.known .high) c.sf.policyGeneration

/-- The payload is the request, and the request gets to its publication: the gate lets
it through, and its object can be defined. -/
structure Proceeds (c : Coordinator β) (payload : Bytes) (req : CreateRequest) : Prop where
  request : ∃ rest, readCreate.run payload = some (req, rest)
  newer : req.incoming.isStrictlyNewerThan c.sf.authority = true
  defines : c.sf.Defines req.size req.content

section Backend

variable [StorageBackend β]

/-- A request that does not get to its publication is answered with an error, and draws
an id at most. -/
theorem createObject_stops {c : Coordinator β} {payload : Bytes}
    (h : ∀ req, ¬c.Proceeds payload req) :
    (c.createObject payload).1.isOk = false ∧
      c.sf.SameHoldings (c.createObject payload).2.sf := by
  unfold createObject
  cases hread : readCreate.run payload with
  | none => exact ⟨rfl, .refl _⟩
  | some r =>
      obtain ⟨req, rest⟩ := r
      dsimp only
      cases hgate : req.incoming.isStrictlyNewerThan c.sf.authority with
      | false => exact ⟨rfl, .refl _⟩
      | true =>
          obtain ⟨hdefines, -⟩ | ⟨-, s, n, -, heq⟩ :=
            c.sf.defineObject_cases req.kind req.size req.content req.incoming
              { minReplicas := 1 } (.known .high)
          · exact absurd ⟨⟨rest, hread⟩, hgate, hdefines⟩ (h req)
          · rw [if_pos rfl, heq]
            exact ⟨rfl, ⟨rfl, rfl, rfl, rfl, rfl, rfl, rfl⟩⟩

theorem createObject_proceeds {c : Coordinator β} {payload : Bytes} {req : CreateRequest}
    (h : c.Proceeds payload req) :
    let out := (c.sf.withObject (c.described req)).publishCall
      (c.createCall req (c.described req))
    (c.createObject payload).1.isOk = out.1.toOption.isSome ∧
      (out.1.toOption.isSome = false → (c.createObject payload).2.sf = out.2) := by
  obtain ⟨⟨rest, hread⟩, hgate, hdefines⟩ := h
  obtain ⟨-, obj, hobj, heq⟩ | ⟨hnot, -⟩ :=
    c.sf.defineObject_cases req.kind req.size req.content req.incoming
      { minReplicas := 1 } (.known .high)
  · rw [hobj] at heq
    have hdefine : c.sf.defineObject req.kind req.size req.content req.incoming
        { minReplicas := 1 } (.known .high) =
          (.ok (c.described req), c.sf.withObject (c.described req)) := heq
    unfold createObject
    simp only [hread, hgate, if_true, hdefine]
    rcases hpub : (c.sf.withObject (c.described req)).publishCall
      (c.createCall req (c.described req)) with ⟨r, f⟩
    have hpub' : (c.sf.withObject (c.described req)).publishTo (c.described req) req.content
        c.defaultBackend (createOptions req.incoming) = (r, f) := hpub
    simp only [hpub']
    cases r with
    | error s => exact ⟨rfl, fun _ => rfl⟩
    | ok p => exact ⟨rfl, fun hfail => by cases hfail⟩
  · exact absurd hdefines hnot

theorem Proceeds.publishes_iff {c : Coordinator β} {payload : Bytes} {req : CreateRequest}
    (h : c.Proceeds payload req) :
    ((c.sf.withObject (c.described req)).publishCall
      (c.createCall req (c.described req))).1.toOption.isSome = true ↔
      c.sf.Accommodates (c.createCall req (c.described req)) := by
  have hnil : req.incoming.isNil = false := AuthorityEnvelope.not_isNil_of_newer h.newer
  have hwhole : Fabric.Whole (c.createCall req (c.described req)) :=
    ⟨h.defines.1, h.defines.2.1, rfl, rfl, rfl⟩
  have hauth : ((c.sf.withObject (c.described req)).publishAuthority
      (createOptions req.incoming)).isNil = false := by
    simp only [Fabric.publishAuthority, createOptions, hnil, Bool.false_eq_true, if_false]
  have hfence : (c.sf.withObject (c.described req)).isFenced (createOptions req.incoming) =
      false := by
    have hnewer : 0 < AuthorityEnvelope.compare req.incoming c.sf.authority :=
      of_decide_eq_true h.newer
    have hnot : ¬AuthorityEnvelope.compare req.incoming c.sf.authority < 0 := by omega
    simp only [Fabric.isFenced, createOptions, hnil, Bool.not_false, Bool.true_and]
    exact decide_eq_false hnot
  have hknown : (c.described req).id ∈ (c.sf.withObject (c.described req)).catalog :=
    AList.mem_insert _ |>.mpr (.inl rfl)
  rw [Fabric.publishCall_whole_iff hwhole hauth hfence hknown]
  exact ⟨fun h => ⟨h.1, h.2, h.3, h.4, h.5, h.6, h.7⟩, fun h => ⟨h.1, h.2, h.3, h.4, h.5, h.6, h.7⟩⟩

theorem Proceeds.leaves {c : Coordinator β} {payload : Bytes} {req : CreateRequest}
    (h : c.Proceeds payload req) (hfail : (c.createObject payload).1.isOk = false) :
    (c.createObject payload).2.sf.catalog =
        c.sf.catalog.insert (c.described req).id (Fabric.newEntry (c.described req)) ∧
      (c.createObject payload).2.sf.placements = c.sf.placements ∧
      (c.createObject payload).2.sf.authority = c.sf.authority := by
  obtain ⟨hok, hsf⟩ := createObject_proceeds h
  rw [hok] at hfail
  obtain ⟨hcatalog, hplacements⟩ := Fabric.catalog_of_fails hfail
  rw [hsf hfail, hcatalog, hplacements]
  exact ⟨rfl, rfl, Fabric.authority_publishTo _ _ _ _ _⟩

/-- A refused request to create an object changes nothing exactly if it does not get to
its publication, or the runtime accommodates that. -/
theorem createObject_keeps_iff (c : Coordinator β) (payload : Bytes) :
    ((c.createObject payload).1.isOk = false →
        c.sf.SameHoldings (c.createObject payload).2.sf) ↔
      ∀ req, c.Proceeds payload req →
        c.sf.Accommodates (c.createCall req (c.described req)) := by
  constructor
  · intro hkeeps req h
    rw [← h.publishes_iff]
    by_contra hfail
    rw [Bool.not_eq_true] at hfail
    obtain ⟨hok, -⟩ := createObject_proceeds h
    rw [← hok] at hfail
    -- the object is new in the catalog, so the catalog is not the same
    have hsame := (hkeeps hfail).catalog
    rw [(h.leaves hfail).1] at hsame
    refine h.defines.2.2 ?_
    rw [← hsame]
    exact AList.mem_insert _ |>.mpr (.inl rfl)
  · intro haccommodates hfail
    by_cases hproceeds : ∃ req, c.Proceeds payload req
    · obtain ⟨req, h⟩ := hproceeds
      obtain ⟨hok, -⟩ := createObject_proceeds h
      rw [hok, h.publishes_iff.mpr (haccommodates req h)] at hfail
      cases hfail
    · exact (createObject_stops (not_exists.mp hproceeds)).2

end Backend

/-! ### A full backend -/

/-- A coordinator whose backend has no free bytes, with two workers connected. -/
def fullCoordinator : Coordinator SyntheticBackend :=
  (Runs.run Process.step Process.smallProcess Process.handshakes).c

def oneByteRequest : Bytes :=
  (createFrame (Process.envelopeFrom 2) (.known .genericAiState) [7]).payload

set_option maxRecDepth 20000 in
/-- The object that could not be published is there nevertheless. -/
theorem refused_object_stays :
    ¬((fullCoordinator.createObject oneByteRequest).1.isOk = false →
      fullCoordinator.sf.SameHoldings (fullCoordinator.createObject oneByteRequest).2.sf) := by
  intro hkeeps
  have hfail : (fullCoordinator.createObject oneByteRequest).1.isOk = false := by decide +kernel
  have hbefore : fullCoordinator.sf.accounting.logicalObjects = 0 := by decide +kernel
  have hafter : (fullCoordinator.createObject oneByteRequest).2.sf.accounting.logicalObjects =
      1 := by decide +kernel
  have hsame := (hkeeps hfail).logicalObjects
  rw [hbefore, hafter] at hsame
  cases hsame

end Coordinator

end StorageFabric
