import StorageFabric.Runtime.Lifecycle
import StorageFabric.Runtime.Reads

/-!
Runs that only add objects.

Nothing is moved or evicted in them, and an object is placed once. A read of an object
has no choice of placement then, and what it finds is what the object was published
with, however many objects share its blobs.
-/

namespace StorageFabric

open StorageBackend

def Op.isPlain {β : Type} : Op β → Bool
  | .defineObject .. | .read .. | .verify .. | .setAuthority .. | .newCoordinatorEpoch => true
  | _ => false

theorem Call.slices_whole {c : Call} (hsize : c.content.length = c.obj.logicalSize.toNat)
    (hchunk : c.opts.chunkSize = 0) : ∀ slice ∈ c.slices, slice = c.content := by
  intro slice hslice
  have hlength : Fabric.chunkLength c.obj c.opts = c.content.length := by
    rw [Fabric.chunkLength, if_pos hchunk, hsize]
  rw [Call.slices, hlength] at hslice
  by_cases hempty : c.content = []
  · rw [hempty, slices_nil] at hslice
    exact absurd hslice List.not_mem_nil
  · obtain ⟨turns, hturns⟩ := Nat.exists_eq_succ_of_ne_zero
      (Nat.ne_of_gt (List.length_pos_iff.mpr hempty))
    have hslices : StorageFabric.slices c.content.length (turns + 1) c.content = [c.content] := by
      rw [slices_cons hempty, List.take_length, List.drop_length, slices_nil]
    rw [← Nat.succ_eq_add_one, ← hturns] at hslices
    rw [hslices] at hslice
    exact List.mem_singleton.mp hslice

namespace Fabric

variable {β : Type} [KeyValueBackend β]

/-! ### Operations that only add -/

/-- The operation at most places an object that has no placement yet, with contents
in `S`. -/
structure Appends (S : Set Bytes) (f : Fabric β) (op : Op β) : Prop where
  involves : Involves S f op
  moves : op.moves = none
  evicts : ∀ id, op ≠ .evict id
  unplaced : ∀ c g, f.call op = some (c, g) → ∀ id p, f.placements.lookup id = some p →
    p.object ≠ c.obj.id

theorem appends_of_isPlain (S : Set Bytes) (f : Fabric β) {op : Op β} (h : op.isPlain = true) :
    Appends S f op := by
  have hcall : f.call op = none := by cases op <;> first | rfl | cases h
  have hregisters : op.registers = none := by cases op <;> first | rfl | cases h
  refine ⟨⟨fun c g hc => ?_, fun be hbe => ?_⟩, ?_, ?_, fun c g hc => ?_⟩
  · rw [hcall] at hc
    cases hc
  · rw [hregisters] at hbe
    cases hbe
  · cases op <;> first | rfl | cases h
  · rintro id rfl
    cases h
  · rw [hcall] at hc
    cases hc

theorem appends_publishTo {S : Set Bytes} {f : Fabric β} {obj : ObjectDescriptor}
    {content : Bytes} {opts : PublishOptions} (hcontent : content ∈ S)
    (hsize : content.length = obj.logicalSize.toNat) (hchunk : opts.chunkSize = 0)
    (hunplaced : ∀ id p, f.placements.lookup id = some p → p.object ≠ obj.id)
    (backend : StorageBackendId) : Appends S f (.publishTo obj content backend opts) := by
  refine ⟨⟨?_, fun be hbe => by cases hbe⟩, rfl, fun id => by simp, ?_⟩
  · intro c g hc slice hslice
    cases hc
    rw [Call.slices_whole hsize hchunk slice hslice]
    exact hcontent
  · intro c g hc
    cases hc
    exact hunplaced

theorem Appends.keeps {S : Set Bytes} {f : Fabric β} {op : Op β} (h : Appends S f op)
    {id : PlacementId} {p : PlacementRecord} (hp : f.placements.lookup id = some p) :
    (f.exec op).placements.lookup id = some p := by
  have hretires : f.retires op = none := by simp [retires, h.moves]
  have hevicts : f.evicts op = none := by
    cases op with
    | evict id => exact absurd rfl (h.evicts id)
    | _ => rfl
  rw [lookup_placements_exec, hp]
  simp [recordAfter, hretires, hevicts]

theorem object_created {f g : Fabric β} {op : Op β} {c : Call} {p : PlacementRecord}
    (hcall : f.call op = some (c, g)) (hcreated : f.created op = some p) :
    p.object = c.obj.id := by
  rw [created, hcall] at hcreated
  have hout := publishCall_outcome g c
  dsimp only at hcreated
  generalize (g.publishCall c).1 = r at hout hcreated
  generalize (g.publishCall c).2 = f' at hout
  cases hout with
  | refused => cases hcreated
  | aborted => cases hcreated
  | published =>
      cases hcreated
      rfl

theorem Appends.adds {S : Set Bytes} {f : Fabric β} {op : Op β} (h : Appends S f op)
    {id : PlacementId} {q : PlacementRecord} (hq : (f.exec op).placements.lookup id = some q)
    (hnew : f.placements.lookup id = none) {id' : PlacementId} {p : PlacementRecord}
    (hp : f.placements.lookup id' = some p) : p.object ≠ q.object := by
  rw [lookup_placements_exec, hnew] at hq
  obtain ⟨hcreated, -⟩ := Option.filter_eq_some_iff.mp hq
  cases hcall : f.call op with
  | none =>
      rw [created, hcall] at hcreated
      cases hcreated
  | some called =>
      obtain ⟨c, g⟩ := called
      rw [object_created hcall hcreated]
      exact h.unplaced c g hcall id' p hp

/-! ### What an object was published with -/

/-- The placement is the only one of its object, and holds the content. -/
structure Delivers (f : Fabric β) (p : PlacementRecord) (content : Bytes) : Prop where
  placed : f.placements.lookup p.id = some p
  available : isAvailable p = true
  only : ∀ id q, f.placements.lookup id = some q → q.object = p.object → q = p
  serves : ∃ man parts, Serves Present f p man parts ∧ parts.flatten = content

theorem Delivers.exec {S : Set Bytes} {f : Fabric β} {p : PlacementRecord} {content : Bytes}
    (h : Delivers f p content) {op : Op β} (hop : Appends S f op) :
    Delivers (f.exec op) p content where
  placed := hop.keeps h.placed
  available := h.available
  only id q hq hobject := by
    cases hold : f.placements.lookup id with
    | none => exact absurd hobject.symm (hop.adds hq hold h.placed)
    | some r =>
        obtain rfl : r = q := Option.some.inj ((hop.keeps hold).symm.trans hq)
        exact h.only id r hold hobject
  serves := by
    obtain ⟨man, parts, hserves, hcontent⟩ := h.serves
    have hmanifest : p.manifest ∈ f.manifests := AList.mem_iff_lookup.mpr ⟨man, hserves.manifest⟩
    refine ⟨man, parts, hserves.mono rfl rfl (manifests_exec f op hmanifest) (later_exec f op) ?_,
      hcontent⟩
    intro c _ slice hdrawn hpresent
    rcases exec_grows f op with hgrows | ⟨id, -, hevict, -⟩
    · rwa [hgrows.stored _ hserves.backend _ hdrawn]
    · exact absurd hevict (hop.evicts id)

theorem delivers_publishCall {S : Set Bytes} (hinj : Set.InjOn ContentDigest.of S) {f : Fabric β}
    (hf : Stocked S f) {c : Call} (hslices : ∀ slice ∈ c.slices, slice ∈ S)
    (heager : c.opts.eagerVerify = true)
    (hunplaced : ∀ id p, f.placements.lookup id = some p → p.object ≠ c.obj.id)
    {p : PlacementRecord} (hok : (f.publishCall c).1 = .ok p) :
    p.object = c.obj.id ∧ p.backend = c.backend ∧ Delivers (f.publishCall c).2 p c.content := by
  have hout := publishCall_outcome f c
  generalize (f.publishCall c).1 = r at hout hok
  generalize (f.publishCall c).2 = f' at hout
  cases hout with
  | refused => cases hok
  | aborted => cases hok
  | published res ledger start chunks desc t g f' hstart hpub =>
      cases hok
      have hplacements := congrArg CatalogView.placements hpub.catalog
      have hsize : c.content.length = c.obj.logicalSize.toNat := size_of_accepts hstart.accepted
      have hserves := serves_published hf.indexed hstart hpub
        (present_of_verified hinj hf.pool hslices heager hstart hpub)
      refine ⟨rfl, rfl, ?_, rfl, ?_, _, _, hserves, Call.flatten_slices hsize⟩
      · rw [show f'.placements = _ from hplacements]
        exact AList.lookup_insert _
      · intro id q hq hobject
        rw [show f'.placements = _ from hplacements] at hq
        rcases AList.lookup_insert_eq_some.mp hq with ⟨-, hnew⟩ | ⟨-, hold⟩
        · exact hnew
        · exact absurd hobject (hunplaced id q hold)

theorem Delivers.find {f : Fabric β} {p : PlacementRecord} {content : Bytes}
    (h : Delivers f p content) : f.findAuthoritativePlacement p.object = .ok p := by
  have hfound : f.placements.values.find? (fun q => q.object = p.object && isAvailable q) =
      some p := by
    cases hfind : f.placements.values.find? (fun q => q.object = p.object && isAvailable q) with
    | none =>
        have hnone := List.find?_eq_none.mp hfind p (AList.mem_values_of_lookup h.placed)
        simp [h.available] at hnone
    | some q =>
        obtain ⟨id, hid⟩ := AList.mem_values.mp (List.mem_of_find?_eq_some hfind)
        have hq := List.find?_some hfind
        simp only [Bool.and_eq_true, decide_eq_true_eq] at hq
        rw [h.only id q hid hq.1]
  rw [findAuthoritativePlacement, hfound]

theorem Delivers.read {f : Fabric β} {p : PlacementRecord} {content : Bytes}
    (h : Delivers f p content)
    (hreadable : ∀ be, f.backends.lookup p.backend = some be → KeyValueBackend.Readable be) :
    (f.read p.object none).1 = .ok content := by
  obtain ⟨man, parts, hserves, rfl⟩ := h.serves
  refine hserves.read ?_ hreadable
  simp only [lookupForRead, h.find, hserves.manifest]

/-! ### Runs -/

/-- The state of a run that only adds objects. -/
structure Sound (S : Set Bytes) (f : Fabric β) : Prop where
  identified : f.catalogView.Identified
  stocked : Stocked S f

theorem Sound.exec {S : Set Bytes} {f : Fabric β} (h : Sound S f) {op : Op β}
    (hop : Involves S f op) : Sound S (f.exec op) :=
  ⟨identified_exec h.identified op, h.stocked.exec hop⟩

theorem Sound.run {S : Set Bytes} {f : Fabric β} (h : Sound S f) {ops : List (Op β)}
    (hops : Runs.Along Fabric.exec (Appends S) f ops) : Sound S (Runs.run Fabric.exec f ops) :=
  Runs.invariant (I := Sound S) (fun _ _ h hop => h.exec hop.involves) h hops

theorem Delivers.run {S : Set Bytes} {f : Fabric β} {p : PlacementRecord} {content : Bytes}
    (h : Delivers f p content) {ops : List (Op β)} (hops : Runs.Along Fabric.exec (Appends S) f ops) :
    Delivers (Runs.run Fabric.exec f ops) p content :=
  Runs.invariant (I := fun f => Delivers f p content) (fun _ _ h hop => h.exec hop) h hops

end Fabric

end StorageFabric
