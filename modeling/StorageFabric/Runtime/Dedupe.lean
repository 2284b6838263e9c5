import StorageFabric.Runtime.Numbering
import StorageFabric.Runtime.Reads

/-!
Publication with and without deduplication.

Whatever the chunk loop does about the blobs, it makes the same chunks for the
same content, so the two paths differ in the blobs that the chunks refer to and
in nothing else. On a backend without faults the deduplicated path then
succeeds whenever the plain one does, except that it trusts the dedup index: it
takes the blob that the index offers, wherever the bytes of that blob are and
whatever its number is. None of this asks where the state comes from.
-/

namespace StorageFabric

open StorageBackend

def Call.withDedupe (c : Call) (dedupe : Bool) : Call :=
  { c with opts := { c.opts with dedupe } }

namespace Fabric

variable {β : Type}

/-! ### A backend without faults -/

/-- The backend takes the slices `parts`, as many as make up their total length
and under whichever blob keys, and then and before does not fail to read what it
holds. -/
def FaultFree [KeyValueBackend β] (parts : List Bytes) (be : β) : Prop :=
  ∃ G : Nat → β → Prop, G parts.flatten.length be ∧ ∀ n be, G n be →
    KeyValueBackend.Readable be ∧
    ∀ slice ∈ parts, slice.length ≤ n → ∀ b : BlobId,
      (∃ m, (put be slice (blobKey b)).1 = .ok m) ∧
        G (n - slice.length) (put be slice (blobKey b)).2

section Contents

variable [KeyValueBackend β]

theorem chunkLoop_faultFree {G : Nat → β → Prop} {parts : List Bytes}
    (hG : ∀ n be, G n be → ∀ slice ∈ parts, slice.length ≤ n → ∀ b : BlobId,
      (∃ m, (put be slice (blobKey b)).1 = .ok m) ∧
        G (n - slice.length) (put be slice (blobKey b)).2)
    {backend : StorageBackendId} (dedupe : Bool) (chunk turns offset : Nat) (rest : Bytes)
    {f : Fabric β} {be : β} {n : Nat} (hparts : ∀ slice ∈ slices chunk turns rest, slice ∈ parts)
    (hbe : f.backends.lookup backend = some be) (hn : rest.length ≤ n) (h : G n be) :
    ∃ cs g be' m, chunkLoop backend dedupe chunk turns offset rest f = (.ok cs, g) ∧
      g.backends.lookup backend = some be' ∧ G m be' := by
  induction turns generalizing offset rest f be n with
  | zero => exact ⟨[], f, be, n, rfl, hbe, h⟩
  | succ turns ih =>
      by_cases hrest : rest = []
      · subst hrest
        exact ⟨[], f, be, n, chunkLoop_nil _ _ _ _ _ _, hbe, h⟩
      rw [slices_cons hrest] at hparts
      have hslice := hparts _ List.mem_cons_self
      have htail : ∀ slice ∈ slices chunk turns (rest.drop chunk), slice ∈ parts :=
        fun slice hs => hparts slice (List.mem_cons_of_mem _ hs)
      have hlength : (rest.take chunk).length + (rest.drop chunk).length = rest.length := by
        rw [← List.length_append, List.take_append_drop]
      -- a turn ends well, and leaves room for the rest
      have hturn : ∃ c g be' m, chunkStep backend dedupe offset (rest.take chunk) f = (.ok c, g) ∧
          g.backends.lookup backend = some be' ∧ (rest.drop chunk).length ≤ m ∧ G m be' := by
        obtain ⟨b, -, -, heq⟩ | ⟨s, hput, -⟩ | ⟨m, hput, heq⟩ :=
          chunkStep_cases backend dedupe offset (rest.take chunk) f
        · exact ⟨_, _, be, n, heq, hbe, by omega, h⟩
        · obtain ⟨⟨m, hm⟩, -⟩ := hG n be h _ hslice (by omega) ⟨f.blobCounter⟩
          have hbe' : f.allocBlobId.2.backends.lookup backend = some be := hbe
          rw [putOn, hbe'] at hput
          rw [hm] at hput
          cases hput
        · obtain ⟨-, hnext⟩ := hG n be h _ hslice (by omega) ⟨f.blobCounter⟩
          refine ⟨_, _, _, n - (rest.take chunk).length, heq, ?_, by omega, hnext⟩
          have hbe' : f.allocBlobId.2.backends.lookup backend = some be := hbe
          show (f.allocBlobId.2.putOn backend _ _).2.backends.lookup backend = _
          rw [putOn, hbe']
          exact (AList.lookup_modify_self _ _ _).trans (by rw [hbe']; rfl)
      obtain ⟨c, g, be', m, hstep, hbe', hm, hnext⟩ := hturn
      obtain ⟨cs, g', be'', m', hloop, hbe'', hend⟩ :=
        ih (offset + (rest.take chunk).length) (rest.drop chunk) htail hbe' hm hnext
      refine ⟨c :: cs, g', be'', m', ?_, hbe'', hend⟩
      rw [chunkLoop_ok hrest hstep, hloop]
      rfl

theorem present_of_readChunks {be : β} {chunks : List ChunkDescriptor} {parts : List Bytes}
    (hlengths : List.Forall₂ (fun c slice => c.physicalLength.toNat = slice.length) chunks parts)
    (h : readChunks (chunks.map fun c => (be, c)) = .ok parts.flatten) :
    List.Forall₂ (fun c slice => Present (KeyValueBackend.view be (blobKey c.blob)) slice) chunks
      parts := by
  induction hlengths with
  | nil => exact .nil
  | @cons c slice chunks parts hlength hlengths ih =>
      rw [List.map_cons, readChunks] at h
      cases hread : StorageBackend.read be (blobKey c.blob) with
      | error s => simp [hread, Result.fail] at h
      | ok chunk =>
          by_cases hsize : chunk.length = c.physicalLength.toNat
          · cases hrest : readChunks (chunks.map fun c => (be, c)) with
            | error s => simp [hread, hsize, hrest] at h
            | ok tail =>
                have hout : chunk ++ tail = slice ++ parts.flatten := by
                  simpa [hread, hsize, hrest] using h
                obtain ⟨hchunk, htail⟩ := List.append_inj hout (hsize.trans hlength)
                subst hchunk
                exact .cons (KeyValueBackend.read_ok hread) (ih (htail ▸ hrest))
          · simp [hread, hsize, Result.fail] at h

/-- The eager verification finds the slices that are there. -/
theorem verifyChunks_of_present {f : Fabric β} {backend : StorageBackendId} {be : β}
    (hbe : f.backends.lookup backend = some be) (hreadable : KeyValueBackend.Readable be)
    {chunks : List ChunkDescriptor} {parts : List Bytes}
    (hdescribes : List.Forall₂ Describes chunks parts)
    (hpresent : List.Forall₂ (fun c slice =>
      Present (KeyValueBackend.view be (blobKey c.blob)) slice) chunks parts) :
    f.verifyChunks backend chunks = .ok () := by
  refine (verifyChunks_ok_iff hbe).mpr fun c hc => ?_
  obtain ⟨slice, -, hdesc, hthere⟩ := forall₂_exists_right (forall₂_and hdescribes hpresent) c hc
  exact ⟨slice, hreadable _ _ hthere, hdesc.1.symm⟩

/-! ### The chunk loop of a publication -/

theorem Started.faultFree {f start g : Fabric β} {c : Call} {res : Reservation}
    {ledger : ReservationLedger} {rc : Result (List ChunkDescriptor)} {be : β}
    (hstart : Started f c res ledger start rc g) (hbe : f.backends.lookup c.backend = some be)
    (hfault : FaultFree c.slices be) :
    ∃ chunks be', rc = .ok chunks ∧ g.backends.lookup c.backend = some be' ∧
      KeyValueBackend.Readable be' := by
  obtain ⟨G, hroom, hG⟩ := hfault
  have hsize : c.content.length = c.obj.logicalSize.toNat := size_of_accepts hstart.accepted
  rw [Call.flatten_slices hsize] at hroom
  have hbe' : start.backends.lookup c.backend = some be := by
    rw [show start.backends = f.backends from congrArg BlobView.backends hstart.blobs]
    exact hbe
  obtain ⟨cs, g', be', m, hloop, hend, hm⟩ :=
    chunkLoop_faultFree (fun n be h => (hG n be h).2) c.opts.dedupe (chunkLength c.obj c.opts)
      c.content.length 0 c.content (fun _ hs => hs) hbe' (Nat.le_refl _) hroom
  rw [hstart.loop] at hloop
  obtain ⟨rfl, rfl⟩ := Prod.mk.inj hloop
  exact ⟨cs, be', rfl, hend, (hG m be' hm).1⟩

theorem Started.ends {f start g : Fabric β} {c : Call} {res : Reservation}
    {ledger : ReservationLedger} {rc : Result (List ChunkDescriptor)} {be : β}
    (hstart : Started f c res ledger start rc g) (hbe : f.backends.lookup c.backend = some be) :
    Ends c.backend (f.chunksOf c) rc g (putAll be (f.storesFor c)) := by
  obtain ⟨hbackends, hindex, -, -, -, hcounter⟩ := BlobView.mk.inj hstart.blobs
  have hbe' : start.backends.lookup c.backend = some be := by
    rw [show start.backends = f.backends from hbackends]
    exact hbe
  have hends := chunkLoop_ends c.backend c.opts.dedupe (chunkLength c.obj c.opts)
    c.content.length 0 c.content start hbe'
  rw [hstart.loop, show start.blobByDigest = f.blobByDigest from hindex,
    show start.blobCounter = f.blobCounter from hcounter] at hends
  exact hends

theorem Started.took {f start g : Fabric β} {c : Call} {res : Reservation}
    {ledger : ReservationLedger} {chunks : List ChunkDescriptor} {be : β}
    (hstart : Started f c res ledger start (.ok chunks) g)
    (hbe : f.backends.lookup c.backend = some be) :
    chunks = f.chunksOf c ∧ ∃ be', putAll be (f.storesFor c) = some be' ∧
      g.backends.lookup c.backend = some be' := by
  have hends := hstart.ends hbe
  cases htook : putAll be (f.storesFor c) with
  | none =>
      rw [htook] at hends
      obtain ⟨s, hs⟩ := hends
      cases hs
  | some be' =>
      rw [htook] at hends
      exact ⟨Except.ok.inj hends.1, be', rfl, hends.2⟩

/-- No blob that the index offers for a slice is one of those that the slices get new. -/
def Apart (f : Fabric β) (c : Call) : Prop :=
  ∀ slice ∈ c.slices, ∀ b, offer c.opts.dedupe f.blobByDigest slice = some b →
    b ∉ (f.storesFor c).map (·.1)

/-- The chunks of a publication hold their slices, if it does without the index or
the index offers what holds them. -/
theorem Started.present {f start g : Fabric β} {c : Call} {res : Reservation}
    {ledger : ReservationLedger} {chunks : List ChunkDescriptor} {be be' : β}
    (hstart : Started f c res ledger start (.ok chunks) g)
    (hbe : f.backends.lookup c.backend = some be)
    (hbe' : g.backends.lookup c.backend = some be')
    (hinj : c.opts.dedupe = true → Set.InjOn ContentDigest.of {slice | slice ∈ c.slices})
    (hoffers : c.opts.dedupe = true → Offers Present (· ∈ c.slices) c.backend f)
    (hapart : Apart f c) :
    List.Forall₂ (fun ch slice => Present (KeyValueBackend.view be' (blobKey ch.blob)) slice)
      chunks c.slices := by
  obtain ⟨rfl, be₁, htook, hbe₁⟩ := hstart.took hbe
  obtain rfl : be₁ = be' := Option.some.inj (hbe₁.symm.trans hbe')
  obtain ⟨hnew, hold⟩ := view_putAll (newBlobs_nodup ..) htook
  refine forall₂_imp_of_mem (chunksFor_sourced ..) fun ch _ slice hslice hsource => ?_
  obtain hoffer | ⟨-, s, hs, hdigest, hplain⟩ := hsource
  · rw [Present, hold _ (hapart slice hslice _ hoffer)]
    unfold offer at hoffer
    split at hoffer
    · next hdedupe =>
        have hthere := hoffers hdedupe slice hslice _ hoffer
        rw [stored, hbe] at hthere
        exact hthere
    · cases hoffer
  · rw [Present, hnew _ hs]
    cases hdedupe : c.opts.dedupe with
    | false => rw [hplain hdedupe]
    | true => rw [hinj hdedupe (newBlobs_missed _ hs).1 hslice hdigest]

theorem Published.reads {f start g f' : Fabric β} {c : Call} {res : Reservation}
    {ledger : ReservationLedger} {chunks : List ChunkDescriptor} {desc : BackendDescriptor}
    {t : StorageTier} {be : β} (hstart : Started f c res ledger start (.ok chunks) g)
    (hpub : Published f c res ledger chunks desc t g f')
    (hbe : g.backends.lookup c.backend = some be) (hreadable : KeyValueBackend.Readable be)
    (hpresent : List.Forall₂ (fun ch slice =>
      Present (KeyValueBackend.view be (blobKey ch.blob)) slice) chunks c.slices)
    (object : ObjectId) :
    (f'.read object (some (f.placementOf c desc t).id)).1 = .ok c.content := by
  have hsize : c.content.length = c.obj.logicalSize.toNat := size_of_accepts hstart.accepted
  have hp : f'.placements.lookup (f.placementOf c desc t).id = some (f.placementOf c desc t) := by
    rw [show f'.placements = _ from congrArg CatalogView.placements hpub.catalog]
    exact AList.lookup_insert _
  have hman : f'.manifests.lookup (f.placementOf c desc t).manifest =
      some (f.manifestOf c chunks) := by
    rw [show f'.manifests = _ from congrArg ManifestView.manifests hpub.manifests]
    exact AList.lookup_insert _
  have hbe' : f'.backends.lookup (f.placementOf c desc t).backend = some be := by
    rw [show f'.backends = g.backends from congrArg BlobView.backends hpub.blobs]
    exact hbe
  rw [← Call.flatten_slices hsize]
  refine read_of_present hbe' hreadable ?_ ?_ ?_ (lookupForRead_eq hp hman object)
  · rw [Call.flatten_slices hsize, hsize]
    rfl
  · rw [chunks_manifestOf hstart]
    exact hstart.lengths
  · rw [chunks_manifestOf hstart]
    exact hpresent

theorem Published.placeable {f g f' : Fabric β} {c : Call} {res : Reservation}
    {ledger : ReservationLedger} {chunks : List ChunkDescriptor} {desc : BackendDescriptor}
    {t : StorageTier} (h : Published f c res ledger chunks desc t g f') :
    ¬Unplaceable f.catalogView res ledger c.obj c.backend := by
  rintro (hnone | ⟨d, hd, hnone⟩ | hdup | hfail | hunknown)
  · cases hnone.symm.trans h.descriptor
  · obtain rfl := Option.some.inj (h.descriptor.symm.trans hd)
    cases hnone.symm.trans h.tier
  · exact h.freshPlacement hdup
  · cases hfail.symm.trans h.committed
  · exact hunknown h.known

/-! ### The two paths -/

/-- The deduplicated path succeeds, and what it publishes reads as the content. -/
def DedupeReads (f : Fabric β) (c : Call) : Prop :=
  ∃ p, (f.publishCall (c.withDedupe true)).1 = .ok p ∧
    ((f.publishCall (c.withDedupe true)).2.read c.obj.id (some p.id)).1 = .ok c.content

/-- The index can be trusted for a publication: the blobs that it offers hold the slices
on the target backend, none of them is nil or yet to be drawn, no two slices have one
digest, and the manifest of the chunks has a digest. -/
structure IndexServes (f : Fabric β) (c : Call) : Prop where
  offers : Offers Present (· ∈ c.slices) c.backend f
  named : ∀ slice ∈ c.slices, ∀ b,
    f.blobByDigest.lookup (ContentDigest.of slice) = some b → b.isNil = false
  apart : Apart f (c.withDedupe true)
  distinct : Set.InjOn ContentDigest.of {slice | slice ∈ c.slices}
  digest : (f.manifestOf c (f.chunksOf (c.withDedupe true))).manifestDigest.isZero = false

/-- If the deduplicated path publishes what reads as the content, the index could
be trusted. -/
theorem indexServes_of_reads {f : Fabric β} {c : Call} (h : DedupeReads f c) :
    IndexServes f c := by
  obtain ⟨p, hok, hread⟩ := h
  have hout := publishCall_outcome f (c.withDedupe true)
  rw [hok] at hout
  generalize (f.publishCall (c.withDedupe true)).2 = f' at hout hread
  cases hout with
  | published res ledger start chunks desc t g f' hstart hpub =>
      have hsize : c.content.length = c.obj.logicalSize.toNat := size_of_accepts hstart.accepted
      obtain ⟨be, hbe⟩ : ∃ be, f.backends.lookup c.backend = some be :=
        AList.mem_iff_lookup.mp (backend_of_accepts hstart.accepted)
      -- what the loop has stored
      obtain ⟨rfl, be', htook, hbe'⟩ := hstart.took hbe
      obtain ⟨hnew, hold⟩ := view_putAll (newBlobs_nodup ..) htook
      -- what the read has found
      obtain ⟨q, man, be₁, out, hlookup, hbe₁, hread, hlength⟩ := read_ok hread
      obtain ⟨hq, hman⟩ := lookupForRead_some hlookup
      have hplacements : f'.placements.lookup (f.placementOf (c.withDedupe true) desc t).id =
          some (f.placementOf (c.withDedupe true) desc t) := by
        rw [show f'.placements = _ from congrArg CatalogView.placements hpub.catalog]
        exact AList.lookup_insert _
      rw [hplacements] at hq
      obtain rfl := Option.some.inj hq
      have hmanifest : f'.manifests.lookup ⟨f.manifestCounter⟩ =
          some (f.manifestOf (c.withDedupe true) (f.chunksOf (c.withDedupe true))) := by
        rw [show f'.manifests = _ from congrArg ManifestView.manifests hpub.manifests]
        exact AList.lookup_insert _
      obtain rfl := Option.some.inj (hmanifest.symm.trans hman)
      rw [show f'.backends = g.backends from congrArg BlobView.backends hpub.blobs] at hbe₁
      obtain rfl : be' = be₁ := Option.some.inj (hbe'.symm.trans hbe₁)
      have hout : out = c.slices.flatten := by
        rw [Call.flatten_slices hsize]
        unfold checkLength at hlength
        split at hlength
        · cases hlength
        · exact Except.ok.inj hlength
      rw [chunks_manifestOf hstart, hout] at hread
      have hpresent := present_of_readChunks hstart.lengths hread
      -- so every slice is in the blob of its chunk, wherever that comes from
      have hboth := forall₂_exists_left (forall₂_and
        (chunksFor_sourced true f.blobByDigest f.blobCounter 0 c.slices) hpresent)
      have hoffered : ∀ slice ∈ c.slices, ∀ b, offer true f.blobByDigest slice = some b →
          KeyValueBackend.view be' (blobKey b) = some slice := by
        intro slice hslice b hb
        obtain ⟨ch, -, hoffer | ⟨hmiss, -⟩, hthere⟩ := hboth slice hslice
        · rwa [Option.some.inj (hb.symm.trans hoffer)]
        · cases hmiss.symm.trans hb
      have hapart : Apart f (c.withDedupe true) := by
        intro slice hslice b hb hdrawn
        obtain ⟨e, he, rfl⟩ := List.mem_map.mp hdrawn
        have hsame := Option.some.inj ((hnew e he).symm.trans (hoffered slice hslice _ hb))
        have hmiss := (newBlobs_missed e he).2
        rw [hsame] at hmiss
        cases hmiss.symm.trans hb
      obtain ⟨-, -, hdigest, -, hnamed⟩ := (validate_manifestOf_iff
        (c := c.withDedupe true) (chunksFor_shapes ..) hsize
        (pos_of_accepts hstart.accepted)).2.mp hpub.valid
      refine ⟨fun slice hslice b hb => ?_, fun slice hslice b hb => ?_, hapart,
        fun s hs s' hs' heq => ?_, hdigest⟩
      · have hthere := hoffered slice hslice b hb
        rw [hold b (hapart slice hslice b hb)] at hthere
        rw [Present, stored, hbe]
        exact hthere
      · exact ((namesBlobs_iff 0).mpr hnamed).offered slice hslice b hb
      · obtain ⟨ch, -, hsource, hthere⟩ := hboth s hs
        obtain ⟨ch', -, hsource', hthere'⟩ := hboth s' hs'
        have hblob : ch.blob = ch'.blob := by
          have hoffer : offer true f.blobByDigest s = offer true f.blobByDigest s' := by
            rw [offer, offer, heq]
          obtain hs | ⟨hmiss, x, hx, hdx, -⟩ := hsource
          · obtain hs' | ⟨hmiss', -⟩ := hsource'
            · exact Option.some.inj (hs.symm.trans (hoffer.trans hs'))
            · cases hs.symm.trans (hoffer.trans hmiss')
          · obtain hs' | ⟨-, x', hx', hdx', -⟩ := hsource'
            · cases hmiss.symm.trans (hoffer.trans hs')
            · have hentry := List.inj_on_of_nodup_map (newBlobs_digests ..) hx hx'
                (hdx.trans (heq.trans hdx'.symm))
              exact congrArg Prod.fst hentry
        rw [← hblob] at hthere'
        exact Option.some.inj (hthere.symm.trans hthere')

/-- If the index can be trusted, what the plain path publishes the deduplicated
one publishes too. -/
theorem reads_of_indexServes {f : Fabric β} {c : Call} {be : β}
    (hbe : f.backends.lookup c.backend = some be) (hfault : FaultFree c.slices be)
    {p : PlacementRecord} (hplain : (f.publishCall (c.withDedupe false)).1 = .ok p)
    (h : IndexServes f c) : DedupeReads f c := by
  have hout := publishCall_outcome f (c.withDedupe false)
  rw [hplain] at hout
  generalize (f.publishCall (c.withDedupe false)).2 = f₁ at hout
  cases hout with
  | published res ledger start chunks desc t g f₁ hstart hpub =>
      -- the chunk loop of the deduplicated path, wherever it ends
      have hloop : ∀ {res' : Reservation} {ledger' : ReservationLedger} {start' g' : Fabric β}
          {rc' : Result (List ChunkDescriptor)},
          Started f (c.withDedupe true) res' ledger' start' rc' g' →
          ∃ be', rc' = .ok (f.chunksOf (c.withDedupe true)) ∧
            g'.backends.lookup c.backend = some be' ∧ KeyValueBackend.Readable be' ∧
            List.Forall₂ (fun ch slice =>
              Present (KeyValueBackend.view be' (blobKey ch.blob)) slice)
              (f.chunksOf (c.withDedupe true)) c.slices := by
        intro res' ledger' start' g' rc' hstart'
        obtain ⟨chunks', be', rfl, hbe', hreadable⟩ := hstart'.faultFree hbe hfault
        obtain ⟨rfl, -⟩ := hstart'.took hbe
        exact ⟨be', rfl, hbe', hreadable, hstart'.present hbe hbe' (fun _ => h.distinct)
          (fun _ => h.offers) h.apart⟩
      have hout' := publishCall_outcome f (c.withDedupe true)
      unfold DedupeReads
      generalize (f.publishCall (c.withDedupe true)).1 = r at hout' ⊢
      generalize (f.publishCall (c.withDedupe true)).2 = f' at hout' ⊢
      cases hout' with
      | refused s ledger' stale hrefuse => exact absurd hrefuse hstart.accepted
      | aborted s res' ledger' start' rc' g' f' hstart' habort =>
          obtain ⟨be', rfl, hbe', hreadable, hpresent⟩ := hloop hstart'
          obtain ⟨rfl, rfl⟩ : res = res' ∧ ledger = ledger' := by
            have hsame := hstart.reserve.symm.trans hstart'.reserve
            obtain ⟨hres, hledger⟩ := Prod.mk.inj hsame
            exact ⟨Except.ok.inj hres, hledger⟩
          obtain ⟨-, s', hs'⟩ | ⟨s', hs'⟩ | hdup | hunplaceable := habort.stops
          · have hverified := verifyChunks_of_present hbe' hreadable
              (describes_chunkLoop hstart'.loop) hpresent
            cases hverified.symm.trans hs'
          · have hsize : c.content.length = c.obj.logicalSize.toNat :=
              size_of_accepts hstart.accepted
            have hpos : 0 < c.obj.logicalSize := pos_of_accepts hstart.accepted
            obtain ⟨rfl, -⟩ := hstart.took hbe
            obtain ⟨hmanifest, hobject, -, hdigests, hblobs⟩ := (validate_manifestOf_iff
              (c := c.withDedupe false) (chunksFor_shapes ..) hsize hpos).2.mp hpub.valid
            have hnamed : NamesBlobs true f.blobByDigest f.blobCounter c.slices :=
              ⟨h.named, drawn_of_plain ((namesBlobs_iff 0).mpr hblobs).drawn⟩
            have hvalid := (validate_manifestOf_iff (c := c.withDedupe true)
              (chunksFor_shapes ..) hsize hpos).2.mpr
                ⟨hmanifest, hobject, h.digest, hdigests, (namesBlobs_iff 0).mp hnamed⟩
            cases hvalid.symm.trans hs'
          · exact absurd hdup hpub.freshManifest
          · exact absurd hunplaceable hpub.placeable
      | published res' ledger' start' chunks' desc' t' g' f' hstart' hpub' =>
          obtain ⟨be', hrc, hbe', hreadable, hpresent⟩ := hloop hstart'
          obtain rfl := Except.ok.inj hrc
          exact ⟨_, rfl, hpub'.reads hstart' hbe' hreadable hpresent c.obj.id⟩

/-- In every state: where the plain path publishes an object on a backend without faults,
its placement reads as the content, and the deduplicated path does as well exactly if the
index can be trusted. -/
theorem dedupe_agrees_iff (f : Fabric β) (c : Call) {be : β}
    (hbe : f.backends.lookup c.backend = some be) (hfault : FaultFree c.slices be)
    {p : PlacementRecord} (hplain : (f.publishCall (c.withDedupe false)).1 = .ok p) :
    ((f.publishCall (c.withDedupe false)).2.read c.obj.id (some p.id)).1 = .ok c.content ∧
      (DedupeReads f c ↔ IndexServes f c) := by
  refine ⟨?_, indexServes_of_reads, reads_of_indexServes hbe hfault hplain⟩
  have hout := publishCall_outcome f (c.withDedupe false)
  rw [hplain] at hout
  generalize (f.publishCall (c.withDedupe false)).2 = f' at hout ⊢
  cases hout with
  | published res ledger start chunks desc t g f' hstart hpub =>
      obtain ⟨_, be', hrc, hbe', hreadable⟩ := hstart.faultFree hbe hfault
      obtain rfl := Except.ok.inj hrc
      have hpresent := hstart.present hbe hbe' (fun hdedupe => by cases hdedupe)
        (fun hdedupe => by cases hdedupe) fun slice _ b hb => by cases hb
      exact hpub.reads hstart hbe' hreadable hpresent c.obj.id

end Contents

/-! ### Small runs -/

/-- An in-memory backend in service that has room for the slice, whatever the slice
replaces. -/
structure HasRoom (slice : Bytes) (be : SyntheticBackend) : Prop where
  available : be.profile.unavailable = false
  sound : be.profile.degraded = false
  room : ∀ size ∈ 0 :: be.store.values.map fun (v : Bytes) => UInt64.ofNat v.length,
    be.usedBytes + (UInt64.ofNat slice.length - size) ≤ be.profile.totalBytes

-- the words are finitely many, so the quantifier alone would be decided over all of them
instance (slice : Bytes) (be : SyntheticBackend) : Decidable (HasRoom slice be) :=
  decidable_of_iff
    (be.profile.unavailable = false ∧ be.profile.degraded = false ∧
      ((0 :: be.store.values.map fun (v : Bytes) => UInt64.ofNat v.length).all fun size =>
        be.usedBytes + (UInt64.ofNat slice.length - size) ≤ be.profile.totalBytes) = true)
    ⟨fun h => ⟨h.1, h.2.1, fun size hsize => of_decide_eq_true (List.all_eq_true.mp h.2.2 size hsize)⟩,
      fun h => ⟨h.available, h.sound,
        List.all_eq_true.mpr fun size hsize => decide_eq_true (h.room size hsize)⟩⟩

theorem HasRoom.put {slice : Bytes} {be : SyntheticBackend} (h : HasRoom slice be) (key : Bytes) :
    be.put slice key = (.ok (UInt64.ofNat slice.length),
      { be with
        store := be.store.insert key slice
        usedBytes := be.usedBytes + (UInt64.ofNat slice.length - be.storedSize key) }) := by
  have hsize : be.storedSize key ∈
      0 :: be.store.values.map fun (v : Bytes) => UInt64.ofNat v.length := by
    rw [SyntheticBackend.storedSize]
    cases hv : be.store.lookup key with
    | none => exact List.mem_cons_self
    | some v => exact List.mem_cons_of_mem _ (List.mem_map_of_mem (AList.mem_values_of_lookup hv))
  have hfits := UInt64.not_lt.mpr (h.room _ hsize)
  simp [SyntheticBackend.put, SyntheticBackend.ensureAvailable, h.available, h.sound, hfits]

theorem faultFree_single {slice : Bytes} (hslice : slice ≠ []) {be : SyntheticBackend}
    (h : HasRoom slice be) : FaultFree [slice] be := by
  -- there is room once, and that is enough
  refine ⟨fun n be' => be'.profile.unavailable = false ∧ n ≤ slice.length ∧ (n ≠ 0 → be' = be),
    ⟨h.available, by simp, fun _ => rfl⟩, ?_⟩
  rintro n be' ⟨hbe', hn, hfirst⟩
  refine ⟨SyntheticBackend.readable_of_available hbe', ?_⟩
  intro s hs hle b
  obtain rfl := List.mem_singleton.mp hs
  have hpos : 0 < s.length := List.length_pos_iff.mpr hslice
  obtain rfl := hfirst (by omega)
  rw [show put be' s (blobKey b) = be'.put s (blobKey b) from rfl, h.put]
  exact ⟨⟨_, rfl⟩, hbe', by omega, fun hne => absurd hne (by omega)⟩

def smallCall (backend : StorageBackendId) : Call :=
  { obj := Small.object, content := [7], backend, opts := {} }

theorem faultFree_small {backend : StorageBackendId} {f : Fabric SyntheticBackend}
    (h : (f.backends.lookup backend).any fun be => decide (HasRoom [7] be)) :
    ∃ be, f.backends.lookup backend = some be ∧ FaultFree (smallCall backend).slices be := by
  obtain ⟨be, hbe, hroom⟩ := (Option.any_eq_true _ _).mp h
  refine ⟨be, hbe, ?_⟩
  show FaultFree [[7]] be
  exact faultFree_single (by decide) (of_decide_eq_true hroom)

def publishedOps : List (Op SyntheticBackend) := Small.opening ++ [Small.publication]

/-- Published once more on the same backend, the index offers the blob that is
there. -/
theorem dedupe_agrees_small :
    DedupeReads (Runs.run exec {} publishedOps) (smallCall ⟨1⟩) := by
  let f := Runs.run exec {} publishedOps
  have hrun : ((f.backends.lookup ⟨1⟩).any fun be => decide (HasRoom [7] be)) = true ∧
      (f.publishCall ((smallCall ⟨1⟩).withDedupe false)).1.isOk = true ∧
      f.blobByDigest.lookup (ContentDigest.of [7]) = some ⟨1⟩ ∧
      f.stored ⟨1⟩ (blobKey ⟨1⟩) = some [7] ∧
      f.storesFor ((smallCall ⟨1⟩).withDedupe true) = [] ∧
      (f.manifestOf (smallCall ⟨1⟩)
        (f.chunksOf ((smallCall ⟨1⟩).withDedupe true))).manifestDigest.isZero = false := by
    decide +kernel
  obtain ⟨hroom, hplain, hindex, hstored, hnone, hdigest⟩ := hrun
  obtain ⟨be, hbe, hfault⟩ := faultFree_small hroom
  cases hp : (f.publishCall ((smallCall ⟨1⟩).withDedupe false)).1 with
  | error s =>
      rw [hp] at hplain
      cases hplain
  | ok p =>
      refine (dedupe_agrees_iff f (smallCall ⟨1⟩) hbe hfault hp).2.mpr ⟨?_, ?_, ?_, ?_, hdigest⟩
      · intro slice hslice b hb
        obtain rfl := List.mem_singleton.mp hslice
        obtain rfl := Option.some.inj (hindex.symm.trans hb)
        exact hstored
      · intro slice hslice b hb
        obtain rfl := List.mem_singleton.mp hslice
        obtain rfl := Option.some.inj (hindex.symm.trans hb)
        rfl
      · intro slice _ b _
        rw [hnone]
        exact List.not_mem_nil
      · intro s hs s' hs' _
        exact (List.mem_singleton.mp hs).trans (List.mem_singleton.mp hs').symm

/-- The small object published on the first of two backends. -/
def elsewhereOps : List (Op SyntheticBackend) :=
  Small.opening ++ [.registerSyntheticBackend (ascii "other") {} {}, Small.verified]

/-- On the second backend the plain path publishes the object and the
deduplicated one fails: the blob that the index offers is on the first. -/
theorem dedupe_disagrees :
    let f := Runs.run exec {} elsewhereOps
    let c := smallCall ⟨2⟩
    (∃ be, f.backends.lookup c.backend = some be ∧ FaultFree c.slices be) ∧
      (f.publishCall (c.withDedupe false)).1.isOk = true ∧
      (f.publishCall (c.withDedupe true)).1.isOk = false := by
  intro f c
  have hrun : ((f.backends.lookup ⟨2⟩).any fun be => decide (HasRoom [7] be)) = true ∧
      (f.publishCall (c.withDedupe false)).1.isOk = true ∧
      (f.publishCall (c.withDedupe true)).1.isOk = false := by
    decide +kernel
  exact ⟨faultFree_small hrun.1, hrun.2⟩

end Fabric

end StorageFabric
