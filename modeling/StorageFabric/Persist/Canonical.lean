import StorageFabric.Persist.RoundTrip
import StorageFabric.Persist.WellFormed

/-!
What is decoded is encoded as it was.

The encoding of a decoded snapshot differs from the blob that it came from in the
order of the compatibility entries at most. The two are of the same length, so that
the new blob fits its header as the old one did.
-/

namespace StorageFabric

open ByteWriter ByteReader Codec Persist

namespace Persist

section Vectors

variable {α : Type} {enc : α → Writer}

theorem width_encVec_perm {l l' : List α} (h : l.Perm l') :
    width (encVec enc l) = width (encVec enc l') := by
  rw [encVec, encVec, h.length_eq]
  split
  · rfl
  · exact width_fields_perm ((h.map enc).cons _)

theorem width_encVec_congr {β : Type} {enc' : β → Writer} {f : α → β} {l : List α}
    (h : ∀ a ∈ l, width (enc' (f a)) = width (enc a)) :
    width (encVec enc' (l.map f)) = width (encVec enc l) := by
  rw [encVec, encVec, List.length_map]
  split
  · rfl
  · refine width_fields_congr ?_
    rw [List.map_cons, List.map_cons, List.map_map, List.map_map, List.map_map]
    exact congrArg _ (List.map_congr_left h)

end Vectors

theorem width_encOrdered (p : OrderedObject) :
    width (encOrdered (.of p.object)) = width (encOrdered p) := by
  have hentries := @width_encVec_perm _ (fun kv => fields [encStr kv.1, encStr kv.2]) _ _ p.perm
  refine width_fields_congr ?_
  simp only [List.map_cons, List.map_nil, OrderedObject.of, hentries]

theorem width_encPayloadAs (objects : List OrderedObject) {snap : MetadataSnapshot}
    (h : objects.map OrderedObject.object = snap.objects) :
    width (encPayload snap) = width (encPayloadAs objects snap) := by
  have hobjects : width (encVec encOrdered (snap.objects.map .of)) =
      width (encVec encOrdered objects) := by
    rw [← h, List.map_map]
    exact width_encVec_congr fun p _ => width_encOrdered p
  rw [encPayload_eq]
  refine width_fields_congr ?_
  simp only [List.map_cons, List.map_nil, hobjects]

theorem OrderedObject.of_object {p : OrderedObject}
    (h : (p.entries.map Prod.fst).Pairwise (· ≤ ·)) : OrderedObject.of p.object = p := by
  obtain ⟨o, entries, hperm⟩ := p
  have hascend : entries.Pairwise fun a b => ¬b.1 < a.1 :=
    (List.pairwise_map.mp h).imp fun hle => List.not_lt.mpr hle
  obtain rfl := OrderedTable.entries_eq_of_perm hperm hascend
  rfl

end Persist

/-- The compatibility keys of every object of the blob ascend. -/
def KeysAscend (data : Bytes) : Prop :=
  ∃ f, metaFields data = some f ∧ ∀ o ∈ f.objects, o.2.Pairwise (· ≤ ·)

/-- An accepted snapshot is serialised to a blob from which it is read again; the blob is
the one that it came from if the keys in that ascend. -/
theorem serialize_deserialize {data : Bytes} {res : PersistResult} {snap : MetadataSnapshot}
    (h : deserializeSnapshot data {} = .ok (res, snap)) :
    ∃ res' data', serializeSnapshot snap = .ok (res', data') ∧
      deserializeSnapshot data' {} = .ok (res', snap) ∧ (KeysAscend data → data' = data) := by
  obtain ⟨hstorable, hdistinct⟩ := deserialize_ok h
  obtain ⟨payload, objects, hshort, rfl, hobjects, hpayload⟩ := deserialize_written h
  have hwidth : width (encPayload snap) = some payload.length := by
    rw [width_encPayloadAs objects hobjects, hpayload]
    rfl
  obtain ⟨payload', hpayload', hlength⟩ := width_eq_some.mp hwidth
  have hserialize := serializeSnapshot_eq hpayload'
  refine ⟨_, _, hserialize, deserialize_serialize hstorable hdistinct hpayload'
    (hlength ▸ hshort) hserialize, ?_⟩
  rintro ⟨f, hf, hascend⟩
  rw [metaFields_metaBlob hstorable hpayload] at hf
  obtain rfl := Option.some.inj hf
  have hof : snap.objects.map OrderedObject.of = objects := by
    rw [← hobjects, List.map_map]
    refine (List.map_congr_left fun p hp => ?_).trans (List.map_id objects)
    exact OrderedObject.of_object (hascend _ (List.mem_map_of_mem hp))
  rw [encPayload_eq, hof, hpayload] at hpayload'
  rw [Option.some.inj hpayload']

theorem serialize_deserialize_small : ∃ data res,
    deserializeSnapshot data {} = .ok (res, smallSnapshot) ∧
    ∃ res' data', serializeSnapshot smallSnapshot = .ok (res', data') ∧
      deserializeSnapshot data' {} = .ok (res', smallSnapshot) ∧
      (KeysAscend data → data' = data) := by
  obtain ⟨data, res, -, h⟩ := @accepted_of_storable smallSnapshot (by decide +kernel)
    (by decide +kernel) (by decide +kernel)
  exact ⟨data, res, h, serialize_deserialize h⟩

end StorageFabric
