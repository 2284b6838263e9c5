import StorageFabric.Core.Crc
import StorageFabric.Persist.Snapshot
import StorageFabric.Wire.Protocol

/-!
Short corruptions are found.

A change of up to four bytes in a row shows in the CRC. So it does in a frame, where
the CRC is combined from that of the header and that of the payload, and in a blob,
whose header is what its payload makes it.
-/

namespace StorageFabric

open ByteWriter ByteReader Persist

/-- The strings agree in front of their `k`-th byte and from `n` bytes after it on. -/
def AgreeOutside (k n : Nat) (x y : Bytes) : Prop :=
  x.take k = y.take k ∧ x.drop (k + n) = y.drop (k + n)

theorem crc32_ne {x y : Bytes} {k : Nat} (hlength : x.length = y.length)
    (h : AgreeOutside k 4 x y) (hne : x ≠ y) : crc32 x ≠ crc32 y := by
  have hparts : ∀ z : Bytes, z = z.take k ++ ((z.drop k).take 4 ++ z.drop (k + 4)) := fun z => by
    rw [← List.drop_drop, List.take_append_drop, List.take_append_drop]
  have hwindow : (x.drop k).take 4 ≠ (y.drop k).take 4 := fun heq => by
    apply hne
    rw [hparts x, hparts y, heq, h.1, h.2]
  have hsame : ((x.drop k).take 4).length = ((y.drop k).take 4).length := by
    simp only [List.length_take, List.length_drop, hlength]
  rw [hparts x, hparts y, h.1, h.2]
  exact crc32_ne_of_window _ _ hsame (List.length_take_le 4 _) hwindow

/-! ### Frames -/

theorem crc32Combine_injective (crc1 : UInt32) {len : UInt64} (hlen : len ≠ 0) :
    Function.Injective fun crc2 => crc32Combine crc1 crc2 len := by
  intro crc2 crc2' h
  simp only [crc32Combine, if_neg hlen] at h
  exact (UInt32.xor_right_inj _).mp h

theorem frameCrc_ne {header payload payload' : Bytes} {k : Nat}
    (hmax : payload.length ≤ kMaxFramePayload.toNat) (hlength : payload'.length = payload.length)
    (h : AgreeOutside k 4 payload payload') (hne : payload ≠ payload') :
    frameCrc header payload ≠ frameCrc header payload' := by
  have hlen : UInt64.ofNat payload.length ≠ 0 := fun hzero => by
    have hvalue := congrArg UInt64.toNat hzero
    have hbound := kMaxFramePayload.toNat_lt
    rw [UInt64.toNat_ofNat', Nat.mod_eq_of_lt (by omega)] at hvalue
    have hnil : payload = [] := List.eq_nil_of_length_eq_zero hvalue
    rw [hnil] at hlength hne
    exact hne (List.eq_nil_of_length_eq_zero hlength).symm
  intro heq
  rw [frameCrc, frameCrc, hlength] at heq
  exact crc32_ne hlength.symm h hne (crc32Combine_injective _ hlen heq)

/-- A frame is rejected if its payload has been changed. -/
theorem decodeFrame_corrupted (kind : WireMessageKind) {payload payload' : Bytes} {k : Nat}
    (hmax : payload.length ≤ kMaxFramePayload.toNat) (hlength : payload'.length = payload.length)
    (h : AgreeOutside k 4 payload payload') (hne : payload ≠ payload') :
    ∃ s, (decodeFrame ((encodeFrame kind payload).take kFrameHeaderSize ++ payload')).1 =
      .error s := by
  let word := UInt32.ofNat payload.length
  let crc := frameCrc (frameHeader kind.toWord word) payload
  have hfront : (encodeFrame kind payload).take kFrameHeaderSize =
      frameHeader kind.toWord word ++ putU32 crc := by
    rw [encodeFrame_eq hmax]
    exact List.take_left' (by simp [kFrameHeaderSize])
  have hword : word.toNat = payload'.length := by
    rw [UInt32.toNat_ofNat', hlength, Nat.mod_eq_of_lt]
    exact Nat.lt_of_le_of_lt hmax kMaxFramePayload.toNat_lt
  have hread : readFrameHeader.run (frameHeader kind.toWord word ++ putU32 crc ++ payload') =
      some ({
        magic := kFrameMagic
        version := kProtocolVersion
        kindRaw := kind.toWord
        length := word
        storedCrc := crc }, payload') := by
    rw [readFrameHeader_eq_some]
    simp only [frameHeader, List.append_assoc]
  rw [hfront]
  cases hdecode : decodeFrame (frameHeader kind.toWord word ++ putU32 crc ++ payload') with
  | mk r n =>
      cases r with
      | error s => exact ⟨s, rfl⟩
      | ok f =>
          obtain ⟨-, -, -, -, hcrc, -⟩ := (decodeFrame_of_header hread).mp hdecode
          rw [hword, List.take_length, List.append_assoc,
            frameCrc_append (length_frameHeader _ _)] at hcrc
          exact absurd hcrc.symm (frameCrc_ne hmax hlength h hne)

/-! ### Blobs -/

theorem putU32_injective : Function.Injective putU32 := by
  intro v w h
  have hv : readU32.run (putU32 v ++ []) = some (v, []) := readU32_eq_some.mpr rfl
  have hw : readU32.run (putU32 w ++ []) = some (w, []) := readU32_eq_some.mpr rfl
  rw [h, hw] at hv
  exact (Prod.mk.inj (Option.some.inj hv)).1.symm

theorem crc32_of_take_metaBlob {payload payload' : Bytes}
    (h : (metaBlob payload).take 13 = (metaBlob payload').take 13) :
    crc32 payload = crc32 payload' := by
  have htake : ∀ p, (metaBlob p).take 13 =
      (putU32 kMetaMagic ++ putU8 kMetaVersion ++ putU32 (UInt32.ofNat p.length)) ++
        putU32 (crc32 p) := by
    intro p
    rw [metaBlob, List.append_assoc]
    exact List.take_left' (by simp)
  rw [htake, htake] at h
  exact putU32_injective (List.append_inj_right h (by simp))

theorem deserialize_corrupted {snap : MetadataSnapshot} {res : PersistResult} {out : Bytes}
    (h : serializeSnapshot snap = .ok (res, out)) {i : Nat} (hi : i < out.length) {b : UInt8}
    (hb : out[i]? ≠ some b) (old : MetadataSnapshot) :
    ∃ s, deserializeSnapshot (out.set i b) old = .error s := by
  obtain ⟨payload, hout⟩ : ∃ payload, out = metaBlob payload := by
    cases hpayload : encPayload snap with
    | none =>
        rw [serializeSnapshot, hpayload] at h
        cases h
    | some payload =>
        rw [serializeSnapshot_eq hpayload] at h
        exact ⟨payload, (Prod.mk.inj (Except.ok.inj h)).2.symm⟩
  cases hread : deserializeSnapshot (out.set i b) old with
  | error s => exact ⟨s, rfl⟩
  | ok p =>
      exfalso
      obtain ⟨payload', -, hblob, -⟩ := deserialize_eq_ok.mp hread
      have hpayload : payload' = (out.set i b).drop 45 := by rw [hblob, drop_metaBlob]
      -- the blobs are not the same, so their payloads are not
      have hne : payload ≠ payload' := by
        rintro rfl
        apply hb
        rw [hout, ← hblob, List.getElem?_set_self hi]
      have hpart : payload = out.drop 45 := by rw [hout, drop_metaBlob]
      by_cases hheader : i < 45
      · apply hne
        rw [hpayload, hpart, List.drop_set_of_lt hheader]
      · have hcrc : crc32 payload = crc32 payload' := by
          apply crc32_of_take_metaBlob
          rw [← hout, ← hblob, List.take_set_of_le (by omega)]
        have hagree : AgreeOutside (i - 45) 4 payload payload' := by
          rw [hpayload, hpart, List.drop_set, if_neg hheader]
          constructor
          · rw [List.take_set_of_le (Nat.le_refl _)]
          · rw [List.drop_set_of_lt (by omega)]
        have hlength : payload.length = payload'.length := by
          rw [hpayload, hpart, List.length_drop, List.length_drop, List.length_set]
        exact crc32_ne hlength hagree hne hcrc

/-- Strings that differ within four bytes in a row have different CRCs; so a frame with
such a change to its payload is rejected, and a blob with any one byte changed. -/
theorem short_corruptions_detected :
    (∀ (x y : Bytes) (k : Nat), x.length = y.length → AgreeOutside k 4 x y → x ≠ y →
      crc32 x ≠ crc32 y) ∧
    (∀ (kind : WireMessageKind) (payload payload' : Bytes) (k : Nat),
      payload.length ≤ kMaxFramePayload.toNat → payload'.length = payload.length →
      AgreeOutside k 4 payload payload' → payload ≠ payload' →
      ∃ s, (decodeFrame ((encodeFrame kind payload).take kFrameHeaderSize ++ payload')).1 =
        .error s) ∧
    ∀ (snap old : MetadataSnapshot) (res : PersistResult) (out : Bytes) (i : Nat) (b : UInt8),
      serializeSnapshot snap = .ok (res, out) → i < out.length → out[i]? ≠ some b →
      ∃ s, deserializeSnapshot (out.set i b) old = .error s :=
  ⟨fun _ _ _ hlength h hne => crc32_ne hlength h hne,
    fun kind _ _ _ hmax hlength h hne => decodeFrame_corrupted kind hmax hlength h hne,
    fun _ old _ _ _ _ h hi hb => deserialize_corrupted h hi hb old⟩

theorem short_corruptions_small :
    crc32 [1, 2, 3] ≠ crc32 [1, 9, 3] ∧
    (∃ s, (decodeFrame ((encodeFrame .ping [1]).take kFrameHeaderSize ++ [2])).1 = .error s) ∧
    ∃ res out, serializeSnapshot {} = .ok (res, out) ∧
      ∃ s, deserializeSnapshot (out.set 0 0) {} = .error s := by
  obtain ⟨hcrc, hframe, hblob⟩ := short_corruptions_detected
  have hsome : (encPayload {}).isSome := by decide +kernel
  obtain ⟨payload, hpayload⟩ := Option.isSome_iff_exists.mp hsome
  have hserialize := serializeSnapshot_eq hpayload
  have hfirst : (metaBlob payload)[0]? ≠ some 0 := by
    show some (UInt8.ofNat kMetaMagic.toNat) ≠ some 0
    decide
  have hlong : 0 < (metaBlob payload).length := by
    rw [length_metaBlob]
    omega
  refine ⟨hcrc _ _ 1 rfl ⟨rfl, rfl⟩ (by decide),
    hframe .ping [1] [2] 0 (by decide) rfl ⟨rfl, rfl⟩ (by decide), _, _, hserialize, ?_⟩
  exact hblob {} {} _ _ 0 0 hserialize hlong hfirst

end StorageFabric
