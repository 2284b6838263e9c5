import StorageFabric.Lib.CappedMap
import StorageFabric.Lib.Runs
import StorageFabric.Storage.Synthetic

/-!
The synthetic backend as a capped map.

Its counter is on 64 bits, and a value that replaces a longer one makes the net change
wrap around. The sum with what is used wraps back, so the capacity test and the counter
are those of a map whose values weigh no more than the capacity, call by call.
-/

namespace StorageFabric

inductive SyntheticCall
  | put (data key : Bytes)
  | read (key : Bytes)
  | remove (key : Bytes)
  | setHealth (h : EnumValue Health) (degraded unavailable : Bool)
  deriving DecidableEq

namespace SyntheticBackend

def call (b : SyntheticBackend) : SyntheticCall → SyntheticBackend
  | .put data key => (b.put data key).2
  | .read _ => b
  | .remove key => (b.remove key).2
  | .setHealth h degraded unavailable => b.setHealth h degraded unavailable

def succeeds (b : SyntheticBackend) : SyntheticCall → Bool
  | .put data key => (b.put data key).1.toOption.isSome
  | .read key => (b.read key).toOption.isSome
  | .remove key => (b.remove key).1.isOk
  | .setHealth .. => true

def isWritable (b : SyntheticBackend) : Bool := !b.profile.unavailable && !b.profile.degraded

/-- The used bytes together with the data of a put are below `2 ^ 64`. -/
def Measured (b : SyntheticBackend) : SyntheticCall → Prop
  | .put data _ => b.usedBytes.toNat + data.length < 2 ^ 64
  | _ => True

instance (b : SyntheticBackend) (c : SyntheticCall) : Decidable (b.Measured c) := by
  cases c <;> unfold Measured <;> infer_instance

theorem isOk_ensureAvailable (b : SyntheticBackend) {op : String} (hop : op ≠ "read") :
    (b.ensureAvailable op).isOk = b.isWritable := by
  unfold ensureAvailable isWritable
  cases b.profile.unavailable <;> cases b.profile.degraded <;> simp [hop] <;> rfl

/-! ### The map that the backend represents -/

variable {cap : ℕ}

/-- The capped map has the contents of the store and weighs what the counter says. -/
structure Represents (b : SyntheticBackend) (m : CappedMap Bytes Bytes List.length cap) : Prop where
  get : ∀ k, m.get k = b.store.lookup k
  used : b.usedBytes.toNat = m.used
  capacity : b.profile.totalBytes.toNat = cap

/-- What the call makes of the map. -/
noncomputable def callMap (writable : Bool) (m : CappedMap Bytes Bytes List.length cap) :
    SyntheticCall → CappedMap Bytes Bytes List.length cap
  | .put data key => if writable then (m.put key data).getD m else m
  | .remove key => if writable then m.remove key else m
  | _ => m

theorem Represents.storedSize {b : SyntheticBackend} {m : CappedMap Bytes Bytes List.length cap}
    (h : b.Represents m) (key : Bytes) :
    (b.storedSize key).toNat = sizeAt List.length (m.get key) := by
  have hle := m.sizeAt_le_used key
  have hused := b.usedBytes.toNat_lt
  rw [h.used] at hused
  unfold SyntheticBackend.storedSize
  rw [h.get] at hle ⊢
  cases hlookup : b.store.lookup key with
  | none => rfl
  | some v =>
      rw [hlookup] at hle
      have hsize : sizeAt List.length (some v) = v.length := rfl
      simp only [UInt64.toNat_ofNat']
      rw [hsize] at hle ⊢
      exact Nat.mod_eq_of_lt (by omega)

/-- The wrapped sum of the used bytes and the net change is the weight after the
replacement. -/
theorem Represents.usedBytes_add_net {b : SyntheticBackend}
    {m : CappedMap Bytes Bytes List.length cap} (h : b.Represents m) {data : Bytes} (key : Bytes)
    (hdata : b.usedBytes.toNat + data.length < 2 ^ 64) :
    (b.usedBytes + (UInt64.ofNat data.length - b.storedSize key)).toNat =
      m.used - sizeAt List.length (m.get key) + data.length := by
  have hle := m.sizeAt_le_used key
  have hstored := h.storedSize key
  have hlength : (UInt64.ofNat data.length).toNat = data.length := by
    rw [UInt64.toNat_ofNat']
    exact Nat.mod_eq_of_lt (by omega)
  have hbound := (b.storedSize key).toNat_lt
  rw [UInt64.toNat_add, UInt64.toNat_sub, hlength, hstored]
  rw [hstored] at hbound
  rw [h.used] at hdata ⊢
  omega

theorem Represents.put_cases {b : SyntheticBackend} {m : CappedMap Bytes Bytes List.length cap}
    (h : b.Represents m) {data : Bytes} (key : Bytes)
    (hdata : b.usedBytes.toNat + data.length < 2 ^ 64) :
    (b.isWritable = true ∧ (∃ m', m.put key data = some m' ∧ (b.put data key).2.Represents m') ∧
      (b.put data key).1 = .ok (UInt64.ofNat data.length)) ∨
    (¬(b.isWritable = true ∧ (m.put key data).isSome = true) ∧
      ∃ s, b.put data key = (.error s, b)) := by
  have hnet := h.usedBytes_add_net key hdata
  have hcap := h.capacity
  unfold put
  dsimp only
  rw [isOk_ensureAvailable b (by decide)]
  cases hwritable : b.isWritable with
  | false => exact .inr ⟨by simp, _, rfl⟩
  | true =>
      simp only [Bool.not_true, Bool.false_eq_true, if_false]
      by_cases hroom : b.profile.totalBytes <
          b.usedBytes + (UInt64.ofNat data.length - b.storedSize key)
      · rw [if_pos hroom]
        rw [UInt64.lt_iff_toNat_lt, hnet, hcap] at hroom
        refine .inr ⟨fun hsome => ?_, _, rfl⟩
        have hle := CappedMap.put_isSome_iff.mp hsome.2
        omega
      · rw [if_neg hroom]
        rw [UInt64.lt_iff_toNat_lt, hnet, hcap] at hroom
        obtain ⟨m', hm'⟩ := Option.isSome_iff_exists.mp
          (CappedMap.put_isSome_iff.mpr (Nat.not_lt.mp hroom))
        obtain ⟨hget, hused⟩ := CappedMap.put_eq_some hm'
        refine .inl ⟨trivial, ⟨m', hm', ?_, ?_, hcap⟩, rfl⟩
        · intro k
          rw [hget, AList.lookup_insert_eq]
          by_cases hk : k = key
          · rw [hk, Function.update_self, if_pos rfl]
          · rw [Function.update_of_ne hk, if_neg hk, h.get]
        · rw [hused]
          exact hnet

theorem Represents.remove_cases {b : SyntheticBackend}
    {m : CappedMap Bytes Bytes List.length cap} (h : b.Represents m) (key : Bytes) :
    (b.isWritable = true ∧ (b.remove key).2.Represents (m.remove key) ∧
      (b.remove key).1.isOk = true) ∨
    (b.isWritable = false ∧ (b.remove key).1.isOk = false ∧ (b.remove key).2 = b) := by
  have hstored := h.storedSize key
  have hle := m.sizeAt_le_used key
  have hok : (b.ensureAvailable "delete").isOk = b.isWritable :=
    isOk_ensureAvailable b (by decide)
  have hget : ∀ t : Table Bytes Bytes, (∀ k, t.lookup k = if k = key then none else b.store.lookup k) →
      ∀ k, (m.remove key).get k = t.lookup k := by
    intro t ht k
    rw [ht]
    show Function.update m.get key none k = _
    by_cases hk : k = key
    · rw [hk, Function.update_self, if_pos rfl]
    · rw [Function.update_of_ne hk, if_neg hk, h.get]
  unfold remove
  dsimp only
  rw [hok]
  cases hwritable : b.isWritable with
  | false =>
      rw [hwritable] at hok
      exact .inr ⟨rfl, hok, rfl⟩
  | true =>
      simp only [Bool.not_true, Bool.false_eq_true, if_false]
      unfold SyntheticBackend.storedSize at hstored
      cases hlookup : b.store.lookup key with
      | none =>
          refine .inl ⟨trivial, ⟨hget _ fun k => ?_, ?_, h.capacity⟩, rfl⟩
          · by_cases hk : k = key
            · rw [if_pos hk, hk, hlookup]
            · rw [if_neg hk]
          · rw [CappedMap.used_remove, h.get, hlookup]
            exact h.used
      | some v =>
          rw [hlookup] at hstored
          refine .inl ⟨trivial, ⟨hget _ fun k => AList.lookup_erase_eq _ _ _, ?_, h.capacity⟩, rfl⟩
          -- the entry is counted in `usedBytes`, so the subtraction does not wrap
          have hsub : UInt64.ofNat v.length ≤ b.usedBytes := by
            rw [UInt64.le_iff_toNat_le, hstored, h.used]
            exact hle
          rw [CappedMap.used_remove, UInt64.toNat_sub_of_le _ _ hsub, hstored, h.used]

theorem Represents.call {b : SyntheticBackend} {m : CappedMap Bytes Bytes List.length cap}
    (h : b.Represents m) {c : SyntheticCall} (hc : b.Measured c) :
    (b.call c).Represents (callMap b.isWritable m c) := by
  cases c with
  | put data key =>
      obtain ⟨hwritable, ⟨m', hm', hrepresents⟩, -⟩ | ⟨hfails, s, heq⟩ := h.put_cases key hc
      · have hmap : callMap b.isWritable m (.put data key) = m' := by
          rw [callMap, if_pos hwritable, hm', Option.getD_some]
        rw [hmap]
        exact hrepresents
      · have hsame : callMap b.isWritable m (.put data key) = m := by
          cases hwritable : b.isWritable with
          | false => rfl
          | true =>
              rw [hwritable, not_and, Bool.not_eq_true, Option.isSome_eq_false_iff,
                Option.isNone_iff_eq_none] at hfails
              rw [callMap, if_pos rfl, hfails rfl]
              rfl
        rw [hsame, SyntheticBackend.call, heq]
        exact h
  | read key => exact h
  | remove key =>
      obtain ⟨hwritable, hrepresents, -⟩ | ⟨hwritable, -, hsame⟩ := h.remove_cases key
      · simpa only [SyntheticBackend.call, callMap, hwritable, if_true] using hrepresents
      · simpa only [SyntheticBackend.call, callMap, hwritable, Bool.false_eq_true, if_false, hsame]
          using h
  | setHealth => exact ⟨h.get, h.used, h.capacity⟩

/-! ### Calls that fail, and what the others write -/

theorem call_of_fails {b : SyntheticBackend} {c : SyntheticCall} (h : b.succeeds c = false) :
    b.call c = b := by
  cases c with
  | put data key =>
      unfold succeeds put at h
      unfold call put
      dsimp only at h ⊢
      split at h
      · next hs => rw [if_pos hs]
      · next hs =>
          rw [if_neg hs]
          split at h
          · next hroom => rw [if_pos hroom]
          · cases h
  | read key => rfl
  | remove key =>
      unfold succeeds remove at h
      unfold call remove
      dsimp only at h ⊢
      split at h
      · next hs => rw [if_pos hs]
      · cases hlookup : b.store.lookup key <;> simp [hlookup] at h
  | setHealth => cases h

/-- What the call writes under the key, if it succeeds and is about it. -/
def writesAt (key : Bytes) (b : SyntheticBackend) (c : SyntheticCall) : Option (Option Bytes) :=
  match c with
  | .put data k => if k = key ∧ b.succeeds c = true then some (some data) else none
  | .remove k => if k = key ∧ b.succeeds c = true then some none else none
  | _ => none

theorem lookup_call (key : Bytes) (b : SyntheticBackend) (c : SyntheticCall) :
    (b.call c).store.lookup key = (writesAt key b c).getD (b.store.lookup key) := by
  cases hsucceeds : b.succeeds c with
  | false =>
      rw [call_of_fails hsucceeds]
      cases c <;> simp [writesAt, hsucceeds]
  | true =>
      cases c with
      | put data k =>
          obtain ⟨n, hn⟩ : ∃ n, (b.put data k).1 = .ok n := by
            have hsome : (b.put data k).1.toOption.isSome = true := hsucceeds
            cases hput : (b.put data k).1 with
            | error s => rw [hput] at hsome; cases hsome
            | ok n => exact ⟨n, rfl⟩
          rw [call, store_put_of_ok hn, AList.lookup_insert_eq, writesAt, hsucceeds]
          by_cases hk : k = key
          · simp [hk]
          · simp [hk, Ne.symm hk]
      | read k => rfl
      | remove k =>
          have hok : (b.remove k).1.isOk = true := hsucceeds
          rw [call, store_remove, if_pos hok, writesAt, hsucceeds]
          by_cases hk : k = key
          · simp [hk]
          · simp [hk, Ne.symm hk]
      | setHealth => rfl

theorem read_eq_ok_iff {b : SyntheticBackend} (h : b.profile.unavailable = false)
    {key data : Bytes} : b.read key = .ok data ↔ b.store.lookup key = some data :=
  ⟨lookup_of_read, readable_of_available h key data⟩

/-! ### Runs -/

theorem represents_empty (profile : SyntheticProfile) :
    ({ profile } : SyntheticBackend).Represents
      (CappedMap.empty List.length profile.totalBytes.toNat) :=
  ⟨fun _ => rfl, CappedMap.used_empty.symm, rfl⟩

/-- After calls in which no sum of the used bytes and the data of a put reaches
`2 ^ 64`, the backend represents a capped map. -/
theorem represents_run (profile : SyntheticProfile) {calls : List SyntheticCall}
    (hcalls : Runs.Along call Measured { profile } calls) :
    ∃ m : CappedMap Bytes Bytes List.length profile.totalBytes.toNat,
      (Runs.run call { profile } calls).Represents m :=
  Runs.invariant (I := fun b => ∃ m : CappedMap Bytes Bytes List.length
      profile.totalBytes.toNat, b.Represents m)
    (fun _ _ ⟨_, h⟩ hc => ⟨_, h.call hc⟩) ⟨_, represents_empty profile⟩ hcalls

theorem Represents.used_eq {b : SyntheticBackend} {m : CappedMap Bytes Bytes List.length cap}
    (h : b.Represents m) : m.used = b.store.sumBy List.length := by
  rw [← AList.weight_lookup, CappedMap.used, funext h.get]

theorem Represents.fits_iff {b : SyntheticBackend} {m : CappedMap Bytes Bytes List.length cap}
    (h : b.Represents m) (data key : Bytes) :
    (m.put key data).isSome = true ↔
      (b.store.insert key data).sumBy List.length ≤ b.profile.totalBytes.toNat := by
  have hget : Function.update m.get key (some data) = (b.store.insert key data).lookup := by
    funext k
    rw [AList.lookup_insert_eq]
    by_cases hk : k = key
    · rw [hk, Function.update_self, if_pos rfl]
    · rw [Function.update_of_ne hk, if_neg hk, h.get]
  rw [CappedMap.put_isSome_iff, ← CappedMap.used_update, hget, AList.weight_lookup, h.capacity]

theorem Represents.put_succeeds_iff {b : SyntheticBackend}
    {m : CappedMap Bytes Bytes List.length cap} (h : b.Represents m) {data key : Bytes}
    (hdata : b.Measured (.put data key)) :
    b.succeeds (.put data key) = true ↔
      (b.profile.unavailable = false ∧ b.profile.degraded = false) ∧
        (b.store.insert key data).sumBy List.length ≤ b.profile.totalBytes.toNat := by
  have hwritable : b.isWritable = true ↔
      b.profile.unavailable = false ∧ b.profile.degraded = false := by
    simp [isWritable]
  rw [← hwritable, ← h.fits_iff]
  obtain ⟨hb, ⟨m', hm', -⟩, hok⟩ | ⟨hfails, s, heq⟩ := h.put_cases key hdata
  · simp [succeeds, hb, hm', hok, Except.toOption]
  · refine ⟨fun hsucceeds => ?_, fun hboth => absurd hboth hfails⟩
    simp [succeeds, heq, Except.toOption] at hsucceeds

/-- The synthetic backend refines a capped map: the counter is the sum of the sizes and
within the capacity, a put succeeds exactly if the backend takes writes and the sum
after the replacement fits, a read finds what the last successful put left there, and
a call that fails changes nothing. -/
theorem refines_cappedMap (profile : SyntheticProfile) (calls : List SyntheticCall)
    (hcalls : Runs.Along call Measured { profile } calls) :
    let b := Runs.run call { profile } calls
    (b.usedBytes.toNat = b.store.sumBy List.length ∧ b.usedBytes ≤ b.profile.totalBytes) ∧
    (∀ data key, b.Measured (.put data key) →
      (b.succeeds (.put data key) = true ↔
        (b.profile.unavailable = false ∧ b.profile.degraded = false) ∧
          (b.store.insert key data).sumBy List.length ≤ b.profile.totalBytes.toNat)) ∧
    (b.profile.unavailable = false → ∀ key data, b.read key = .ok data ↔
      Runs.LastWrites call (writesAt key) (some data) { profile } calls) ∧
    (∀ c, b.succeeds c = false →
      (b.call c).store = b.store ∧ (b.call c).usedBytes = b.usedBytes) := by
  obtain ⟨m, h⟩ := represents_run profile hcalls
  refine ⟨⟨h.used.trans h.used_eq, ?_⟩, fun data key hdata => h.put_succeeds_iff hdata,
    fun havailable key data => ?_, fun c hc => ?_⟩
  · rw [UInt64.le_iff_toNat_le, h.used, h.capacity]
    exact m.fits
  · rw [read_eq_ok_iff havailable]
    let value : SyntheticBackend → Option Bytes := fun b => b.store.lookup key
    have hstep : ∀ b c, value (b.call c) = (writesAt key b c).getD (value b) :=
      fun b c => lookup_call key b c
    refine (Runs.value_run_iff hstep).trans (or_iff_left fun hnone => ?_)
    cases hnone.2
  · rw [call_of_fails hc]
    exact ⟨rfl, rfl⟩

/-- A value of three bytes makes room for others when one of a single byte replaces it,
and the backend is full and degraded in the end. -/
def fillingCalls : List SyntheticCall :=
  [.put [1, 2, 3] (ascii "a"), .put [4] (ascii "a"), .put [5, 6, 7] (ascii "b"),
    .put [8] (ascii "c"), .remove (ascii "a"), .setHealth (.known .degraded) true false,
    .put [9] (ascii "b")]

theorem refines_cappedMap_small :
    (Runs.run call { profile := { totalBytes := 4 } } fillingCalls).read (ascii "b") =
        .ok [5, 6, 7] ∧
      Runs.LastWrites call (writesAt (ascii "b")) (some [5, 6, 7])
        { profile := { totalBytes := 4 } } fillingCalls := by
  obtain ⟨-, -, hreads, -⟩ :=
    refines_cappedMap { totalBytes := 4 } fillingCalls (by decide +kernel)
  have hread : (Runs.run call { profile := { totalBytes := 4 } } fillingCalls).read (ascii "b") =
      .ok [5, 6, 7] := by rfl
  exact ⟨hread, (hreads (by decide +kernel) _ _).mp hread⟩

end SyntheticBackend

end StorageFabric
