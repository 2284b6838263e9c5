import Mathlib.Data.List.Chain
import StorageFabric.Lib.XorOrder
import StorageFabric.Tools.Incarnations

/-!
The boot ids that are handed out.

A boot id is the reading of the clock xored with the number of the handshake. The ids of
successive handshakes increase exactly if, at each of them, counting on and the passing
of time do not get in each other's way (`Rises`).
-/

namespace StorageFabric

namespace Process

variable {β : Type}

/-! ### One handshake and the next -/

theorem bootId_value (t : UInt64) (n : Nat) :
    (bootId t n).value = max (t.toNat ^^^ n % 2 ^ 64) 1 := by
  have hword : (t ^^^ UInt64.ofNat n).toNat = t.toNat ^^^ n % 2 ^ 64 := by
    rw [UInt64.toNat_xor, UInt64.toNat_ofNat']
  rw [bootId]
  dsimp only
  split
  · next hzero =>
      rw [← hword, hzero]
      rfl
  · next hne =>
      have hpos : (t ^^^ UInt64.ofNat n).toNat ≠ 0 := fun h => hne (UInt64.toNat_inj.mp h)
      rw [← hword]
      omega

/-- The clock reads `t` at the `n`-th handshake and `t'` at the next. Unless the counter
wraps around, the readings have to keep their order under the two values of the counter;
and a reading that makes the id zero would get the id `1`, as may the one before it. -/
def Rises (n : Nat) (t t' : UInt64) : Prop :=
  (if n % 2 ^ 64 + 1 = 2 ^ 64 then 2 ^ 64 ≤ t.toNat + t'.toNat
    else XorOrder.KeepsOrder (n % 2 ^ 64) t.toNat t'.toNat) ∧
  t' ≠ UInt64.ofNat (n + 1) ^^^ 1

instance (n : Nat) (t t' : UInt64) : Decidable (Rises n t t') := by
  unfold Rises
  infer_instance

theorem bootId_lt_iff {t t' : UInt64} (h : t ≤ t') (n : Nat) :
    (bootId t n).value < (bootId t' (n + 1)).value ↔ Rises n t t' := by
  have hle : t.toNat ≤ t'.toNat := h
  have hmax : ∀ a b : Nat, max a 1 < max b 1 ↔ a < b ∧ b ≠ 1 := fun a b => by omega
  have hone : t'.toNat ^^^ (n + 1) % 2 ^ 64 ≠ 1 ↔ t' ≠ UInt64.ofNat (n + 1) ^^^ 1 := by
    rw [not_iff_not, ← UInt64.toNat_inj, UInt64.toNat_xor, UInt64.toNat_ofNat']
    exact XorOrder.xor_eq_iff
  have horder : (t.toNat ^^^ n % 2 ^ 64 < t'.toNat ^^^ (n + 1) % 2 ^ 64) ↔
      if n % 2 ^ 64 + 1 = 2 ^ 64 then 2 ^ 64 ≤ t.toNat + t'.toNat
      else XorOrder.KeepsOrder (n % 2 ^ 64) t.toNat t'.toNat := by
    have hbound := t.toNat_lt
    split
    · next hwrap =>
        have hlast : n % 2 ^ 64 = 2 ^ 64 - 1 := by omega
        have hnext : (n + 1) % 2 ^ 64 = 0 := by omega
        rw [hlast, hnext, XorOrder.xor_two_pow_sub_one hbound, Nat.xor_zero]
        omega
    · next hwrap =>
        have hnext : (n + 1) % 2 ^ 64 = n % 2 ^ 64 + 1 := by omega
        rw [hnext]
        exact XorOrder.xor_lt_xor_succ_iff hle
  rw [bootId_value, bootId_value, hmax, horder, hone]
  rfl

theorem bootIds_pairwise_iff {ts : List UInt64} (h : ts.Pairwise (· ≤ ·)) (n : Nat) :
    ((ts.zipIdx n).map fun x => bootId x.1 x.2).Pairwise (fun a b => a.value < b.value) ↔
      (ts.zipIdx n).IsChain fun x y => Rises x.2 x.1 y.1 := by
  have htrans : IsTrans WorkerBootId fun a b => a.value < b.value :=
    ⟨fun _ _ _ hab hbc => Nat.lt_trans hab hbc⟩
  rw [← List.isChain_iff_pairwise, List.isChain_map]
  induction ts generalizing n with
  | nil => simp
  | cons t ts ih =>
      rw [List.pairwise_cons] at h
      cases ts with
      | nil => simp
      | cons t' ts =>
          have hrest := ih h.2 (n + 1)
          rw [List.zipIdx_cons] at hrest ⊢
          rw [List.zipIdx_cons, List.isChain_cons_cons, List.isChain_cons_cons]
          exact and_congr (bootId_lt_iff (h.1 t' List.mem_cons_self) n) hrest

/-! ### Runs -/

def reading : Event β → UInt64
  | .frame _ _ env => env.nowNs
  | .lost _ => 0

section Runs

variable [StorageBackend β]

def readings (p : Process β) (es : List (Event β)) : List UInt64 :=
  (Runs.trace step p es).filterMap fun x => (x.1.opens x.2).map fun _ => reading x.2

/-- The boot ids that are handed out in a run. -/
def handedBoots (p : Process β) (es : List (Event β)) : List WorkerBootId :=
  (Runs.trace step p es).filterMap fun x => (x.1.opens x.2).map Connection.boot

theorem opens_cases (p : Process β) (e : Event β) :
    (p.opens e = none ∧ (p.step e).bootNonce = p.bootNonce) ∨
    ∃ k, p.opens e = some k ∧ k.boot = bootId (reading e) (p.bootNonce + 1) ∧
      (p.step e).bootNonce = p.bootNonce + 1 := by
  cases e with
  | lost conn =>
      refine .inl ⟨rfl, ?_⟩
      rw [step, drop]
      cases p.connections.lookup conn <;> rfl
  | frame conn f env =>
      rw [opens, step, receive]
      cases hconn : p.connections.lookup conn with
      | none =>
          rw [if_neg (AList.notMem_iff_lookup.mpr hconn)]
          obtain hsame | ⟨worker, hnonce, hconnections⟩ := p.hello_cases conn f env.nowNs
          · exact .inl ⟨by rw [hsame, hconn], by rw [hsame]⟩
          · exact .inr ⟨_, by rw [hconnections, AList.lookup_insert], rfl, hnonce⟩
      | some k =>
          have hmem : conn ∈ p.connections := AList.lookup_isSome.mp (by rw [hconn]; rfl)
          refine .inl ⟨if_pos hmem, ?_⟩
          dsimp only
          split
          · rfl
          · exact (p.connections_request conn k f env).1

theorem handedBoots_eq (p : Process β) (es : List (Event β)) :
    handedBoots p es =
      ((readings p es).zipIdx (p.bootNonce + 1)).map fun x => bootId x.1 x.2 := by
  induction es generalizing p with
  | nil => rfl
  | cons e es ih =>
      have hids := ih (p.step e)
      rw [handedBoots, readings, Runs.trace]
      obtain ⟨hnone, hnonce⟩ | ⟨k, hsome, hboot, hnonce⟩ := p.opens_cases e
      · rw [List.filterMap_cons_none (by rw [hnone]; rfl),
          List.filterMap_cons_none (by rw [hnone]; rfl), ← hnonce]
        exact hids
      · rw [List.filterMap_cons_some (by rw [hsome]; rfl),
          List.filterMap_cons_some (by rw [hsome]; rfl), List.zipIdx_cons, List.map_cons, hboot,
          ← hnonce]
        exact congrArg _ hids

/-- In a run in which the clock does not go back, the boot ids that are handed out are
distinct and increase exactly if each of them rises over the one before it. -/
theorem boots_increase_iff (p : Process β) {es : List (Event β)}
    (hclock : (readings p es).Pairwise (· ≤ ·)) :
    ((handedBoots p es).Nodup ∧
        (handedBoots p es).Pairwise fun a b => a.value < b.value) ↔
      ((readings p es).zipIdx (p.bootNonce + 1)).IsChain fun x y => Rises x.2 x.1 y.1 := by
  rw [← bootIds_pairwise_iff hclock, ← handedBoots_eq]
  refine ⟨And.right, fun hincrease => ⟨hincrease.imp fun hlt heq => ?_, hincrease⟩⟩
  rw [heq] at hlt
  exact Nat.lt_irrefl _ hlt

end Runs

/-! ### Two handshakes -/

def helloRun (t t' : UInt64) : List (Event SyntheticBackend) :=
  [.frame 1 (helloFrame 7 []) { smallEnv with nowNs := t },
    .frame 2 (helloFrame 8 []) { smallEnv with nowNs := t' }]

theorem boots_increase_small :
    (handedBoots smallProcess (helloRun 1700000000000000000 1700000000001000000)).Nodup ∧
    (handedBoots smallProcess (helloRun 1700000000000000000 1700000000001000000)).Pairwise
      fun a b => a.value < b.value :=
  (boots_increase_iff smallProcess (by decide +kernel)).mpr (by decide +kernel)

/-- Two handshakes three nanoseconds apart get the same id. -/
theorem boots_collide :
    (readings smallProcess (helloRun 1700000000000000000 1700000000000000003)).Pairwise (· ≤ ·) ∧
    ¬(handedBoots smallProcess (helloRun 1700000000000000000 1700000000000000003)).Nodup ∧
    ¬(handedBoots smallProcess (helloRun 1700000000000000000 1700000000000000003)).Pairwise
      fun a b => a.value < b.value := by
  decide +kernel

end Process

end StorageFabric
