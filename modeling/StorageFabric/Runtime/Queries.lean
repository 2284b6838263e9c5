import StorageFabric.Runtime.Fenced
import StorageFabric.Runtime.Host
import StorageFabric.Runtime.Replicas

/-!
Calls that only ask.

A read raises the counter of active reads before it goes to the backend, and lowers it
only once it has all chunks, so that whether it leaves the state alone depends on what
the backend holds. A verification counts the mismatches that it finds. `can_evict` makes
the checks of `evict` in another order, which comes to the same as long as every
placement has its object in the catalog.
-/

namespace StorageFabric

inductive Query
  | read (object : ObjectId) (placement : Option PlacementId)
  | verify (placement : PlacementId)
  deriving DecidableEq

namespace Fabric

variable {β : Type} [StorageBackend β]

/-! ### Reading -/

def after (f : Fabric β) : Query → Fabric β
  | .read object placement => (f.read object placement).2
  | .verify placement => (f.verify placement).2

def reportsMismatch (f : Fabric β) : Query → Bool
  | .read _ _ => false
  | .verify placement => (f.verify placement).1.toOption.any fun v => v.code = .digestMismatch

/-- The query leaves the state as it was, but for a mismatch that it reports and counts. -/
def EffectFree (f : Fabric β) (q : Query) : Prop :=
  f.after q = f.account fun a =>
    { a with integrityFailures := a.integrityFailures + if f.reportsMismatch q then 1 else 0 }

/-- What a query needs in order to lower the counter again that it raises. -/
def Unwinds (f : Fabric β) : Query → Prop
  | .read object placement => f.ReadSettles object placement
  | .verify _ => True

omit [StorageBackend β] in
theorem account_eq_self_iff {f : Fabric β} {u : AccountingTotals → AccountingTotals} :
    f.account u = f ↔ u f.accounting = f.accounting :=
  ⟨fun h => congrArg Fabric.accounting h, fun h => by rw [account, h]⟩

theorem effectFree_read_iff (f : Fabric β) (object : ObjectId) (placement : Option PlacementId) :
    f.EffectFree (.read object placement) ↔ f.ReadSettles object placement := by
  have hsame : f.EffectFree (.read object placement) ↔ (f.read object placement).2 = f := by
    unfold EffectFree
    simp [after, reportsMismatch, account]
  rw [hsame, state_read]
  cases hfound : f.lookupForRead object placement with
  | error s => exact iff_of_true rfl (readSettles_of_error hfound)
  | ok found =>
      obtain ⟨p, man⟩ := found
      rw [readSettles_of_found hfound]
      dsimp only
      rw [account_eq_self_iff]
      constructor
      · intro h
        exact (leaves_reads_iff _ f.accounting 0).mp
          (congrArg (fun a : AccountingTotals => { a with staleRejections := 0 }) h)
      · rintro ⟨hcompletes, hroom⟩
        rw [hcompletes, if_pos rfl, lowerReads_raiseReads hroom]

/-! ### Verifying -/

theorem verify_cases (f : Fabric β) (placement : PlacementId) :
    (∃ r, f.verify placement = (r, f) ∧
        (r.toOption.any fun v => v.code = .digestMismatch) = false) ∨
      ∃ v, v.code = .digestMismatch ∧ f.verify placement =
        (.ok v, f.account fun a => { a with integrityFailures := a.integrityFailures + 1 }) := by
  unfold verify
  cases f.lookupForRead default (some placement) with
  | error s => exact .inl ⟨.error s, rfl, rfl⟩
  | ok found =>
      obtain ⟨p, man⟩ := found
      dsimp only
      cases f.getBackend p.backend with
      | error s => exact .inl ⟨.error s, rfl, rfl⟩
      | ok be =>
          dsimp only
          cases reserveOut man with
          | error s => exact .inl ⟨.error s, rfl, rfl⟩
          | ok u =>
              dsimp only
              cases verifyRead be man.chunks with
              | error s => exact .inl ⟨.error s, rfl, rfl⟩
              | ok out =>
                  dsimp only
                  by_cases hdigest : ContentDigest.of out = p.digest
                  · rw [if_neg (not_not.mpr hdigest)]
                    exact .inl ⟨_, rfl, rfl⟩
                  · rw [if_pos hdigest]
                    exact .inr ⟨_, rfl, rfl⟩

theorem effectFree_verify (f : Fabric β) (placement : PlacementId) :
    f.EffectFree (.verify placement) := by
  obtain ⟨r, hverify, hcode⟩ | ⟨v, hcode, hverify⟩ := f.verify_cases placement
  · have hafter : f.after (.verify placement) = f := congrArg Prod.snd hverify
    have hreport : f.reportsMismatch (.verify placement) = false := by
      rw [reportsMismatch, hverify, hcode]
    rw [EffectFree, hafter, hreport]
    simp [account]
  · have hafter : f.after (.verify placement) = _ := congrArg Prod.snd hverify
    have hreport : f.reportsMismatch (.verify placement) = true := by
      rw [reportsMismatch, hverify]
      simp [Except.toOption, hcode]
    rw [EffectFree, hafter, hreport]
    rfl

/-- A query leaves the state as it was, but for a mismatch that it reports, exactly if it
unwinds. -/
theorem effectFree_iff (f : Fabric β) (q : Query) : f.EffectFree q ↔ f.Unwinds q := by
  cases q with
  | read object placement => exact effectFree_read_iff f object placement
  | verify placement => exact iff_of_true (effectFree_verify f placement) trivial

/-! ### Runs of queries -/

theorem reportsMismatch_account (f : Fabric β) (u : AccountingTotals → AccountingTotals)
    (q : Query) : (f.account u).reportsMismatch q = f.reportsMismatch q := by
  cases q with
  | read object placement => rfl
  | verify placement =>
      have hlookup : (f.account u).lookupForRead default (some placement) =
          f.lookupForRead default (some placement) := rfl
      have hbackend : ∀ id, (f.account u).getBackend id = f.getBackend id := fun _ => rfl
      unfold reportsMismatch verify
      dsimp only
      rw [hlookup]
      cases f.lookupForRead default (some placement) with
      | error s => rfl
      | ok found =>
          obtain ⟨p, man⟩ := found
          dsimp only
          rw [hbackend]
          cases f.getBackend p.backend with
          | error s => rfl
          | ok be =>
              dsimp only
              cases reserveOut man with
              | error s => rfl
              | ok u =>
                  dsimp only
                  cases verifyRead be man.chunks with
                  | error s => rfl
                  | ok out =>
                      dsimp only
                      split <;> rfl

theorem Unwinds.account {f : Fabric β} {u : AccountingTotals → AccountingTotals} {q : Query}
    (h : f.Unwinds q) (hreads : (u f.accounting).activeReads = f.accounting.activeReads) :
    (f.account u).Unwinds q := by
  cases q with
  | read object placement =>
      intro p man hfound
      obtain ⟨hholds, hreserve, hroom⟩ := h p man hfound
      refine ⟨hholds, hreserve, ?_⟩
      show (u f.accounting).activeReads.toNat < 2 ^ 64 - 1
      rw [hreads]
      exact hroom
  | verify placement => trivial

omit [StorageBackend β] in
theorem account_activeReads {f : Fabric β} {u : AccountingTotals → AccountingTotals} :
    (f.account u).accounting.activeReads = (u f.accounting).activeReads := rfl

theorem EffectFree.activeReads {f : Fabric β} {q : Query} (h : f.EffectFree q) :
    (f.after q).accounting.activeReads = f.accounting.activeReads := by
  rw [h, account_activeReads]

/-- The object is published twice, each time in a blob of its own, and the first
placement is evicted. -/
def emptiedStore : Fabric SyntheticBackend :=
  Runs.run exec {} (Small.opening ++
    [.publishTo Small.object [7] ⟨1⟩ { dedupe := false },
      .publishTo Small.object [7] ⟨1⟩ { dedupe := false }, .evict ⟨1⟩])

/-- Where the object of the placement is in the catalog, `can_evict` says what an eviction
would. -/
theorem canEvict_eq {f : Fabric β} {id : PlacementId}
    (hknown : ∀ p, f.placements.lookup id = some p → p.object ∈ f.catalog) :
    (f.canEvict id).allowed = (f.evict id).1.allowed ∧
      (f.canEvict id).code = (f.evict id).1.code := by
  unfold canEvict evict evictCheck
  cases hp : f.placements.lookup id with
  | none => exact ⟨rfl, rfl⟩
  | some p =>
      obtain ⟨entry, hentry⟩ := AList.mem_iff_lookup.mp (hknown p hp)
      by_cases hevicted : p.lifecycle = .known .evicted
      · -- what is evicted is not available, so the check before it passes
        have hlast : isLastCopy p entry.replicaSet = false := by
          simp [isLastCopy, isAvailable, hevicted]
        simp [hentry, hevicted, hlast]
      · cases hlast : isLastCopy p entry.replicaSet with
        | false => simp [hentry, hevicted, hlast, evictCommit]
        | true => simp [hentry, hevicted, hlast]

theorem evict_refused {f : Fabric β} {id : PlacementId} (h : (f.evict id).1.allowed = false) :
    (f.evict id).2 = f := by
  unfold evict at h ⊢
  cases hcheck : f.evictCheck id with
  | inl decision => rfl
  | inr e =>
      rw [hcheck] at h
      cases h

end Fabric

namespace Host

variable {β : Type} [StorageBackend β]

theorem identified_step {h : Host β} (hview : h.fabric.catalogView.Identified) {o : HostOp β}
    (ho : ∀ path nowNs, o ≠ .recover path nowNs) : (h.step o).fabric.catalogView.Identified := by
  refine fabric_step (I := fun f => f.catalogView.Identified) hview
    Fabric.catalogInv_empty.identified (fun op _ => Fabric.identified_exec hview op)
    (fun _ => hview) ?_
  rintro path nowNs snap nonce rfl
  exact absurd rfl (ho path nowNs)

/-- In every history of a process without recoveries: `can_evict` allows a placement
exactly if an eviction does, with the same code, and an eviction that is refused changes
nothing. -/
theorem canEvict_predicts {ops : List (HostOp β)}
    (hops : ∀ path nowNs, .recover path nowNs ∉ ops) (id : PlacementId) :
    let f := (Runs.run step {} ops).fabric
    ((f.canEvict id).allowed = (f.evict id).1.allowed ∧
      (f.canEvict id).code = (f.evict id).1.code) ∧
      ((f.evict id).1.allowed = false → (f.evict id).2 = f) := by
  intro f
  have hview : f.catalogView.Identified :=
    Runs.invariant (I := fun h : Host β => h.fabric.catalogView.Identified)
      (fun _ _ hview ho => identified_step hview ho) Fabric.catalogInv_empty.identified
      (Runs.along_of_mem fun _ _ ho path nowNs heq => hops path nowNs (heq ▸ ho))
  exact ⟨Fabric.canEvict_eq fun p hp => hview.known id p hp, Fabric.evict_refused⟩

def soleCopy : List (HostOp SyntheticBackend) := (Small.opening ++ [Small.publication]).map .exec

/-- The only copy may not be evicted. -/
theorem canEvict_predicts_small :
    ((Runs.run step {} soleCopy).fabric.evict ⟨1⟩).1.code = .evictionUnsafe ∧
      ((Runs.run step {} soleCopy).fabric.evict ⟨1⟩).2 = (Runs.run step {} soleCopy).fabric := by
  have hops : ∀ path nowNs, .recover path nowNs ∉ soleCopy := by
    intro path nowNs hmem
    obtain ⟨op, -, heq⟩ := List.mem_map.mp hmem
    cases heq
  have hrun : ((Runs.run step {} soleCopy).fabric.canEvict ⟨1⟩).allowed = false ∧
      ((Runs.run step {} soleCopy).fabric.canEvict ⟨1⟩).code = .evictionUnsafe := by
    decide +kernel
  obtain ⟨⟨hallowed, hcode⟩, hsame⟩ := canEvict_predicts hops ⟨1⟩
  rw [hrun.1] at hallowed
  rw [hrun.2] at hcode
  exact ⟨hcode.symm, hsame hallowed.symm⟩

end Host

end StorageFabric
