import StorageFabric.Lib.Runs
import StorageFabric.Runtime.Recovery

/-!
The coordinator epoch across saves, recoveries and restarts.

A recovery starts one epoch above the one in the file that it loads. Whether that
is above every epoch that was live before depends on the file alone.
-/

namespace StorageFabric

/-- An incarnation, the files, and the epochs that were live before now, by this
incarnation or one before it. -/
structure Lineage (β : Type) where
  fabric : Fabric β := {}
  files : Table Bytes Bytes := ∅
  earlier : List CoordinatorEpoch := []

inductive EpochOp
  | newCoordinatorEpoch
  | save (path : Bytes) (fault : SaveFault)
  | recover (path : Bytes) (nowNs : UInt64)
  /-- A new incarnation on the same files. -/
  | restart
  deriving DecidableEq

namespace Lineage

variable {β : Type}

def live (s : Lineage β) : List CoordinatorEpoch := s.fabric.authority.epoch :: s.earlier

def step (s : Lineage β) : EpochOp → Lineage β
  | .newCoordinatorEpoch =>
      { s with fabric := s.fabric.newCoordinatorEpoch, earlier := s.live }
  | .save path fault =>
      let (_, fabric, files) := s.fabric.save path fault s.files
      { fabric, files, earlier := s.live }
  | .recover path nowNs =>
      { s with fabric := (s.fabric.recover path s.files nowNs).2, earlier := s.live }
  | .restart => { s with fabric := {}, earlier := s.live }

def recovers (s : Lineage β) : EpochOp → Bool
  | .recover path nowNs => (s.fabric.recover path s.files nowNs).1.isOk
  | _ => false

/-- A recovery that succeeds starts an epoch above all that were live. -/
def Advances (s : Lineage β) (op : EpochOp) : Prop :=
  s.recovers op = true → ∀ e ∈ s.live, e.value < (s.step op).fabric.authority.epoch.value

/-- The file that is loaded was saved in an epoch that is not below any that was
live, and not the last one. -/
def LoadsNewest (s : Lineage β) : EpochOp → Prop
  | .recover path _ => ∀ snap, Fabric.recorded s.files path = some snap →
      snap.epoch.value.toNat < 2 ^ 64 - 1 ∧ ∀ e ∈ s.live, e.value ≤ snap.epoch.value
  | _ => True

/-- The next epoch is above a set of epochs if none of them is above this one, and
this is not the last. -/
theorem next_above_iff {e : CoordinatorEpoch} {es : List CoordinatorEpoch} (hne : es ≠ []) :
    (∀ d ∈ es, d.value < e.next.value) ↔
      e.value.toNat < 2 ^ 64 - 1 ∧ ∀ d ∈ es, d.value ≤ e.value := by
  have hnext : e.next.value.toNat = (e.value.toNat + 1) % 2 ^ 64 := UInt64.toNat_add e.value 1
  have hword : e.value.toNat < 2 ^ 64 := e.value.toNat_lt
  constructor
  · intro h
    have hroom : e.value.toNat < 2 ^ 64 - 1 := by
      obtain ⟨d, hd⟩ := List.exists_mem_of_ne_nil es hne
      have hlt := UInt64.lt_iff_toNat_lt.mp (h d hd)
      omega
    refine ⟨hroom, fun d hd => UInt64.le_iff_toNat_le.mpr ?_⟩
    have hlt := UInt64.lt_iff_toNat_lt.mp (h d hd)
    omega
  · rintro ⟨hroom, h⟩ d hd
    have hle := UInt64.le_iff_toNat_le.mp (h d hd)
    apply UInt64.lt_iff_toNat_lt.mpr
    omega

/-- A step keeps the epoch going forward exactly if it loads a newest file. -/
theorem advances_iff (s : Lineage β) (op : EpochOp) : s.Advances op ↔ s.LoadsNewest op := by
  cases op with
  | newCoordinatorEpoch => exact ⟨fun _ => trivial, fun _ h => nomatch h⟩
  | save path fault => exact ⟨fun _ => trivial, fun _ h => nomatch h⟩
  | restart => exact ⟨fun _ => trivial, fun _ h => nomatch h⟩
  | recover path nowNs =>
      obtain ⟨snap, hfile, heq⟩ | ⟨hnone, hfail, -⟩ :=
        Fabric.recover_cases s.fabric path s.files nowNs
      · have hlive : s.live ≠ [] := List.cons_ne_nil _ _
        have hepoch : (s.step (.recover path nowNs)).fabric.authority.epoch = snap.epoch.next := by
          rw [step, heq]
          rfl
        have hok : s.recovers (.recover path nowNs) = true := by
          rw [recovers, heq]
          rfl
        rw [Advances, LoadsNewest, hepoch, next_above_iff hlive, hfile]
        constructor
        · intro h snap' hsnap
          obtain rfl := Option.some.inj hsnap
          exact h hok
        · exact fun h _ => h snap rfl
      · rw [Advances, LoadsNewest, recovers, hfail, hnone]
        exact ⟨fun _ _ h => (nomatch h), fun _ h => (nomatch h)⟩

/-- The recoveries of a run all start an epoch above every one that was live
exactly if each loads a newest file. -/
theorem recoveries_advance_iff (s : Lineage β) (ops : List EpochOp) :
    Runs.Along step Advances s ops ↔ Runs.Along step LoadsNewest s ops :=
  ⟨Runs.Along.mono fun s op => (advances_iff s op).mp,
    Runs.Along.mono fun s op => (advances_iff s op).mpr⟩

/-- The metadata is saved and the epoch goes on three times. -/
def staleFileOps : List EpochOp :=
  [.save (ascii "m") .none, .newCoordinatorEpoch, .newCoordinatorEpoch, .newCoordinatorEpoch]

set_option maxRecDepth 20000 in
/-- A recovery of the file goes back to an epoch that is over. -/
theorem recovery_goes_back :
    ¬Runs.Along step Advances ({} : Lineage SyntheticBackend)
      (staleFileOps ++ [.recover (ascii "m") 0]) := by
  intro h
  have hlast := (Runs.along_append.mp h).2.1
  generalize hs : Runs.run step ({} : Lineage SyntheticBackend) staleFileOps = s at hlast
  have hrun : s.recovers (.recover (ascii "m") 0) = true ∧ ⟨3⟩ ∈ s.live ∧
      (s.step (.recover (ascii "m") 0)).fabric.authority.epoch.value = 1 := by
    rw [← hs]
    decide +kernel
  obtain ⟨hok, hlive, hepoch⟩ := hrun
  have hlt := hlast hok _ hlive
  rw [hepoch] at hlt
  exact absurd hlt (by decide)

end Lineage

end StorageFabric
