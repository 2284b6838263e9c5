import StorageFabric.Lib.Runs
import StorageFabric.Runtime.Recovery
import StorageFabric.Runtime.Steps

/-!
A process with its runtime, and the files that outlive it.

The process calls the operations of the library, saves the metadata, recovers
files, and is started again with nothing but the files. The files are not its
own: others write to them as well.
-/

namespace StorageFabric

structure Host (β : Type) where
  fabric : Fabric β := {}
  files : Table Bytes Bytes := ∅

inductive HostOp (β : Type)
  | exec (op : Op β)
  | save (path : Bytes) (fault : SaveFault)
  | recover (path : Bytes) (nowNs : UInt64)
  /-- A new process on the same files. -/
  | restart
  /-- Somebody else writes a file. -/
  | write (path data : Bytes)

namespace Host

variable {β : Type} [StorageBackend β]

def step (h : Host β) : HostOp β → Host β
  | .exec op => { h with fabric := h.fabric.exec op }
  | .save path fault =>
      let (_, fabric, files) := h.fabric.save path fault h.files
      { fabric, files }
  | .recover path nowNs => { h with fabric := (h.fabric.recover path h.files nowNs).2 }
  | .restart => { h with fabric := {} }
  | .write path data => { h with files := h.files.insert path data }

theorem run_exec (h : Host β) (ops : List (Op β)) :
    Runs.run step h (ops.map .exec) = { h with fabric := Runs.run Fabric.exec h.fabric ops } := by
  induction ops generalizing h with
  | nil => rfl
  | cons op ops ih =>
      rw [List.map_cons, Runs.run_cons, ih]
      rfl

omit [StorageBackend β] in
theorem fabric_save (f : Fabric β) (path : Bytes) (fault : SaveFault)
    (files : Table Bytes Bytes) :
    ∃ last, (f.save path fault files).2.1 = { f with lastSavePath := last } := by
  unfold Fabric.save
  cases serializeSnapshot f.snapshot with
  | error s => exact ⟨f.lastSavePath, rfl⟩
  | ok p => cases fault <;> exact ⟨_, rfl⟩

/-- One step of a process: what a new runtime has, what the operation and a recovered
file keep, and what does not depend on the path of the last save. -/
theorem fabric_step {I : Fabric β → Prop} {h : Host β} {o : HostOp β} (hI : I h.fabric)
    (hempty : I {}) (hexec : ∀ op, o = .exec op → I (h.fabric.exec op))
    (hpath : ∀ last, I { h.fabric with lastSavePath := last })
    (hrestore : ∀ path nowNs snap nonce, o = .recover path nowNs →
      Fabric.recorded h.files path = some snap → I (h.fabric.restore snap path nonce)) :
    I (h.step o).fabric := by
  cases o with
  | exec op => exact hexec op rfl
  | save path fault =>
      obtain ⟨last, hlast⟩ := fabric_save h.fabric path fault h.files
      show I (h.fabric.save path fault h.files).2.1
      rw [hlast]
      exact hpath last
  | recover path nowNs =>
      show I (h.fabric.recover path h.files nowNs).2
      obtain ⟨snap, hsnap, heq⟩ | ⟨-, -, hsame⟩ := h.fabric.recover_cases path h.files nowNs
      · rw [heq]
        exact hrestore path nowNs snap _ rfl hsnap
      · rw [hsame]
        exact hI
  | restart => exact hempty
  | write path data => exact hI

/-- What the operations of the library keep, in the new runtime of a process and
through every change of the path of the last save and every recovery, holds of the
runtime of every process. -/
theorem fabric_invariant {I : Fabric β → Prop} {P : Op β → Prop}
    (hempty : I {}) (hexec : ∀ f op, I f → P op → I (f.exec op))
    (hpath : ∀ (f : Fabric β) last, I f → I { f with lastSavePath := last })
    (hrestore : ∀ (f : Fabric β) snap path nonce, I f → I (f.restore snap path nonce))
    {ops : List (HostOp β)} (hops : ∀ op, .exec op ∈ ops → P op) :
    I (Runs.run step {} ops).fabric := by
  refine Runs.invariant (I := fun h : Host β => I h.fabric)
    (P := fun _ o => ∀ op, o = .exec op → P op) ?_ hempty
    (Runs.along_of_mem fun _ o ho op heq => hops op (heq ▸ ho))
  intro h o hI hP
  exact fabric_step hI hempty (fun op heq => hexec _ op hI (hP op heq))
    (fun last => hpath _ last hI) fun path _ snap nonce _ _ => hrestore _ snap path nonce hI

end Host

/-! ### The files of the process -/

/-- The path of the temporary file of a save. -/
def metadataTemp (path : Bytes) : Bytes := path ++ ascii ".tmp"

/-- The paths that are those of no temporary file. -/
def metadataPaths : Set Bytes := {p | ¬ascii ".tmp" <:+ p}

theorem metadataTemp_notMem (path : Bytes) : metadataTemp path ∉ metadataPaths :=
  fun h => h (List.suffix_append _ _)

theorem lookup_save {f : Fabric β} (path : Bytes) {res : PersistResult} {blob : Bytes}
    (hserial : serializeSnapshot f.snapshot = .ok (res, blob)) (fault : SaveFault)
    (files : Table Bytes Bytes) {p : Bytes} (hp : p ∈ metadataPaths) :
    (f.save path fault files).2.2.lookup p =
      if fault = .none ∧ p = path then some blob else files.lookup p := by
  have hne : p ≠ path ++ ascii ".tmp" := by
    rintro rfl
    exact metadataTemp_notMem path hp
  cases fault <;> simp [Fabric.save, hserial, AList.lookup_insert_eq, hne]

end StorageFabric
