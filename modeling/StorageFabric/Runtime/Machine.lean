import StorageFabric.Lib.Replace
import StorageFabric.Lib.Simulation
import StorageFabric.Runtime.Host
import StorageFabric.Storage.Dispatch

/-!
A process with its runtime on a disk, where a save is the calls it makes.

The metadata is written to a temporary file, which is renamed into place. The
process may be killed between any two calls, and starts again on the disk as it
is. Such a machine is a `Host`: a save that returns is one of the saves there, and one
that is cut short has written the whole file or nothing before the restart.
-/

namespace StorageFabric

/-- How the metadata file is replaced. After a refused rename the temporary file is
removed, and the message that is reported is that of the removal. -/
def saveRecipe (path blob : Bytes) : Recipe Bytes UInt8 Bytes Status where
  temp := metadataTemp path
  target := path
  data := blob
  openError := .of .ioError "cannot open metadata temp file"
  writeError := .of .ioError "metadata temp write failed"
  cleansWrite := false
  syncError := none
  renameError _ removal :=
    ⟨.ioError, ascii "metadata rename failed: " ++ removal.getD (ascii "Success")⟩

structure Machine (β : Type) where
  fabric : Fabric β := {}
  disk : Disk Bytes UInt8 := {}

inductive MachineOp (β : Type)
  | exec (op : Op β)
  /-- The answers to the calls that the save gets to make. -/
  | save (path : Bytes) (answers : List (Answer Bytes))
  | recover (path : Bytes) (nowNs : UInt64)
  /-- The process is killed between two operations, and started again. -/
  | kill

namespace Machine

variable {β : Type} [StorageBackend β]

omit [StorageBackend β] in
/-- The status of the save, if it returns, and the machine it leaves. -/
def save (m : Machine β) (path : Bytes) (answers : List (Answer Bytes)) :
    Option Status × Machine β :=
  match serializeSnapshot m.fabric.snapshot with
  | .error s => (some ⟨s.code, ascii "serialize failed: " ++ s.message⟩, m)
  | .ok (_, blob) =>
      let (disk, phase) := Runs.run (saveRecipe path blob).turn (m.disk, .toOpen) answers
      match phase.reply with
      | some (.ok _) => (some .okStatus, { fabric := { m.fabric with lastSavePath := path }, disk })
      | some (.error s) => (some s, { m with disk })
      | none => (none, { disk })

/-- The one file that a recovery opens. -/
def opened (m : Machine β) (path : Bytes) : Table Bytes Bytes :=
  match m.disk.contents path with
  | some bytes => AList.insert path bytes ∅
  | none => ∅

def step (m : Machine β) : MachineOp β → Machine β
  | .exec op => { m with fabric := m.fabric.exec op }
  | .save path answers => (m.save path answers).2
  | .recover path nowNs => { m with fabric := (m.fabric.recover path (m.opened path) nowNs).2 }
  | .kill => { m with fabric := {} }

def reply (m : Machine β) : MachineOp β → Option Status
  | .exec _ => none
  | .save path answers => (m.save path answers).1
  | .recover path nowNs => some (m.fabric.recover path (m.opened path) nowNs).1
  | .kill => none

/-- What a host does at an operation of the machine. -/
inductive Allowed : Host β → MachineOp β → Option Status → Host β → Prop
  | exec {h : Host β} {op : Op β} : Allowed h (.exec op) none (h.step (.exec op))
  | save {h : Host β} {path : Bytes} {answers : List (Answer Bytes)} {s : Status}
      (fault : SaveFault) (hstatus : (h.fabric.save path fault h.files).1 = s) :
      Allowed h (.save path answers) (some s) (h.step (.save path fault))
  /-- A save that is cut short has done nothing, -/
  | saveNothing {h : Host β} {path : Bytes} {answers : List (Answer Bytes)} :
      Allowed h (.save path answers) none (h.step .restart)
  /-- or has written the file, before the process starts again. -/
  | saveAll {h : Host β} {path : Bytes} {answers : List (Answer Bytes)}
      (hok : (h.fabric.save path .none h.files).1.isOk = true) :
      Allowed h (.save path answers) none ((h.step (.save path .none)).step .restart)
  | recover {h : Host β} {path : Bytes} {nowNs : UInt64} {s : Status}
      (hstatus : (h.fabric.recover path h.files nowNs).1 = s) :
      Allowed h (.recover path nowNs) (some s) (h.step (.recover path nowNs))
  | kill {h : Host β} : Allowed h .kill none (h.step .restart)

/-- The machine has come to what the host is. -/
structure Matches (m : Machine β) (h : Host β) : Prop where
  fabric : m.fabric = h.fabric
  apart : m.disk.Apart metadataPaths
  files : ∀ path ∈ metadataPaths, m.disk.contents path = h.files.lookup path

/-- No save and no recovery is under the path of a temporary file. -/
def Plain : MachineOp β → Prop
  | .save path _ => path ∈ metadataPaths
  | .recover path _ => path ∈ metadataPaths
  | _ => True

/-! ### Saves -/

omit [StorageBackend β]

/-- The errors of a save whose snapshot can be written, each with the fault it stands for. -/
def SaveError (s : Status) : Prop :=
  ∃ fault, fault ≠ .none ∧ ∀ (f : Fabric β) (path : Bytes) (files : Table Bytes Bytes) p,
    serializeSnapshot f.snapshot = .ok p →
      (f.save path fault files).1 = s ∧ (f.save path fault files).2.1 = f

theorem errs_saveRecipe (path blob : Bytes) : (saveRecipe path blob).Errs (SaveError (β := β)) := by
  refine ⟨⟨.cannotOpen, nofun, fun f path files p h => ?_⟩,
    ⟨.cannotWrite [], nofun, fun f path files p h => ?_⟩, fun _ h => absurd h (Option.not_mem_none _),
    fun _ removal => ⟨.cannotRename (removal.getD (ascii "Success")), nofun,
      fun f path files p h => ?_⟩⟩
  all_goals
    simp [Fabric.save, h, saveRecipe]

variable {m : Machine β} {h : Host β} (hm : Matches m h)

include hm

theorem Matches.still {disk : Disk Bytes UInt8} (hscratch : Disk.Scratch metadataPaths m.disk disk)
    {files : Table Bytes Bytes} (hfiles : ∀ p ∈ metadataPaths, files.lookup p = h.files.lookup p)
    {f g : Fabric β} (hfg : f = g) :
    Matches (⟨f, disk⟩ : Machine β) ⟨g, files⟩ :=
  ⟨hfg, hscratch.apart, fun p hp =>
    (hscratch.becomes.now hp).trans ((hm.files p hp).trans (hfiles p hp).symm)⟩

theorem Matches.replaced {path blob : Bytes} {disk : Disk Bytes UInt8}
    (hreplaced : Recipe.Replaced metadataPaths (saveRecipe path blob) m.disk disk)
    {files : Table Bytes Bytes}
    (hfiles : ∀ p ∈ metadataPaths,
      files.lookup p = if p = path then some blob else h.files.lookup p)
    {f g : Fabric β} (hfg : f = g) : Matches (⟨f, disk⟩ : Machine β) ⟨g, files⟩ := by
  refine ⟨hfg, hreplaced.apart, fun p hp => (hreplaced.becomes.now hp).trans ?_⟩
  rw [hfiles p hp]
  by_cases heq : p = path
  · rw [heq, if_pos rfl]
    exact Function.update_self _ _ _
  · rw [if_neg heq, ← hm.files p hp]
    exact Function.update_of_ne heq _ _

theorem Matches.recover {path : Bytes} (hpath : path ∈ metadataPaths) (nowNs : UInt64) :
    m.fabric.recover path (m.opened path) nowNs = h.fabric.recover path h.files nowNs := by
  have hlookup : (m.opened path).lookup path = h.files.lookup path := by
    rw [← hm.files path hpath, opened]
    cases m.disk.contents path with
    | none => rfl
    | some bytes => exact AList.lookup_insert _
  rw [hm.fabric]
  unfold Fabric.recover
  rw [hlookup]

omit hm

theorem save_of_error {s : Status} (hserial : serializeSnapshot m.fabric.snapshot = .error s)
    (path : Bytes) (answers : List (Answer Bytes)) :
    m.save path answers = (some ⟨s.code, ascii "serialize failed: " ++ s.message⟩, m) := by
  simp only [save, hserial]

theorem save_of_ok {res : PersistResult} {blob : Bytes}
    (hserial : serializeSnapshot m.fabric.snapshot = .ok (res, blob)) {path : Bytes}
    {answers : List (Answer Bytes)} {disk : Disk Bytes UInt8}
    {phase : Recipe.Phase UInt8 Bytes Status}
    (hrun : Runs.run (saveRecipe path blob).turn (m.disk, .toOpen) answers = (disk, phase)) :
    m.save path answers =
      match phase.reply with
      | some (.ok _) => (some .okStatus, { fabric := { m.fabric with lastSavePath := path }, disk })
      | some (.error s) => (some s, { m with disk })
      | none => (none, { disk }) := by
  simp only [save, hserial, hrun]

end Machine

section Steps

variable {β : Type} [StorageBackend β] {m : Machine β} {h : Host β} (hm : Machine.Matches m h)

include hm

theorem save_matches {path : Bytes} (hpath : path ∈ metadataPaths) (answers : List (Answer Bytes)) :
    ∃ h', Machine.Allowed h (.save path answers) (m.save path answers).1 h' ∧
      Machine.Matches (m.save path answers).2 h' := by
  cases hserial : serializeSnapshot m.fabric.snapshot with
  | error s =>
      rw [Machine.save_of_error hserial]
      have hsave : h.fabric.save path .none h.files =
          (⟨s.code, ascii "serialize failed: " ++ s.message⟩, h.fabric, h.files) := by
        simp only [Fabric.save, ← hm.fabric, hserial]
      refine ⟨h.step (.save path .none), .save .none (by rw [hsave]), ?_⟩
      simp only [Host.step, hsave]
      exact hm
  | ok p =>
      obtain ⟨res, blob⟩ := p
      generalize hrun : Runs.run (saveRecipe path blob).turn (m.disk, .toOpen) answers = outcome
      obtain ⟨disk, phase⟩ := outcome
      rw [Machine.save_of_ok hserial hrun]
      have hserial' : serializeSnapshot h.fabric.snapshot = .ok (res, blob) := hm.fabric ▸ hserial
      have hcases := Recipe.run_cases (metadataTemp_notMem path) hpath hm.apart answers hrun
      have hall : ∀ p ∈ metadataPaths, (h.fabric.save path .none h.files).2.2.lookup p =
          if p = path then some blob else h.files.lookup p := fun p hp => by
        simpa using lookup_save path hserial' .none h.files hp
      have hnone : h.fabric.save path .none h.files = (.okStatus, { h.fabric with lastSavePath := path },
          (h.fabric.save path .none h.files).2.2) := by
        simp only [Fabric.save, hserial']
      cases hreply : phase.reply with
      | none =>
          rw [hreply] at hcases
          -- killed: either after the rename, with all of the save done, or with nothing of it
          obtain hreplaced | hscratch := hcases
          · refine ⟨(h.step (.save path .none)).step .restart, .saveAll (by rw [hnone]; rfl), ?_⟩
            exact hm.replaced hreplaced hall rfl
          · exact ⟨h.step .restart, .saveNothing, hm.still hscratch (fun _ _ => rfl) rfl⟩
      | some r =>
          rw [hreply] at hcases
          cases r with
          | ok _ =>
              refine ⟨h.step (.save path .none), .save .none (by rw [hnone]), ?_⟩
              simp only [Host.step]
              rw [hnone]
              exact hm.replaced hcases hall (by rw [hm.fabric])
          | error s =>
              have herror : Machine.SaveError (β := β) s :=
                Recipe.errs_run (Machine.errs_saveRecipe path blob) m.disk answers (by rw [hrun, hreply])
              -- an error is one that the atomic save can report too
              obtain ⟨fault, hfault, hsave⟩ := herror
              obtain ⟨hstatus, hfabric⟩ := hsave h.fabric path h.files _ hserial'
              refine ⟨h.step (.save path fault), .save fault hstatus, ?_⟩
              have hsame : ∀ p ∈ metadataPaths,
                  (h.fabric.save path fault h.files).2.2.lookup p = h.files.lookup p := fun p hp => by
                simpa [hfault] using lookup_save path hserial' fault h.files hp
              exact hm.still hcases hsame (hm.fabric.trans hfabric.symm)

theorem step_matches {o : MachineOp β} (ho : Machine.Plain o) :
    ∃ h', Machine.Allowed h o (m.reply o) h' ∧ Machine.Matches (m.step o) h' := by
  cases o with
  | exec op =>
      refine ⟨h.step (.exec op), .exec, ?_, hm.apart, hm.files⟩
      exact congrArg (·.exec op) hm.fabric
  | save path answers => exact save_matches hm ho answers
  | recover path nowNs =>
      have hrecover := hm.recover ho nowNs
      refine ⟨h.step (.recover path nowNs), .recover (by rw [← hrecover]), ?_, hm.apart, hm.files⟩
      exact congrArg Prod.snd hrecover
  | kill => exact ⟨h.step .restart, .kill, rfl, hm.apart, hm.files⟩

end Steps

/-! ### Runs -/

section Runs

variable {β : Type} [StorageBackend β]

omit [StorageBackend β] in
theorem matches_empty : Machine.Matches ({} : Machine β) {} :=
  ⟨rfl, Disk.apart_empty, fun _ _ => rfl⟩

/-- The machine is a host: wherever its saves are refused or cut short by a kill, some host
takes matching steps, returns the same, and has the same runtime and the same files
under the paths that are not those of temporary files. -/
theorem machine_is_host {ops : List (MachineOp β)} (hops : ∀ o ∈ ops, Machine.Plain o) :
    ∃ h : Host β, Runs.Follows Machine.Allowed {} (Runs.observed Machine.step Machine.reply {} ops) h ∧
      (Runs.run Machine.step {} ops).fabric = h.fabric ∧
      ∀ path ∈ metadataPaths,
        (Runs.run Machine.step {} ops).disk.contents path = h.files.lookup path := by
  have hstep : ∀ (m : Machine β) (o : MachineOp β) (h : Host β), Machine.Matches m h →
      Machine.Plain o → ∃ h', Machine.Allowed h o (m.reply o) h' ∧ Machine.Matches (m.step o) h' :=
    fun _ _ _ hm ho => step_matches hm ho
  obtain ⟨h, hfollows, hmatches⟩ :=
    Runs.simulation hstep matches_empty (Runs.along_of_mem fun _ => hops)
  exact ⟨h, hfollows, hmatches.fabric, hmatches.files⟩

/-- A save that is granted, one that is cut short, and the recovery of the file. -/
def smallOps : List (MachineOp AnyBackend) :=
  [.exec .newCoordinatorEpoch,
    .save (ascii "m") [.granted 0, .granted 100000, .granted 0, .granted 0],
    .save (ascii "m") [.granted 0, .granted 10], .recover (ascii "m") 0]

theorem plain_smallOps : ∀ o ∈ smallOps, Machine.Plain o := by
  have hpath : ascii "m" ∈ metadataPaths := by
    show ¬ascii ".tmp" <:+ ascii "m"
    decide
  intro o ho
  simp only [smallOps, List.mem_cons, List.not_mem_nil, or_false] at ho
  obtain rfl | rfl | rfl | rfl := ho
  · trivial
  · exact hpath
  · exact hpath
  · exact hpath

theorem machine_is_host_small :
    ∃ h, Runs.Follows Machine.Allowed {} (Runs.observed Machine.step Machine.reply {} smallOps) h ∧
      (Runs.run Machine.step {} smallOps).fabric = h.fabric ∧
      ∀ path ∈ metadataPaths,
        (Runs.run Machine.step {} smallOps).disk.contents path = h.files.lookup path :=
  machine_is_host plain_smallOps

/-- What is in a file afterwards was there before, or is the snapshot that is being
saved to it. -/
theorem Machine.Allowed.source {h h' : Host β} {o : MachineOp β} {s : Option Status}
    (hstep : Machine.Allowed h o s h') {path : Bytes} (hpath : path ∈ metadataPaths) {bytes : Bytes}
    (hbytes : h'.files.lookup path = some bytes) :
    h.files.lookup path = some bytes ∨
      ∃ answers res, o = .save path answers ∧
        serializeSnapshot h.fabric.snapshot = .ok (res, bytes) := by
  have hsave : ∀ {path' : Bytes} {answers : List (Answer Bytes)} (fault : SaveFault),
      o = .save path' answers → (h.fabric.save path' fault h.files).2.2.lookup path = some bytes →
      h.files.lookup path = some bytes ∨ ∃ answers res, o = .save path answers ∧
        serializeSnapshot h.fabric.snapshot = .ok (res, bytes) := by
    intro path' answers fault ho hlookup
    cases hserial : serializeSnapshot h.fabric.snapshot with
    | error e =>
        simp only [Fabric.save, hserial] at hlookup
        exact .inl hlookup
    | ok p =>
        obtain ⟨res, blob⟩ := p
        rw [lookup_save path' hserial fault h.files hpath] at hlookup
        by_cases hwrites : fault = .none ∧ path = path'
        · rw [if_pos hwrites] at hlookup
          exact .inr ⟨answers, res, hwrites.2 ▸ ho, by rw [Option.some.inj hlookup]⟩
        · rw [if_neg hwrites] at hlookup
          exact .inl hlookup
  cases hstep with
  | exec => exact .inl hbytes
  | save fault hstatus => exact hsave fault rfl hbytes
  | saveNothing => exact .inl hbytes
  | saveAll hok => exact hsave .none rfl hbytes
  | recover hstatus => exact .inl hbytes
  | kill => exact .inl hbytes

theorem contents_run {m : Machine β} {h : Host β} (hm : Machine.Matches m h)
    {ops : List (MachineOp β)} (hops : ∀ o ∈ ops, Machine.Plain o) {path : Bytes}
    (hpath : path ∈ metadataPaths) {bytes : Bytes}
    (hbytes : (Runs.run Machine.step m ops).disk.contents path = some bytes) :
    m.disk.contents path = some bytes ∨
      ∃ x ∈ Runs.trace Machine.step m ops, (∃ answers, x.2 = .save path answers) ∧
        ∃ res, serializeSnapshot x.1.fabric.snapshot = .ok (res, bytes) := by
  induction ops generalizing m h with
  | nil => exact .inl hbytes
  | cons o ops ih =>
      obtain ⟨h', hallowed, hm'⟩ := step_matches hm (hops o List.mem_cons_self)
      obtain hnow | ⟨x, hx, hsaved⟩ :=
        ih hm' (fun o ho => hops o (List.mem_cons_of_mem _ ho)) hbytes
      · rw [hm'.files path hpath] at hnow
        obtain hold | ⟨answers, res, ho, hserial⟩ := hallowed.source hpath hnow
        · exact .inl ((hm.files path hpath).trans hold)
        · exact .inr ⟨(m, o), List.mem_cons_self, ⟨answers, ho⟩, res, hm.fabric ▸ hserial⟩
      · exact .inr ⟨x, List.mem_cons_of_mem _ hx, hsaved⟩

/-- No recovery opens a torn file: however saves are refused or cut short, what is under
a metadata path is the whole snapshot that the runtime had when it was saved there. -/
theorem metadata_never_torn {ops : List (MachineOp β)} (hops : ∀ o ∈ ops, Machine.Plain o)
    {path : Bytes} (hpath : path ∈ metadataPaths) {bytes : Bytes}
    (hbytes : (Runs.run Machine.step {} ops).disk.contents path = some bytes) :
    ∃ x ∈ Runs.trace Machine.step {} ops, (∃ answers, x.2 = .save path answers) ∧
      ∃ res, serializeSnapshot x.1.fabric.snapshot = .ok (res, bytes) := by
  obtain hnone | hsaved := contents_run matches_empty hops hpath hbytes
  · exact nomatch hnone
  · exact hsaved

theorem metadata_never_torn_small :
    ∃ bytes, (Runs.run Machine.step {} smallOps).disk.contents (ascii "m") = some bytes ∧
      ∃ x ∈ Runs.trace Machine.step {} smallOps, (∃ answers, x.2 = .save (ascii "m") answers) ∧
        ∃ res, serializeSnapshot x.1.fabric.snapshot = .ok (res, bytes) := by
  have hsome : ((Runs.run Machine.step {} smallOps).disk.contents (ascii "m")).isSome = true := by
    decide +kernel
  obtain ⟨bytes, hbytes⟩ := Option.isSome_iff_exists.mp hsome
  have hpath : ascii "m" ∈ metadataPaths := plain_smallOps _ (List.mem_cons_of_mem _ List.mem_cons_self)
  exact ⟨bytes, hbytes, metadata_never_torn plain_smallOps hpath hbytes⟩

end Runs

end StorageFabric
