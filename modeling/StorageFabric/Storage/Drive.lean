import StorageFabric.Lib.Replace
import StorageFabric.Lib.Simulation
import StorageFabric.Storage.Governed

/-!
The local backend call by call, on a disk.

`put` makes a temporary file beside the target, writes and flushes it and renames it
into place; any of these calls may be refused, and the process or the power may
fail between two of them. `Store` says what that comes to: the table of files of
`LocalBackend`, where a call that returns does what it says, a call that is cut short
does all of that or nothing, and a power failure takes the table back to an
earlier one.
-/

namespace StorageFabric

namespace LocalBackend

open PosixPath

/-! ### Temporary files -/

def fileName (p : Path) : Name := (names p).getLast?.getD []

def tempName (file : Name) (counter : UInt64) : Name :=
  ascii "." ++ file ++ ascii ".tmp." ++ decimal counter.toNat

def tempPath (target : Path) (counter : UInt64) : Path :=
  append (parentPath target) (tempName (fileName target) counter)

/-- The key of a file that could be a temporary one. -/
def TempKey (key : Bytes) : Prop := ∃ file counter, fileName key = tempName file counter

theorem fileName_append {p n : Path} (hp : p ≠ []) (hn : 47 ∉ n) (habs : isAbsolute n = false) :
    fileName (append p n) = n := by
  rw [fileName, getLast?_names_append hp habs, names_name hn]
  rfl

theorem noSlash_fileName (p : Path) : 47 ∉ fileName p := by
  rw [fileName]
  cases hlast : (names p).getLast? with
  | none => simp
  | some n => exact noSlash_of_mem_names (List.mem_of_getLast? hlast)

theorem noSlash_decimal (n : Nat) : 47 ∉ decimal n := by
  unfold decimal
  split
  · decide
  · intro h
    obtain ⟨d, hd, heq⟩ := List.mem_map.mp h
    have hlt := Nat.digits_lt_base (by omega : 1 < 10) (List.mem_reverse.mp hd)
    have hval := congrArg UInt8.toNat heq
    rw [UInt8.toNat_ofNat'] at hval
    have : (47 : UInt8).toNat = 47 := rfl
    omega

theorem noSlash_tempName {file : Name} (h : 47 ∉ file) (counter : UInt64) :
    47 ∉ tempName file counter := by
  have hdot : (47 : UInt8) ∉ ascii "." := by decide
  have htmp : (47 : UInt8) ∉ ascii ".tmp." := by decide
  simp only [tempName, List.mem_append, not_or]
  exact ⟨⟨⟨hdot, h⟩, htmp⟩, noSlash_decimal _⟩

theorem fileName_tempPath {target : Path} (h : 47 ∈ target) (counter : UInt64) :
    fileName (tempPath target counter) = tempName (fileName target) counter :=
  fileName_append (parentPath_ne_nil h) (noSlash_tempName (noSlash_fileName _) _) rfl

section Target

variable {root : Path} (hroot : isAbsolute root = true) {key : Bytes} (h : GovernedKey key)

include hroot h

theorem slash_mem_targetPath : 47 ∈ targetPath root key := by
  rw [targetPath_eq hroot h]
  simp

theorem fileName_targetPath : fileName (targetPath root key) = fileName key := by
  rw [fileName, targetPath_eq hroot h, names_append_slash,
    List.getLast?_append_of_ne_nil _ (names_ne_nil key), fileName]

end Target

/-- The files under governed keys that no temporary file could have. -/
def finalPaths (root : Path) : Set Path :=
  {p | ∃ key, GovernedKey key ∧ ¬TempKey key ∧ p = targetPath root key}

theorem tempPath_notMem_finalPaths {root : Path} (hroot : isAbsolute root = true) {key : Bytes}
    (h : GovernedKey key) (counter : UInt64) :
    tempPath (targetPath root key) counter ∉ finalPaths root := by
  rintro ⟨key', h', htemp, heq⟩
  refine htemp ⟨fileName (targetPath root key), counter, ?_⟩
  rw [← fileName_targetPath hroot h', ← heq, fileName_tempPath (slash_mem_targetPath hroot h)]

/-- How a file is put under the target. What the error of a refused flush says is up to
the call that is refused, opening the file again or flushing it. -/
def putRecipe (target : Path) (counter : UInt64) (data : Bytes) : Recipe Path UInt8 Bytes Status where
  temp := tempPath target counter
  target := target
  data := data
  openError := .of .ioError "cannot create temp file"
  writeError := .of .ioError "temp write failed"
  cleansWrite := true
  syncError := some fun message => ⟨.ioError, message⟩
  renameError message _ := ⟨.ioError, ascii "rename failed: " ++ message⟩

end LocalBackend

open LocalBackend

/-- A process with a local backend, whose root is an absolute path. -/
structure Drive where
  root : PosixPath.Path
  disk : Disk PosixPath.Path UInt8 := {}
  /-- `g_temp_counter`. -/
  counter : UInt64 := 0

inductive DriveEvent
  /-- The answers to the calls that `put` gets to make. -/
  | put (data key : Bytes) (answers : List (Answer Bytes))
  /-- The answer to the one call of `remove`, and whether it returns after it. -/
  | remove (key : Bytes) (answer : Answer Bytes) (returns : Bool)
  /-- The process ends between two calls. -/
  | kill
  | powerFailure (back : Nat) (junk : Nat → Bytes)

inductive DriveReply
  | put (r : Result UInt64)
  | remove (s : Status)
  deriving DecidableEq

namespace Drive

/-- What `put` returns, from what the replacement of the file does. -/
def putResult (data : Bytes) : Except Status Unit → Result UInt64
  | .ok _ => .ok (UInt64.ofNat data.length)
  | .error s => .error s

/-- The call, and the drive it leaves. A call that does not return is the end of the process. -/
def put (d : Drive) (data key : Bytes) (answers : List (Answer Bytes)) :
    Option (Result UInt64) × Drive :=
  match resolveKeyPath none d.root key with
  | .error s => (some (.error s), d)
  | .ok target =>
      let (disk, phase) := Runs.run (putRecipe target d.counter data).turn (d.disk, .toOpen) answers
      match phase.reply with
      | some res => (some (putResult data res), { d with disk, counter := d.counter + 1 })
      | none => (none, { d with disk, counter := 0 })

def remove (d : Drive) (key : Bytes) (answer : Answer Bytes) (returns : Bool) :
    Option Status × Drive :=
  match resolveKeyPath none d.root key with
  | .error s => (some s, d)
  | .ok target =>
      let (s, disk) := match answer with
        | .granted _ => (Status.okStatus, d.disk.unlink target)
        | .refused message => (⟨.ioError, ascii "remove failed: " ++ message⟩, d.disk)
      if returns then (some s, { d with disk }) else (none, { d with disk, counter := 0 })

def step (d : Drive) : DriveEvent → Drive
  | .put data key answers => (d.put data key answers).2
  | .remove key answer returns => (d.remove key answer returns).2
  | .kill => { d with counter := 0 }
  | .powerFailure back junk => { d with disk := d.disk.lose back junk, counter := 0 }

def reply (d : Drive) : DriveEvent → Option DriveReply
  | .put data key answers => (d.put data key answers).1.map .put
  | .remove key answer returns => (d.remove key answer returns).1.map .remove
  | .kill => none
  | .powerFailure _ _ => none

def view (d : Drive) (key : Bytes) : Option Bytes := d.disk.contents (targetPath d.root key)

end Drive

/-! ### What it comes to -/

/-- The files as a table, and as they were since the last power failure. -/
structure Store where
  now : LocalBackend := {}
  past : List LocalBackend := []

namespace Store

def become (s : Store) (b : LocalBackend) : Store := ⟨b, s.now :: s.past⟩

inductive Step : Store → DriveEvent → Option DriveReply → Store → Prop
  /-- A put that returns does and says what `LocalBackend.put` does and says. -/
  | put {s : Store} {data key : Bytes} {answers : List (Answer Bytes)} {r : Result UInt64}
      {b : LocalBackend} (fault : Option Bytes)
      (h : LocalBackend.put { s.now with writeFault := fault } data key = (r, b)) :
      Step s (.put data key answers) (some (.put r)) (s.become b)
  /-- A put that is cut short has done nothing, -/
  | putNothing {s : Store} {data key : Bytes} {answers : List (Answer Bytes)} :
      Step s (.put data key answers) none s
  /-- or all that it was to do. -/
  | putAll {s : Store} {data key : Bytes} {answers : List (Answer Bytes)} {n : UInt64}
      {b : LocalBackend} (h : LocalBackend.put { s.now with writeFault := none } data key = (.ok n, b)) :
      Step s (.put data key answers) none (s.become b)
  | remove {s : Store} {key : Bytes} {answer : Answer Bytes} {returns : Bool} {status : Status}
      {b : LocalBackend} (fault : Option Bytes)
      (h : LocalBackend.remove { s.now with removeFault := fault } key = (status, b)) :
      Step s (.remove key answer returns) (some (.remove status)) (s.become b)
  | removeNothing {s : Store} {key : Bytes} {answer : Answer Bytes} {returns : Bool} :
      Step s (.remove key answer returns) none s
  | removeAll {s : Store} {key : Bytes} {answer : Answer Bytes} {returns : Bool} {status : Status}
      {b : LocalBackend}
      (h : LocalBackend.remove { s.now with removeFault := none } key = (status, b)) :
      Step s (.remove key answer returns) none (s.become b)
  | kill {s : Store} : Step s .kill none s
  /-- The files are as they were at some moment since the last power failure. -/
  | powerFailure {s : Store} {back : Nat} {junk : Nat → Bytes} {b : LocalBackend}
      (h : b ∈ s.now :: s.past) : Step s (.powerFailure back junk) none ⟨b, []⟩

end Store

/-! ### The refinement -/

/-- The table shows what the disk does, under governed keys that no temporary file could
have. -/
def Shows (root : PosixPath.Path) (f : PosixPath.Path → Option Bytes) (b : LocalBackend) : Prop :=
  ∀ key, GovernedKey key → ¬TempKey key → f (targetPath root key) = b.files.lookup key

theorem Shows.congr {root : PosixPath.Path} {f g : PosixPath.Path → Option Bytes} {b : LocalBackend}
    (h : Shows root g b) (hfg : Set.EqOn f g (finalPaths root)) : Shows root f b :=
  fun key hkey htemp => (hfg ⟨key, hkey, htemp, rfl⟩).trans (h key hkey htemp)

/-- The drive has come to what the store says. -/
structure Refines (d : Drive) (s : Store) : Prop where
  rooted : PosixPath.isAbsolute d.root = true
  apart : d.disk.Apart (finalPaths d.root)
  isSealed : d.disk.Sealed (finalPaths d.root)
  now : Shows d.root d.disk.contents s.now
  before : ∀ p ∈ d.disk.dirs, ∃ b ∈ s.now :: s.past, Shows d.root (d.disk.seen p) b

namespace Refines

theorem become {d : Drive} {s : Store} (h : Refines d s) {disk : Disk PosixPath.Path UInt8}
    (hapart : disk.Apart (finalPaths d.root)) (hsealed : disk.Sealed (finalPaths d.root))
    {f : PosixPath.Path → Option Bytes} (hbecomes : Disk.Becomes (finalPaths d.root) d.disk f disk)
    {b : LocalBackend} (hf : Shows d.root f b) (counter : UInt64) :
    Refines { d with disk, counter } (s.become b) := by
  refine ⟨h.rooted, hapart, hsealed, hf.congr hbecomes.now, fun p hp => ?_⟩
  obtain hnew | ⟨q, hq, hpq⟩ := hbecomes.before p hp
  · exact ⟨b, List.mem_cons_self, hf.congr hnew⟩
  · obtain ⟨c, hc, hshows⟩ := h.before q hq
    exact ⟨c, List.mem_cons_of_mem b hc, hshows.congr hpq⟩

theorem still {d : Drive} {s : Store} (h : Refines d s) {disk : Disk PosixPath.Path UInt8}
    (hscratch : Disk.Scratch (finalPaths d.root) d.disk disk) (counter : UInt64) :
    Refines { d with disk, counter } s := by
  refine ⟨h.rooted, hscratch.apart, hscratch.isSealed h.isSealed,
    h.now.congr hscratch.becomes.now, fun p hp => ?_⟩
  obtain hnow | ⟨q, hq, hpq⟩ := hscratch.becomes.before p hp
  · exact ⟨s.now, List.mem_cons_self, h.now.congr hnow⟩
  · obtain ⟨b, hb, hshows⟩ := h.before q hq
    exact ⟨b, hb, hshows.congr hpq⟩

theorem same {d : Drive} {s : Store} (h : Refines d s) (b : LocalBackend)
    (hb : b.files = s.now.files) {disk : Disk PosixPath.Path UInt8}
    (hscratch : Disk.Scratch (finalPaths d.root) d.disk disk) (counter : UInt64) :
    Refines { d with disk, counter } (s.become b) :=
  h.become hscratch.apart (hscratch.isSealed h.isSealed) hscratch.becomes
    (fun key hkey htemp => hb ▸ h.now key hkey htemp) counter

end Refines

theorem governed_of_resolveKey {key target : Bytes} (h : resolveKey key = .ok target) :
    GovernedKey key := by
  unfold resolveKey at h
  by_cases hk : (validateGovernedKey key).isOk = true
  · exact validateGovernedKey_isOk_iff.mp hk
  · simp [hk] at h

theorem errs_putRecipe (target : PosixPath.Path) (counter : UInt64) (data : Bytes) :
    (putRecipe target counter data).Errs fun s => s.code = .ioError := by
  refine ⟨rfl, rfl, fun error herror message => ?_, fun _ _ => rfl⟩
  obtain rfl := Option.some.inj herror
  rfl

theorem Shows.put {root : PosixPath.Path} (hroot : PosixPath.isAbsolute root = true)
    {f : PosixPath.Path → Option Bytes} {b : LocalBackend} (h : Shows root f b) {key : Bytes}
    (hkey : GovernedKey key) (data : Bytes) (fault : Option Bytes) :
    Shows root (Function.update f (targetPath root key) (some data))
      { b with writeFault := fault, files := b.files.insert key data } := by
  intro key' hkey' htemp
  show _ = (b.files.insert key data).lookup key'
  rw [AList.lookup_insert_eq]
  by_cases heq : key' = key
  · rw [heq, Function.update_self, if_pos rfl]
  · have hne : targetPath root key' ≠ targetPath root key :=
      fun hsame => heq (targetPath_injective hroot hkey' hkey hsame)
    rw [Function.update_of_ne hne, if_neg heq, h key' hkey' htemp]

theorem Shows.remove {root : PosixPath.Path} (hroot : PosixPath.isAbsolute root = true)
    {f : PosixPath.Path → Option Bytes} {b : LocalBackend} (h : Shows root f b) {key : Bytes}
    (hkey : GovernedKey key) (fault : Option Bytes) :
    Shows root (Function.update f (targetPath root key) none)
      { b with removeFault := fault, files := b.files.erase key } := by
  intro key' hkey' htemp
  show _ = (b.files.erase key).lookup key'
  rw [AList.lookup_erase_eq]
  by_cases heq : key' = key
  · rw [heq, Function.update_self, if_pos rfl]
  · have hne : targetPath root key' ≠ targetPath root key :=
      fun hsame => heq (targetPath_injective hroot hkey' hkey hsame)
    rw [Function.update_of_ne hne, if_neg heq, h key' hkey' htemp]

/-! ### One step -/

theorem Drive.put_of_error {d : Drive} (hroot : PosixPath.isAbsolute d.root = true) {key : Bytes}
    {e : Status} (h : resolveKey key = .error e) (data : Bytes) (answers : List (Answer Bytes)) :
    d.put data key answers = (some (.error e), d) := by
  simp [Drive.put, resolveKeyPath_eq hroot, h, Except.map]

theorem Drive.put_of_ok {d : Drive} (hroot : PosixPath.isAbsolute d.root = true) {key : Bytes}
    (h : resolveKey key = .ok key) {data : Bytes} {answers : List (Answer Bytes)}
    {disk : Disk PosixPath.Path UInt8} {phase : Recipe.Phase UInt8 Bytes Status}
    (hrun : Runs.run (putRecipe (targetPath d.root key) d.counter data).turn (d.disk, .toOpen)
      answers = (disk, phase)) :
    d.put data key answers =
      (phase.reply.map (Drive.putResult data),
        { d with disk, counter := if phase.reply.isSome then d.counter + 1 else 0 }) := by
  simp only [Drive.put, resolveKeyPath_eq hroot, h, Except.map, hrun]
  cases phase.reply <;> rfl

theorem Drive.remove_of_error {d : Drive} (hroot : PosixPath.isAbsolute d.root = true)
    {key : Bytes} {e : Status} (h : resolveKey key = .error e) (answer : Answer Bytes)
    (returns : Bool) : d.remove key answer returns = (some e, d) := by
  simp [Drive.remove, resolveKeyPath_eq hroot, h, Except.map]

/-- No put is under a key that a temporary file could have. -/
def Drive.Plain : DriveEvent → Prop
  | .put _ key _ => ¬TempKey key
  | _ => True

section Steps

variable {d : Drive} {s : Store} (h : Refines d s)

include h

theorem put_refines {key : Bytes} (htemp : ¬TempKey key) (data : Bytes)
    (answers : List (Answer Bytes)) :
    ∃ s', Store.Step s (.put data key answers) ((d.put data key answers).1.map .put) s' ∧
      Refines (d.put data key answers).2 s' := by
  cases hkey : resolveKey key with
  | error e =>
      rw [Drive.put_of_error h.rooted hkey]
      have hput : LocalBackend.put { s.now with writeFault := none } data key =
          (.error e, { s.now with writeFault := none }) := by simp [LocalBackend.put, hkey]
      exact ⟨_, .put none hput,
        h.same { s.now with writeFault := none } rfl (.rfl h.apart) d.counter⟩
  | ok target =>
      have hgov := governed_of_resolveKey hkey
      obtain rfl := eq_of_resolveKey hkey
      generalize hrun : Runs.run (putRecipe (targetPath d.root target) d.counter data).turn
        (d.disk, .toOpen) answers = outcome
      obtain ⟨disk, phase⟩ := outcome
      rw [Drive.put_of_ok h.rooted hkey hrun]
      have hcases := Recipe.run_cases (tempPath_notMem_finalPaths h.rooted hgov d.counter)
        (⟨target, hgov, htemp, rfl⟩ : targetPath d.root target ∈ finalPaths d.root) h.apart answers hrun
      have hput : LocalBackend.put { s.now with writeFault := none } data target =
          (.ok (UInt64.ofNat data.length),
            { s.now with writeFault := none, files := s.now.files.insert target data }) := by
        simp [LocalBackend.put, hkey]
      have hdone : Recipe.Replaced (finalPaths d.root)
          (putRecipe (targetPath d.root target) d.counter data) d.disk disk → ∀ counter,
          Refines { d with disk, counter } (s.become
            { s.now with writeFault := none, files := s.now.files.insert target data }) :=
        fun hreplaced => h.become hreplaced.apart (hreplaced.isSealed rfl h.isSealed)
          hreplaced.becomes (h.now.put h.rooted hgov data none)
      cases hreply : phase.reply with
      | none =>
          rw [hreply] at hcases
          -- killed: either after the rename or before it
          obtain hreplaced | hscratch := hcases
          · exact ⟨_, .putAll hput, hdone hreplaced 0⟩
          · exact ⟨_, .putNothing, h.still hscratch 0⟩
      | some res =>
          rw [hreply] at hcases
          cases res with
          | ok _ => exact ⟨_, .put none hput, hdone hcases (d.counter + 1)⟩
          | error e =>
              have hcode : e.code = .ioError :=
                Recipe.errs_run (errs_putRecipe _ _ _) d.disk answers (by rw [hrun, hreply])
              have hfault : LocalBackend.put { s.now with writeFault := some e.message } data target =
                  (.error e, { s.now with writeFault := some e.message }) := by
                obtain ⟨code, message⟩ := e
                obtain rfl : code = .ioError := hcode
                simp [LocalBackend.put, hkey, Result.failure]
              exact ⟨_, .put _ hfault,
                h.same { s.now with writeFault := some e.message } rfl hcases (d.counter + 1)⟩

theorem remove_refines (key : Bytes) (answer : Answer Bytes) (returns : Bool) :
    ∃ s', Store.Step s (.remove key answer returns) ((d.remove key answer returns).1.map .remove) s' ∧
      Refines (d.remove key answer returns).2 s' := by
  cases hkey : resolveKey key with
  | error e =>
      rw [Drive.remove_of_error h.rooted hkey]
      have hremove : LocalBackend.remove { s.now with removeFault := none } key =
          (e, { s.now with removeFault := none }) := by simp [LocalBackend.remove, hkey]
      exact ⟨_, .remove none hremove,
        h.same { s.now with removeFault := none } rfl (.rfl h.apart) d.counter⟩
  | ok target =>
      have hgov := governed_of_resolveKey hkey
      obtain rfl := eq_of_resolveKey hkey
      have hpath : resolveKeyPath none d.root target = .ok (targetPath d.root target) := by
        simp [resolveKeyPath_eq h.rooted, hkey, Except.map]
      cases answer with
      | granted n =>
          have hremove : LocalBackend.remove { s.now with removeFault := none } target =
              (.okStatus, { s.now with removeFault := none, files := s.now.files.erase target }) := by
            simp [LocalBackend.remove, hkey]
          obtain ⟨hapart, hbecomes, hsealed⟩ := h.apart.unlink (targetPath d.root target)
          -- the file is gone whether or not the caller hears of it
          have hdone : ∀ counter, Refines
              { d with disk := d.disk.unlink (targetPath d.root target), counter }
              (s.become { s.now with removeFault := none, files := s.now.files.erase target }) :=
            h.become hapart (hsealed h.isSealed) hbecomes (h.now.remove h.rooted hgov none)
          cases returns with
          | true =>
              simp only [Drive.remove, hpath, if_true]
              exact ⟨_, .remove none hremove, hdone d.counter⟩
          | false =>
              simp only [Drive.remove, hpath, Bool.false_eq_true, if_false]
              exact ⟨_, .removeAll hremove, hdone 0⟩
      | refused message =>
          have hremove : LocalBackend.remove { s.now with removeFault := some message } target =
              (⟨.ioError, ascii "remove failed: " ++ message⟩,
                { s.now with removeFault := some message }) := by
            simp [LocalBackend.remove, hkey]
          cases returns with
          | true =>
              simp only [Drive.remove, hpath, if_true]
              exact ⟨_, .remove _ hremove,
                h.same { s.now with removeFault := some message } rfl (.rfl h.apart) d.counter⟩
          | false =>
              simp only [Drive.remove, hpath, Bool.false_eq_true, if_false]
              exact ⟨_, .removeNothing, h.still (.rfl h.apart) 0⟩

theorem step_refines {e : DriveEvent} (he : Drive.Plain e) :
    ∃ s', Store.Step s e (d.reply e) s' ∧ Refines (d.step e) s' := by
  cases e with
  | put data key answers => exact put_refines h he data answers
  | remove key answer returns => exact remove_refines h key answer returns
  | kill => exact ⟨s, .kill, h.still (.rfl h.apart) 0⟩
  | powerFailure back junk =>
      obtain ⟨hapart, hsealed, q, hq, hdirs, hcontents⟩ := h.apart.lose h.isSealed back junk
      obtain ⟨b, hb, hshows⟩ := h.before q hq
      refine ⟨⟨b, []⟩, .powerFailure hb, h.rooted, hapart, hsealed, hshows.congr hcontents, ?_⟩
      intro p hp
      obtain rfl := List.mem_singleton.mp (hdirs ▸ hp)
      exact ⟨b, List.mem_cons_self, hshows.congr hcontents⟩

end Steps

/-! ### Runs -/

def freshDrive (root : PosixPath.Path) : Drive := { root := root }

theorem refines_fresh {root : PosixPath.Path} (hroot : PosixPath.isAbsolute root = true) :
    Refines (freshDrive root) {} := by
  have hnone : Shows root ({} : Disk PosixPath.Path UInt8).contents {} := fun _ _ _ => rfl
  refine ⟨hroot, Disk.apart_empty, Disk.sealed_empty, hnone, fun p hp => ?_⟩
  obtain rfl := List.mem_singleton.mp hp
  exact ⟨{}, List.mem_cons_self, hnone⟩

theorem refines_run {d : Drive} {s : Store} (h : Refines d s) {es : List DriveEvent}
    (hes : ∀ e ∈ es, Drive.Plain e) :
    ∃ s', Runs.Follows Store.Step s (Runs.observed Drive.step Drive.reply d es) s' ∧
      Refines (Runs.run Drive.step d es) s' := by
  have hstep : ∀ (d : Drive) (e : DriveEvent) (s : Store), Refines d s → Drive.Plain e →
      ∃ s', Store.Step s e (d.reply e) s' ∧ Refines (d.step e) s' :=
    fun _ _ _ h he => step_refines h he
  exact Runs.simulation hstep h (Runs.along_of_mem fun _ => hes)

/-- Whatever the operating system answers, wherever the process is killed and the power
fails, the calls of the backend do and return what the table of files allows, and the
files under governed keys are the table. -/
theorem drive_refines_store {root : PosixPath.Path} (hroot : PosixPath.isAbsolute root = true)
    {es : List DriveEvent} (hes : ∀ e ∈ es, Drive.Plain e) :
    ∃ s, Runs.Follows Store.Step {} (Runs.observed Drive.step Drive.reply (freshDrive root) es) s ∧
      ∀ key, GovernedKey key → ¬TempKey key →
        (Runs.run Drive.step (freshDrive root) es).view key = s.now.files.lookup key := by
  obtain ⟨s, hfollows, hrefines⟩ := refines_run (refines_fresh hroot) hes
  exact ⟨s, hfollows, hrefines.now⟩

/-! ### A small run -/

/-- A put that succeeds, one that is cut short while it writes, and a power failure. -/
def smallEvents : List DriveEvent :=
  [.put [1, 2, 3] (ascii "blobs/blob-1") [.granted 0, .granted 2, .granted 1, .granted 0, .granted 0,
    .granted 0], .put [4, 5] (ascii "blobs/blob-1") [.granted 0, .granted 1], .powerFailure 1 fun _ => []]

theorem not_tempKey {key : Bytes} (h : (fileName key).head? ≠ some 46) : ¬TempKey key := by
  rintro ⟨file, counter, heq⟩
  rw [heq] at h
  exact h rfl

theorem not_tempKey_small : ¬TempKey (ascii "blobs/blob-1") := not_tempKey (by decide +kernel)

theorem governed_small : GovernedKey (ascii "blobs/blob-1") :=
  validateGovernedKey_isOk_iff.mp (by decide +kernel)

theorem plain_smallEvents : ∀ e ∈ smallEvents, Drive.Plain e := by
  intro e he
  simp only [smallEvents, List.mem_cons, List.not_mem_nil, or_false] at he
  obtain rfl | rfl | rfl := he
  · exact not_tempKey_small
  · exact not_tempKey_small
  · trivial

theorem drive_refines_store_small :
    ∃ s, Runs.Follows Store.Step {}
        (Runs.observed Drive.step Drive.reply (freshDrive (ascii "/srv")) smallEvents) s ∧
      ∀ key, GovernedKey key → ¬TempKey key →
        (Runs.run Drive.step (freshDrive (ascii "/srv")) smallEvents).view key =
          s.now.files.lookup key :=
  drive_refines_store (by decide) plain_smallEvents

/-! ### What the store keeps -/

theorem files_put {b b' : LocalBackend} {fault : Option Bytes} {data key : Bytes}
    {r : Result UInt64} (h : LocalBackend.put { b with writeFault := fault } data key = (r, b')) :
    b'.files = b.files.insert key data ∨ b'.files = b.files ∧ ∀ n, r ≠ .ok n := by
  unfold LocalBackend.put at h
  cases hkey : resolveKey key with
  | error e =>
      simp only [hkey, Prod.mk.injEq] at h
      obtain ⟨rfl, rfl⟩ := h
      exact .inr ⟨rfl, fun _ => nofun⟩
  | ok target =>
      obtain rfl := eq_of_resolveKey hkey
      cases fault with
      | none =>
          simp only [hkey, Prod.mk.injEq] at h
          obtain ⟨-, rfl⟩ := h
          exact .inl rfl
      | some message =>
          simp only [hkey, Prod.mk.injEq] at h
          obtain ⟨rfl, rfl⟩ := h
          exact .inr ⟨rfl, fun _ => nofun⟩

theorem files_remove {b b' : LocalBackend} {fault : Option Bytes} {key : Bytes} {status : Status}
    (h : LocalBackend.remove { b with removeFault := fault } key = (status, b')) :
    b'.files = b.files.erase key ∨ b'.files = b.files := by
  unfold LocalBackend.remove at h
  cases hkey : resolveKey key with
  | error e =>
      simp only [hkey, Prod.mk.injEq] at h
      obtain ⟨-, rfl⟩ := h
      exact .inr rfl
  | ok target =>
      obtain rfl := eq_of_resolveKey hkey
      cases fault with
      | none =>
          simp only [hkey, Prod.mk.injEq] at h
          obtain ⟨-, rfl⟩ := h
          exact .inl rfl
      | some message =>
          simp only [hkey, Prod.mk.injEq] at h
          obtain ⟨-, rfl⟩ := h
          exact .inr rfl

theorem Store.Step.source {s s' : Store} {e : DriveEvent} {o : Option DriveReply}
    (h : Store.Step s e o s') {b : LocalBackend} (hb : b ∈ s'.now :: s'.past) {key data : Bytes}
    (hdata : b.files.lookup key = some data) :
    (∃ c ∈ s.now :: s.past, c.files.lookup key = some data) ∨
      ∃ answers, e = .put data key answers := by
  -- what a `put` adds to the files is what it was called with
  have hput : ∀ {answers : List (Answer Bytes)} {data' key' : Bytes} {c : LocalBackend},
      e = .put data' key' answers → b ∈ c :: s.now :: s.past →
      c.files = s.now.files.insert key' data' ∨ c.files = s.now.files →
      (∃ c ∈ s.now :: s.past, c.files.lookup key = some data) ∨
        ∃ answers, e = .put data key answers := by
    intro answers data' key' c he hmem hc
    obtain rfl | hmem := List.mem_cons.mp hmem
    · obtain hc | hc := hc
      · rw [hc, AList.lookup_insert_eq] at hdata
        by_cases hkey : key = key'
        · rw [if_pos hkey] at hdata
          obtain rfl := Option.some.inj hdata
          exact .inr ⟨answers, hkey ▸ he⟩
        · rw [if_neg hkey] at hdata
          exact .inl ⟨s.now, List.mem_cons_self, hdata⟩
      · exact .inl ⟨s.now, List.mem_cons_self, hc ▸ hdata⟩
    · exact .inl ⟨b, hmem, hdata⟩
  have hremove : ∀ {key' : Bytes} {c : LocalBackend}, b ∈ c :: s.now :: s.past →
      c.files = s.now.files.erase key' ∨ c.files = s.now.files →
      ∃ c ∈ s.now :: s.past, c.files.lookup key = some data := by
    intro key' c hmem hc
    obtain rfl | hmem := List.mem_cons.mp hmem
    · obtain hc | hc := hc
      · rw [hc, AList.lookup_erase_eq] at hdata
        exact ⟨s.now, List.mem_cons_self, by grind⟩
      · exact ⟨s.now, List.mem_cons_self, hc ▸ hdata⟩
    · exact ⟨b, hmem, hdata⟩
  cases h with
  | put fault h => exact hput rfl hb ((files_put h).imp_right And.left)
  | putNothing => exact .inl ⟨b, hb, hdata⟩
  | putAll h => exact hput rfl hb ((files_put h).imp_right And.left)
  | remove fault h => exact .inl (hremove hb (files_remove h))
  | removeNothing => exact .inl ⟨b, hb, hdata⟩
  | removeAll h => exact .inl (hremove hb (files_remove h))
  | kill => exact .inl ⟨b, hb, hdata⟩
  | powerFailure h =>
      obtain rfl := List.mem_singleton.mp hb
      exact .inl ⟨b, h, hdata⟩

/-- Nothing is torn: through all faults, kills and power failures, what is in a file
under a governed key is what one put was given for it. -/
theorem drive_not_torn {root : PosixPath.Path} (hroot : PosixPath.isAbsolute root = true)
    {es : List DriveEvent} (hes : ∀ e ∈ es, Drive.Plain e) {key data : Bytes}
    (hkey : GovernedKey key) (htemp : ¬TempKey key)
    (hview : (Runs.run Drive.step (freshDrive root) es).view key = some data) :
    ∃ answers, .put data key answers ∈ es := by
  obtain ⟨s, hfollows, hrefines⟩ := refines_run (refines_fresh hroot) hes
  have hput : ∀ b ∈ s.now :: s.past, ∀ data, b.files.lookup key = some data →
      ∃ answers, .put data key answers ∈ es := by
    refine hfollows.invariant (I := fun s => ∀ b ∈ s.now :: s.past, ∀ data,
      b.files.lookup key = some data → ∃ answers, .put data key answers ∈ es)
      (fun t u x hx hI hstep b hb data hdata => ?_) fun b hb data hdata => ?_
    · obtain ⟨c, hc, hdata⟩ | ⟨answers, heq⟩ := hstep.source hb hdata
      · exact hI c hc data hdata
      · exact ⟨answers, heq ▸ Runs.mem_of_mem_observed hx⟩
    · obtain rfl := List.mem_singleton.mp hb
      exact nomatch hdata
  exact hput s.now List.mem_cons_self data ((hrefines.now key hkey htemp).symm.trans hview)

theorem drive_not_torn_small :
    ∃ answers, .put [1, 2, 3] (ascii "blobs/blob-1") answers ∈ smallEvents := by
  have hview : (Runs.run Drive.step (freshDrive (ascii "/srv")) smallEvents).view
      (ascii "blobs/blob-1") = some [1, 2, 3] := by decide +kernel
  exact drive_not_torn (by decide) plain_smallEvents governed_small not_tempKey_small hview

/-- The event is no call for the key, and the power does not fail. -/
def DriveEvent.Spares (key : Bytes) : DriveEvent → Prop
  | .put _ key' _ => key' ≠ key
  | .remove key' _ _ => key' ≠ key
  | .kill => True
  | .powerFailure _ _ => False

theorem Store.Step.spared {s s' : Store} {e : DriveEvent} {o : Option DriveReply}
    (h : Store.Step s e o s') {key : Bytes} (he : e.Spares key) :
    s'.now.files.lookup key = s.now.files.lookup key := by
  have hput : ∀ {key' data : Bytes} {c : LocalBackend}, key' ≠ key →
      c.files = s.now.files.insert key' data ∨ c.files = s.now.files →
      c.files.lookup key = s.now.files.lookup key := by
    rintro key' data c hne (hc | hc)
    · rw [hc, AList.lookup_insert_eq, if_neg hne.symm]
    · rw [hc]
  have hremove : ∀ {key' : Bytes} {c : LocalBackend}, key' ≠ key →
      c.files = s.now.files.erase key' ∨ c.files = s.now.files →
      c.files.lookup key = s.now.files.lookup key := by
    rintro key' c hne (hc | hc)
    · rw [hc, AList.lookup_erase_eq, if_neg hne.symm]
    · rw [hc]
  cases h with
  | put fault h => exact hput he ((files_put h).imp_right And.left)
  | putNothing => rfl
  | putAll h => exact hput he ((files_put h).imp_right And.left)
  | remove fault h => exact hremove he (files_remove h)
  | removeNothing => rfl
  | removeAll h => exact hremove he (files_remove h)
  | kill => rfl
  | powerFailure h => exact he.elim

theorem put_granted {d : Drive} (hroot : PosixPath.isAbsolute d.root = true) {key : Bytes}
    (hkey : GovernedKey key) {data : Bytes} {counts : List Nat} (hpos : ∀ n ∈ counts, 0 < n)
    (hlength : data.length + 5 ≤ counts.length) :
    d.reply (.put data key (counts.map .granted)) =
      some (.put (.ok (UInt64.ofNat data.length))) := by
  have hresolve : resolveKey key = .ok key := by
    simp [resolveKey, validateGovernedKey_isOk_iff.mpr hkey]
  have hrun := Recipe.run_granted (putRecipe (targetPath d.root key) d.counter data) d.disk hpos hlength
  generalize heq : Runs.run (putRecipe (targetPath d.root key) d.counter data).turn
    (d.disk, .toOpen) (counts.map .granted) = outcome at hrun
  simp only [Drive.reply, Drive.put_of_ok hroot hresolve heq, hrun]
  rfl

/-- A put that has returned success stays: no other call, no refused one, no call cut
short and no kill takes the file away or changes it. -/
theorem acknowledged_put_stays {root : PosixPath.Path} (hroot : PosixPath.isAbsolute root = true)
    {before after : List DriveEvent} (hbefore : ∀ e ∈ before, Drive.Plain e) {data key : Bytes}
    (hkey : GovernedKey key) (htemp : ¬TempKey key) {answers : List (Answer Bytes)} {n : UInt64}
    (hreply : (Runs.run Drive.step (freshDrive root) before).reply (.put data key answers) =
      some (.put (.ok n)))
    (hafter : ∀ e ∈ after, Drive.Plain e ∧ e.Spares key) :
    (Runs.run Drive.step (freshDrive root) (before ++ .put data key answers :: after)).view key =
      some data := by
  obtain ⟨s, -, hrefines⟩ := refines_run (refines_fresh hroot) hbefore
  rw [Runs.run_append, Runs.run_cons]
  generalize Runs.run Drive.step (freshDrive root) before = d at hreply hrefines
  obtain ⟨t, hstep, ht⟩ := step_refines (e := .put data key answers) hrefines htemp
  have hput : t.now.files.lookup key = some data := by
    rw [hreply] at hstep
    cases hstep with
    | put fault h =>
        obtain hfiles | ⟨-, hno⟩ := files_put h
        · show AList.lookup key _ = _
          rw [Store.become, hfiles, AList.lookup_insert]
        · exact absurd rfl (hno n)
  obtain ⟨u, hfollows, hu⟩ := refines_run ht fun e he => (hafter e he).1
  have hkept : u.now.files.lookup key = some data :=
    hfollows.invariant (I := fun s => s.now.files.lookup key = some data)
      (fun _ _ x hx hI hone => (hone.spared (hafter x.1 (Runs.mem_of_mem_observed hx)).2).trans hI)
      hput
  exact (hu.now key hkey htemp).trans hkept

theorem acknowledged_put_stays_small :
    (Runs.run Drive.step (freshDrive (ascii "/srv"))
      ([] ++ .put [1, 2, 3] (ascii "blobs/blob-1") ((List.replicate 8 1).map .granted) :: [.kill])).view
        (ascii "blobs/blob-1") = some [1, 2, 3] := by
  have hreply : (freshDrive (ascii "/srv")).reply
      (.put [1, 2, 3] (ascii "blobs/blob-1") ((List.replicate 8 1).map .granted)) =
        some (.put (.ok 3)) :=
    put_granted (by decide) governed_small (by decide) (by decide)
  exact acknowledged_put_stays (by decide) (fun _ h => by cases h) governed_small not_tempKey_small
    hreply fun e he => by
      obtain rfl := List.mem_singleton.mp he
      exact ⟨trivial, trivial⟩

end StorageFabric
