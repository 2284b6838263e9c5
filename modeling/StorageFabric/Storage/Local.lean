import StorageFabric.Lib.Table
import StorageFabric.Model.Records
import StorageFabric.Storage.Backend

/-!
The local filesystem backend: governed keys, and the files below
`root/objects` as a table from accepted keys to contents.

A write goes to a temporary file and is renamed into place, so it either
replaces the whole file or leaves it alone. What the operating system answers
is not computed here: a fault, when there is one, is part of the state.
-/

namespace StorageFabric

def isSeparator (b : UInt8) : Bool := b = 47 || b = 92

/-- The loop over the components of what is left of a key; at most one turn
for each byte. -/
def validateComponents : Nat → Bytes → Status
  | 0, _ => .okStatus
  | _ + 1, [] => .okStatus
  | turns + 1, rest =>
      let comp := rest.takeWhile fun b => !isSeparator b
      if comp = [] ∨ comp = ascii "." ∨ comp = ascii ".." then
        .of .pathUnsafe "unsafe key component"
      else if 128 < comp.length then .of .invalidArgument "key component too long"
      else validateComponents turns (rest.drop (comp.length + 1))

def validateGovernedKey (key : Bytes) : Status :=
  if key = [] then .of .invalidArgument "empty key"
  else if 512 < key.length then .of .invalidArgument "key too long"
  else if key.head?.any isSeparator then .of .pathUnsafe "absolute key"
  else if (0 : UInt8) ∈ key then .of .pathUnsafe "key contains NUL"
  else if key.getLast?.any isSeparator then .of .pathUnsafe "key ends with a separator"
  else validateComponents key.length key

structure LocalBackend where
  root : Bytes := []
  /-- The regular files below `root/objects`, by governed key. -/
  files : Table Bytes Bytes := ∅
  /-- The message of the error with which the operating system refuses
  writes, opening for read, and removals, if it does. -/
  writeFault : Option Bytes := none
  readFault : Option Bytes := none
  removeFault : Option Bytes := none
  deriving DecidableEq

namespace LocalBackend

/-- `resolve_key`, as the key under which the file is kept. -/
def resolveKey (key : Bytes) : Result Bytes :=
  let k := validateGovernedKey key
  if !k.isOk then .error k else .ok key

def put (b : LocalBackend) (data key : Bytes) : Result UInt64 × LocalBackend :=
  match resolveKey key with
  | .error s => (.error s, b)
  | .ok target =>
      match b.writeFault with
      | some msg => (Result.failure .ioError msg, b)
      | none => (.ok (UInt64.ofNat data.length), { b with files := b.files.insert target data })

def read (b : LocalBackend) (key : Bytes) : Result Bytes :=
  match resolveKey key with
  | .error s => .error s
  | .ok target =>
      match b.files.lookup target with
      | none => Result.fail .notFound "file not found: No such file or directory"
      | some data =>
          match b.readFault with
          | some msg => Result.failure .ioError msg
          | none =>
              if 64 * 1024 * 1024 * 1024 < data.length then
                Result.fail .overflow "file exceeds bounded read"
              else .ok data

def remove (b : LocalBackend) (key : Bytes) : Status × LocalBackend :=
  match resolveKey key with
  | .error s => (s, b)
  | .ok target =>
      match b.removeFault with
      | some msg => (⟨.ioError, ascii "remove failed: " ++ msg⟩, b)
      | none => (.okStatus, { b with files := b.files.erase target })

/-- `query_capacity`, where the operating system reports the size of the file system
of the root and what of it is available, or an error. -/
def queryCapacity (space : Option (UInt64 × UInt64)) : Result BackendCapacity :=
  match space with
  | none => .ok { unknown := true }
  | some (capacity, available) => .ok { totalBytes := capacity, freeBytes := available }

theorem eq_of_resolveKey {key target : Bytes} (h : resolveKey key = .ok target) :
    target = key := by
  unfold resolveKey at h
  by_cases hk : (!(validateGovernedKey key).isOk) = true
  · simp [hk] at h
  · simpa [hk] using h.symm

theorem not_isOk_of_resolveKey {key : Bytes} {s : Status} (h : resolveKey key = .error s) :
    s.isOk = false := by
  unfold resolveKey at h
  by_cases hk : (!(validateGovernedKey key).isOk) = true
  · simp only [hk, if_true, Except.error.injEq] at h
    subst h
    simpa using hk
  · simp [hk] at h

/-- The local backend is a key-value map over its files. -/
instance : KeyValueBackend LocalBackend where
  put := put
  read := read
  remove := remove
  view b key := b.files.lookup key
  put_ok {b data key n} h k := by
    unfold put at h ⊢
    cases hkey : resolveKey key with
    | error s => simp [hkey] at h
    | ok target =>
        cases hfault : b.writeFault with
        | some msg => simp [hkey, hfault, Result.failure] at h
        | none => simp [eq_of_resolveKey hkey, AList.lookup_insert_eq]
  put_error {b data key e} h k := by
    unfold put at h ⊢
    cases hkey : resolveKey key with
    | error s => simp
    | ok target =>
        cases hfault : b.writeFault with
        | some msg => simp
        | none => simp [hkey, hfault] at h
  read_ok {b key data} h := by
    unfold read at h
    cases hkey : resolveKey key with
    | error s => simp [hkey] at h
    | ok target =>
        rw [eq_of_resolveKey hkey] at hkey
        cases hfile : b.files.lookup key with
        | none => simp [hkey, hfile, Result.fail] at h
        | some v =>
            cases hfault : b.readFault with
            | some msg => simp [hkey, hfile, hfault, Result.failure] at h
            | none =>
                by_cases hlen : 64 * 1024 * 1024 * 1024 < v.length
                · simp [hkey, hfile, hfault, hlen, Result.fail] at h
                · simpa [hkey, hfile, hfault, hlen] using h
  remove_ok {b key} h k := by
    unfold remove at h ⊢
    cases hkey : resolveKey key with
    | error s => simp [hkey, not_isOk_of_resolveKey hkey] at h
    | ok target =>
        cases hfault : b.removeFault with
        | some msg => simp [hkey, hfault, Status.isOk] at h
        | none => simp [eq_of_resolveKey hkey, AList.lookup_erase_eq]
  remove_error {b key} h k := by
    unfold remove at h ⊢
    cases hkey : resolveKey key with
    | error s => simp
    | ok target =>
        cases hfault : b.removeFault with
        | some msg => simp
        | none => simp [hkey, hfault] at h

end LocalBackend

end StorageFabric
