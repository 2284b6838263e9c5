import Mathlib.Data.Nat.Digits.Defs

/-!
Identities, generation stamps, statuses and byte strings.

A strong identity is drawn from a counter that starts at one and advances by
one with every allocation. The model keeps its value as a natural number, of
which the source has the low 64 bits: a counter that starts at one never gets
there. The counter of the blobs is the one that does not always start there,
because a recovery moves it past every blob id that a metadata file names; so
a blob id is nil when its low 64 bits are (`BlobId.isNil`). A generation is
compared, sent and stored as a 64-bit word and can be any of them, so it is
one here too.
-/

namespace StorageFabric

/-! ### Byte strings -/

abbrev Bytes := List UInt8

/-- The bytes of an ASCII literal. -/
def ascii (s : String) : Bytes := s.toList.map fun c => UInt8.ofNat c.toNat

/-- The decimal digits of a number, most significant first. -/
def decimal (n : Nat) : Bytes :=
  if n = 0 then [48] else (Nat.digits 10 n).reverse.map fun d => UInt8.ofNat (48 + d)

/-! ### Strong identities -/

/-- A strongly typed identity. Value `0` is the nil value. -/
structure StrongId (Tag : Type) where
  value : Nat

namespace StrongId

variable {Tag : Type}

instance : Inhabited (StrongId Tag) := ⟨⟨0⟩⟩

def isNil (id : StrongId Tag) : Bool := id.value = 0

def next (id : StrongId Tag) : StrongId Tag := ⟨id.value + 1⟩

def str (id : StrongId Tag) : Bytes := decimal id.value

@[ext] theorem ext {a b : StrongId Tag} (h : a.value = b.value) : a = b := by
  cases a; cases b; simpa using h

instance : DecidableEq (StrongId Tag) := fun a b =>
  decidable_of_iff (a.value = b.value) ⟨ext, congrArg value⟩

end StrongId

inductive ObjectIdTag
inductive BlobIdTag
inductive ChunkIdTag
inductive ManifestIdTag
inductive ReplicaIdTag
inductive PlacementIdTag
inductive StorageTierIdTag
inductive StorageBackendIdTag
inductive StorageNodeIdTag
inductive VolumeIdTag
inductive OwnerIdTag
inductive WorkerIdTag
inductive WorkerBootIdTag
inductive ReservationIdTag
inductive TransferIdTag

abbrev ObjectId := StrongId ObjectIdTag
abbrev BlobId := StrongId BlobIdTag

/-- The check for nil sees 64 bits: behind the last blob id comes the nil one. -/
def BlobId.isNil (id : BlobId) : Bool := id.value % 2 ^ 64 = 0

abbrev ChunkId := StrongId ChunkIdTag
abbrev ManifestId := StrongId ManifestIdTag
abbrev ReplicaId := StrongId ReplicaIdTag
abbrev PlacementId := StrongId PlacementIdTag
abbrev StorageTierId := StrongId StorageTierIdTag
abbrev StorageBackendId := StrongId StorageBackendIdTag
abbrev StorageNodeId := StrongId StorageNodeIdTag
abbrev VolumeId := StrongId VolumeIdTag
abbrev OwnerId := StrongId OwnerIdTag
abbrev WorkerId := StrongId WorkerIdTag
abbrev WorkerBootId := StrongId WorkerBootIdTag
abbrev ReservationId := StrongId ReservationIdTag
abbrev TransferId := StrongId TransferIdTag

/-! ### Generations -/

/-- A strongly typed 64-bit generation stamp. -/
structure Generation (Tag : Type) where
  value : UInt64

namespace Generation

variable {Tag : Type}

instance : Inhabited (Generation Tag) := ⟨⟨0⟩⟩

def isNil (g : Generation Tag) : Bool := g.value = 0

/-- The next generation; the addition is on 64 bits. -/
def next (g : Generation Tag) : Generation Tag := ⟨g.value + 1⟩

def str (g : Generation Tag) : Bytes := decimal g.value.toNat

@[ext] theorem ext {a b : Generation Tag} (h : a.value = b.value) : a = b := by
  cases a; cases b; simpa using h

instance : DecidableEq (Generation Tag) := fun a b =>
  decidable_of_iff (a.value = b.value) ⟨ext, congrArg value⟩

end Generation

inductive CoordinatorEpochTag
inductive ObjectGenerationTag
inductive ReplicaGenerationTag
inductive PlacementGenerationTag
inductive BackendGenerationTag
inductive ManifestGenerationTag
inductive ChunkGenerationTag
inductive AuthorityGenerationTag
inductive ReservationGenerationTag
inductive PolicyGenerationTag

abbrev CoordinatorEpoch := Generation CoordinatorEpochTag
abbrev ObjectGeneration := Generation ObjectGenerationTag
abbrev ReplicaGeneration := Generation ReplicaGenerationTag
abbrev PlacementGeneration := Generation PlacementGenerationTag
abbrev BackendGeneration := Generation BackendGenerationTag
abbrev ManifestGeneration := Generation ManifestGenerationTag
abbrev ChunkGeneration := Generation ChunkGenerationTag
abbrev AuthorityGeneration := Generation AuthorityGenerationTag
abbrev ReservationGeneration := Generation ReservationGenerationTag
abbrev PolicyGeneration := Generation PolicyGenerationTag

/-! ### Statuses -/

inductive StatusCode
  | ok
  | invalidArgument
  | notImplemented
  | unsupported
  | notFound
  | alreadyExists
  | duplicateIdentity
  | invalidState
  | invalidTransition
  | integrityMismatch
  | digestMismatch
  | lengthMismatch
  | truncated
  | corrupted
  | malformed
  | overflow
  | staleGeneration
  | staleAuthority
  | staleObservation
  | duplicateReservation
  | staleReservation
  | reservationOvercommit
  | negativeAccounting
  | insufficientCapacity
  | backendUnavailable
  | backendDegraded
  | pathUnsafe
  | policyViolation
  | evictionUnsafe
  | dedupRefcountUnderflow
  | ioError
  | protocolError
  | trailingGarbage
  | reentrancy
  | contention
  | kernelError
  | internal
  deriving DecidableEq

/-- `status_name`. -/
def StatusCode.name : StatusCode → String
  | .ok => "Ok"
  | .invalidArgument => "InvalidArgument"
  | .notImplemented => "NotImplemented"
  | .unsupported => "Unsupported"
  | .notFound => "NotFound"
  | .alreadyExists => "AlreadyExists"
  | .duplicateIdentity => "DuplicateIdentity"
  | .invalidState => "InvalidState"
  | .invalidTransition => "InvalidTransition"
  | .integrityMismatch => "IntegrityMismatch"
  | .digestMismatch => "DigestMismatch"
  | .lengthMismatch => "LengthMismatch"
  | .truncated => "Truncated"
  | .corrupted => "Corrupted"
  | .malformed => "Malformed"
  | .overflow => "Overflow"
  | .staleGeneration => "StaleGeneration"
  | .staleAuthority => "StaleAuthority"
  | .staleObservation => "StaleObservation"
  | .duplicateReservation => "DuplicateReservation"
  | .staleReservation => "StaleReservation"
  | .reservationOvercommit => "ReservationOvercommit"
  | .negativeAccounting => "NegativeAccounting"
  | .insufficientCapacity => "InsufficientCapacity"
  | .backendUnavailable => "BackendUnavailable"
  | .backendDegraded => "BackendDegraded"
  | .pathUnsafe => "PathUnsafe"
  | .policyViolation => "PolicyViolation"
  | .evictionUnsafe => "EvictionUnsafe"
  | .dedupRefcountUnderflow => "DedupRefcountUnderflow"
  | .ioError => "IoError"
  | .protocolError => "ProtocolError"
  | .trailingGarbage => "TrailingGarbage"
  | .reentrancy => "Reentrancy"
  | .contention => "Contention"
  | .kernelError => "KernelError"
  | .internal => "Internal"

structure Status where
  code : StatusCode
  message : Bytes
  deriving DecidableEq

namespace Status

def okStatus : Status := ⟨.ok, []⟩

def isOk (s : Status) : Bool := s.code = .ok

def of (code : StatusCode) (message : String) : Status := ⟨code, ascii message⟩

def toString (s : Status) : Bytes :=
  if s.message.isEmpty then ascii s.code.name else ascii s.code.name ++ ascii ": " ++ s.message

@[simp] theorem isOk_okStatus : okStatus.isOk = true := rfl

end Status

/-- `Result<T>`: a value, or the status that says why there is none. -/
abbrev Result (α : Type) := Except Status α

def Result.failure {α : Type} (code : StatusCode) (message : Bytes) : Result α :=
  .error ⟨code, message⟩

def Result.fail {α : Type} (code : StatusCode) (message : String) : Result α :=
  .error (Status.of code message)

end StorageFabric
