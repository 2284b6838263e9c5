import StorageFabric.Storage.Local
import StorageFabric.Storage.Synthetic

/-!
The object behind a `shared_ptr<StorageBackend>`: one of the two backends the
runtime registers, with its operations dispatched to it.
-/

namespace StorageFabric

inductive AnyBackend
  | onDisk (b : LocalBackend)
  | inMemory (b : SyntheticBackend)
  deriving DecidableEq

namespace AnyBackend

def put : AnyBackend → Bytes → Bytes → Result UInt64 × AnyBackend
  | onDisk b, data, key => ((b.put data key).1, onDisk (b.put data key).2)
  | inMemory b, data, key => ((b.put data key).1, inMemory (b.put data key).2)

def read : AnyBackend → Bytes → Result Bytes
  | onDisk b, key => b.read key
  | inMemory b, key => b.read key

def remove : AnyBackend → Bytes → Status × AnyBackend
  | onDisk b, key => ((b.remove key).1, onDisk (b.remove key).2)
  | inMemory b, key => ((b.remove key).1, inMemory (b.remove key).2)

def view : AnyBackend → Bytes → Option Bytes
  | onDisk b, key => KeyValueBackend.view b key
  | inMemory b, key => KeyValueBackend.view b key

instance : KeyValueBackend AnyBackend where
  put := put
  read := read
  remove := remove
  view := view
  put_ok {be _ _ _} h k := by
    cases be with
    | onDisk b => exact @KeyValueBackend.put_ok LocalBackend _ b _ _ _ h k
    | inMemory b => exact @KeyValueBackend.put_ok SyntheticBackend _ b _ _ _ h k
  put_error {be _ _ _} h k := by
    cases be with
    | onDisk b => exact @KeyValueBackend.put_error LocalBackend _ b _ _ _ h k
    | inMemory b => exact @KeyValueBackend.put_error SyntheticBackend _ b _ _ _ h k
  read_ok {be _ _} h := by
    cases be with
    | onDisk b => exact @KeyValueBackend.read_ok LocalBackend _ b _ _ h
    | inMemory b => exact @KeyValueBackend.read_ok SyntheticBackend _ b _ _ h
  remove_ok {be _} h k := by
    cases be with
    | onDisk b => exact @KeyValueBackend.remove_ok LocalBackend _ b _ h k
    | inMemory b => exact @KeyValueBackend.remove_ok SyntheticBackend _ b _ h k
  remove_error {be _} h k := by
    cases be with
    | onDisk b => exact @KeyValueBackend.remove_error LocalBackend _ b _ h k
    | inMemory b => exact @KeyValueBackend.remove_error SyntheticBackend _ b _ h k

end AnyBackend

end StorageFabric
