import StorageFabric.Core.Base

/-!
The storage backend contract, as far as the runtime uses it: writing, reading
and removing the bytes under a key.

`StorageBackend` is the interface alone. `KeyValueBackend` adds what it means
to behave as a key-value map, through the contents `view` of the backend: an
operation that succeeds does to the contents what a map would do, one that
fails leaves them alone, and a read that succeeds returns what is there. Any
operation may fail at any time. A backend is `Readable` when a read of a key it
holds does not fail.
-/

namespace StorageFabric

class StorageBackend (β : Type) where
  put : β → Bytes → Bytes → Result UInt64 × β
  read : β → Bytes → Result Bytes
  remove : β → Bytes → Status × β

class KeyValueBackend (β : Type) extends StorageBackend β where
  view : β → Bytes → Option Bytes
  put_ok : ∀ {be data key n}, (put be data key).1 = .ok n → ∀ k,
    view (put be data key).2 k = if k = key then some data else view be k
  put_error : ∀ {be data key e}, (put be data key).1 = .error e → ∀ k,
    view (put be data key).2 k = view be k
  read_ok : ∀ {be key data}, read be key = .ok data → view be key = some data
  remove_ok : ∀ {be key}, (remove be key).1.isOk = true → ∀ k,
    view (remove be key).2 k = if k = key then none else view be k
  remove_error : ∀ {be key}, (remove be key).1.isOk = false → ∀ k,
    view (remove be key).2 k = view be k

namespace KeyValueBackend

variable {β : Type} [KeyValueBackend β]

/-- Reads of this backend do not fail on a key it holds. -/
def Readable (be : β) : Prop :=
  ∀ key data, view be key = some data → StorageBackend.read be key = .ok data

theorem view_remove (be : β) (key k : Bytes) :
    view (StorageBackend.remove be key).2 k = view be k ∨
      k = key ∧ view (StorageBackend.remove be key).2 k = none := by
  by_cases hok : (StorageBackend.remove be key).1.isOk = true
  · rw [remove_ok hok]
    by_cases hk : k = key <;> simp [hk]
  · exact .inl (remove_error (by simpa using hok) k)

end KeyValueBackend

end StorageFabric
