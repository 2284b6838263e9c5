import Mathlib.Data.List.Forall2

/-!
Messages in a stream.

A message is encoded with a head of fixed size that tells how long the body is. A reader
of a stream of messages takes a head and then the body: however far it is, what it has
is the front of the first message that it has not got (`head_eq`, `body_eq`), so that it
never takes more than one message nor stops inside one. Where all messages are of one
size, no head is needed (`forall₂_of_flatMap_eq`).
-/

/-- An encoding of the messages in `Valid` with a head of `headSize` letters. -/
structure Framing (α β : Type) where
  Valid : α → Prop
  encode : α → List β
  headSize : Nat
  headSize_pos : 0 < headSize
  headSize_le : ∀ a, Valid a → headSize ≤ (encode a).length

namespace Framing

variable {α β : Type} (F : Framing α β)

def encodeAll (as : List α) : List β := as.flatMap F.encode

@[simp] theorem encodeAll_nil : F.encodeAll [] = [] := rfl

@[simp] theorem encodeAll_cons (a : α) (as : List α) :
    F.encodeAll (a :: as) = F.encode a ++ F.encodeAll as := rfl

@[simp] theorem encodeAll_append (as bs : List α) :
    F.encodeAll (as ++ bs) = F.encodeAll as ++ F.encodeAll bs := List.flatMap_append

variable {F}

theorem exists_first {as : List α} {front rest : List β} (h : front ++ rest = F.encodeAll as)
    (hfront : front ≠ []) : ∃ a more, as = a :: more := by
  cases as with
  | nil => exact absurd (List.append_eq_nil_iff.mp h).1 hfront
  | cons a more => exact ⟨a, more, rfl⟩

/-- Who has a head's length of a stream has the head of its first message. -/
theorem head_eq {as : List α} (hvalid : ∀ a ∈ as, F.Valid a) {front rest : List β}
    (h : front ++ rest = F.encodeAll as) (hlength : front.length = F.headSize) :
    ∃ a more, as = a :: more ∧ front = (F.encode a).take F.headSize := by
  have hfront : front ≠ [] := List.length_pos_iff.mp (hlength ▸ F.headSize_pos)
  obtain ⟨a, more, rfl⟩ := exists_first h hfront
  refine ⟨a, more, rfl, ?_⟩
  have htake := congrArg (List.take F.headSize) h
  rwa [List.take_left' hlength, encodeAll_cons,
    List.take_append_of_le_length (F.headSize_le a (hvalid a List.mem_cons_self))] at htake

/-- Who has as much of a stream as its first message is long has that message. -/
theorem body_eq {a : α} {more : List α} {front rest : List β}
    (h : front ++ rest = F.encodeAll (a :: more)) (hlength : front.length = (F.encode a).length) :
    front = F.encode a ∧ rest = F.encodeAll more :=
  List.append_inj h hlength

theorem eq_nil_of_encodeAll {as : List α} (hvalid : ∀ a ∈ as, F.Valid a)
    (h : F.encodeAll as = []) : as = [] := by
  cases as with
  | nil => rfl
  | cons a more =>
      have hnil := (List.append_eq_nil_iff.mp h).1
      have hle := F.headSize_le a (hvalid a List.mem_cons_self)
      rw [hnil, List.length_nil] at hle
      exact absurd F.headSize_pos (Nat.not_lt.mpr hle)

/-! ### Records of one width -/

/-- Records of one width can be told apart in a row. -/
theorem forall₂_of_flatMap_eq {f : α → List β} {w : Nat} (hw : 0 < w)
    (hf : ∀ a, (f a).length = w) {as bs : List α} (h : as.flatMap f = bs.flatMap f) :
    List.Forall₂ (fun a b => f a = f b) as bs := by
  -- a row with a record in it is longer than an empty one
  have hmore : ∀ (a : α) (cs : List α), 0 < ((a :: cs).flatMap f).length := fun a cs => by
    rw [List.flatMap_cons, List.length_append, hf]
    omega
  induction as generalizing bs with
  | nil =>
      cases bs with
      | nil => exact .nil
      | cons b bs => exact absurd (congrArg List.length h) (Nat.ne_of_lt (hmore b bs))
  | cons a as ih =>
      cases bs with
      | nil => exact absurd (congrArg List.length h) (Nat.ne_of_gt (hmore a as))
      | cons b bs =>
          rw [List.flatMap_cons, List.flatMap_cons] at h
          obtain ⟨hfirst, hrest⟩ := List.append_inj h ((hf a).trans (hf b).symm)
          exact .cons hfirst (ih hrest)

end Framing
